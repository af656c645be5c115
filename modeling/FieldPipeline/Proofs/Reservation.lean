import FieldPipeline.Pipeline.Draft
import FieldPipeline.Proofs.Dots
import FieldPipeline.Reservation.History
import Mathlib.Data.List.Nodup

/-!
# Allocated keys do not collide

A key shows the number that it was allocated with after its last underscore, whatever the stem is,
and a temporary name has no number there. Allocations take consecutive numbers, so a run makes
different keys as long as the supply does not come back to a number.
-/

namespace FieldPipeline

namespace Reservation

def ending? (key : String) : Option (List Char) :=
  (Text.pieces '_' key.toList).getLast?

theorem ending?_numberedKey (stem : String) (n : UInt64) :
    ending? (numberedKey stem n) = some (Nat.toDigits 10 n.toNat) := by
  have hkey : (numberedKey stem n).toList = stem.toList ++ '_' :: Nat.toDigits 10 n.toNat := by
    simp [numberedKey]
  rw [ending?, hkey, Text.getLast?_pieces _ Nat.underscore_not_in_toDigits]

theorem ending?_temporaryKey (key : String) :
    ending? (temporaryKey key) = some "project".toList := by
  have hkey : (temporaryKey key).toList = key.toList ++ '_' :: "project".toList := by
    simp [temporaryKey]
  rw [ending?, hkey, Text.getLast?_pieces _ (by decide)]

theorem toDigits_inj {n n' : Nat} (h : Nat.toDigits 10 n = Nat.toDigits 10 n') : n = n' := by
  have hread := congrArg (Nat.ofDigitChars 10 · 0) h
  simpa using hread

/-- A key shows its number. Stems may differ and end in an underscore and digits themselves, but
digits have no underscore, so the last one stands before the number. -/
theorem number_of_numberedKey {stem stem' : String} {n n' : UInt64}
    (h : numberedKey stem n = numberedKey stem' n') : n = n' := by
  have hending := congrArg ending? h
  rw [ending?_numberedKey, ending?_numberedKey] at hending
  exact UInt64.toNat_inj.1 (toDigits_inj (Option.some.inj hending))

theorem temporaryKey_ne_numberedKey (key stem : String) (n : UInt64) :
    temporaryKey key ≠ numberedKey stem n := by
  intro h
  have hending := congrArg ending? h
  rw [ending?_temporaryKey, ending?_numberedKey] at hending
  have hp : 'p' ∈ Nat.toDigits 10 n.toNat := by
    rw [← Option.some.inj hending]
    decide
  exact absurd (Nat.isDigit_of_mem_toDigits (by decide) (by decide) hp) (by decide)

theorem temporaryKey_injective : Function.Injective temporaryKey := fun _ _ h =>
  (String.append_left_inj _).1 h

def Step.stem? : Step → Option String
  | .fresh => some standardStem
  | .allocate stem => some stem
  | .adopt _ | .copy _ => none

def stems (steps : List Step) : List String :=
  steps.filterMap Step.stem?

/-- Keys with consecutive numbers. -/
def keysFrom (n : UInt64) (stems : List String) : List String :=
  stems.mapIdx fun i stem => numberedKey stem (n + .ofNat i)

theorem add_ofNat_zero (n : UInt64) : n + .ofNat 0 = n :=
  UInt64.add_zero n

theorem add_ofNat_succ (n : UInt64) (i : Nat) : n + .ofNat (i + 1) = n + 1 + .ofNat i := by
  rw [UInt64.ofNat_add, UInt64.add_comm (.ofNat i), UInt64.add_assoc]
  rfl

theorem keysFrom_cons (n : UInt64) (stem : String) (stems : List String) :
    keysFrom n (stem :: stems) = numberedKey stem n :: keysFrom (n + 1) stems := by
  simp only [keysFrom, List.mapIdx_cons, add_ofNat_zero, add_ofNat_succ]

theorem add_ofNat_inj {n : UInt64} {i j : Nat} (hi : i < UInt64.size) (hj : j < UInt64.size)
    (h : n + .ofNat i = n + .ofNat j) : i = j := by
  have hmod := congrArg UInt64.toNat ((UInt64.add_right_inj n).1 h)
  rwa [UInt64.toNat_ofNat_of_lt' hi, UInt64.toNat_ofNat_of_lt' hj] at hmod

theorem nodup_keysFrom (n : UInt64) {stems : List String} (h : stems.length ≤ UInt64.size) :
    (keysFrom n stems).Nodup := by
  rw [List.nodup_iff_pairwise_ne, List.pairwise_iff_getElem]
  intro i j hi hj hij heq
  rw [keysFrom, List.length_mapIdx] at hi hj
  simp only [keysFrom, List.getElem_mapIdx] at heq
  have := add_ofNat_inj (by omega) (by omega) (number_of_numberedKey heq)
  omega

theorem nodup_keysFrom_temporaryKeys (n : UInt64) {stems : List String}
    (h : stems.length ≤ UInt64.size) :
    (keysFrom n stems ++ (keysFrom n stems).map temporaryKey).Nodup := by
  have hkeys := nodup_keysFrom n h
  refine List.nodup_append.2 ⟨hkeys, hkeys.map temporaryKey_injective, ?_⟩
  intro key hkey name hname heq
  obtain ⟨i, hi, rfl⟩ := List.mem_mapIdx.1 hkey
  obtain ⟨other, -, rfl⟩ := List.mem_map.1 hname
  exact temporaryKey_ne_numberedKey _ _ _ heq.symm

theorem Step.outcome_of_stem {step : Step} {stem : String} (h : step.stem? = some stem)
    (history : History) :
    step.outcome history = some (Reservation.allocate stem history.supply) := by
  cases step with
  | fresh | allocate =>
    cases h
    rfl
  | adopt | copy => cases h

theorem Step.supply_of_outcome {step : Step} (h : step.stem? = none) {history : History}
    {reservation : Reservation} {supply : KeySupply}
    (houtcome : step.outcome history = some (reservation, supply)) : supply = history.supply := by
  cases step with
  | fresh | allocate => cases h
  | adopt =>
    cases houtcome
    rfl
  | copy =>
    obtain ⟨original, -, heq⟩ := Option.map_eq_some_iff.1 houtcome
    cases heq
    rfl

namespace History

/-- What the steps of a run make, each reservation beside its step. -/
def made (h : History) : List Step → List (Step × Reservation)
  | [] => []
  | step :: steps =>
    match step.outcome h with
    | some (reservation, _) => (step, reservation) :: (h.extend step).made steps
    | none => h.made steps

def allocatedKeys (h : History) (steps : List Step) : List String :=
  ((h.made steps).filter (·.1.stem?.isSome)).map (·.2.key)

theorem extend_of_outcome {h : History} {step : Step} {reservation : Reservation}
    {supply : KeySupply} (houtcome : step.outcome h = some (reservation, supply)) :
    h.extend step = ⟨supply, h.reservations ++ [reservation]⟩ := by
  rw [extend, houtcome]

theorem extend_of_outcome_none {h : History} {step : Step} (houtcome : step.outcome h = none) :
    h.extend step = h := by
  rw [extend, houtcome]

theorem run_cons (h : History) (step : Step) (steps : List Step) :
    h.run (step :: steps) = (h.extend step).run steps := rfl

theorem run_append (h : History) (before after : List Step) :
    h.run (before ++ after) = (h.run before).run after :=
  List.foldl_append

theorem reservations_run (h : History) (steps : List Step) :
    (h.run steps).reservations = h.reservations ++ (h.made steps).map Prod.snd := by
  induction steps generalizing h with
  | nil => exact (List.append_nil _).symm
  | cons step steps ih =>
    rw [run_cons, ih, made]
    cases houtcome : step.outcome h with
    | none => rw [extend_of_outcome_none houtcome]
    | some outcome => simp [extend_of_outcome houtcome]

theorem getElem?_run {h : History} {i : Nat} {reservation : Reservation}
    (hi : h.reservations[i]? = some reservation) (steps : List Step) :
    (h.run steps).reservations[i]? = some reservation := by
  rw [reservations_run, List.getElem?_append_left (List.getElem?_eq_some_iff.1 hi).1, hi]

theorem allocatedKeys_cons_of_stem {step : Step} {stem : String} (hstem : step.stem? = some stem)
    (h : History) (steps : List Step) :
    (h.extend step).supply = ⟨h.supply.next + 1⟩ ∧
      h.allocatedKeys (step :: steps) =
        numberedKey stem h.supply.next :: (h.extend step).allocatedKeys steps := by
  have houtcome := step.outcome_of_stem hstem h
  rw [Reservation.allocate] at houtcome
  refine ⟨by rw [extend_of_outcome houtcome], ?_⟩
  simp [allocatedKeys, made, houtcome, hstem]

theorem allocatedKeys_cons_of_no_stem {step : Step} (hstem : step.stem? = none) (h : History)
    (steps : List Step) :
    (h.extend step).supply = h.supply ∧
      h.allocatedKeys (step :: steps) = (h.extend step).allocatedKeys steps := by
  cases houtcome : step.outcome h with
  | none =>
    rw [extend_of_outcome_none houtcome]
    simp [allocatedKeys, made, houtcome]
  | some outcome =>
    refine ⟨?_, by simp [allocatedKeys, made, houtcome, hstem]⟩
    rw [extend_of_outcome houtcome, step.supply_of_outcome hstem houtcome]

theorem allocatedKeys_eq (h : History) (steps : List Step) :
    h.allocatedKeys steps = keysFrom h.supply.next (stems steps) ∧
      (h.run steps).supply.next = h.supply.next + .ofNat (stems steps).length := by
  induction steps generalizing h with
  | nil => exact ⟨rfl, (add_ofNat_zero _).symm⟩
  | cons step steps ih =>
    obtain ⟨hkeys, hnext⟩ := ih (h.extend step)
    cases hstem : step.stem? with
    | none =>
      obtain ⟨hsupply, hcons⟩ := allocatedKeys_cons_of_no_stem hstem h steps
      rw [stems, List.filterMap_cons_none hstem, ← stems, hcons, run_cons, hkeys, hnext, hsupply]
      exact ⟨rfl, rfl⟩
    | some stem =>
      obtain ⟨hsupply, hcons⟩ := allocatedKeys_cons_of_stem hstem h steps
      rw [stems, List.filterMap_cons_some hstem, ← stems, hcons, run_cons, hkeys, hnext, hsupply,
        keysFrom_cons, List.length_cons, add_ofNat_succ]
      exact ⟨rfl, rfl⟩

/-- A run keeps what is there and adds what its steps make. Its allocations take consecutive
numbers, which depend on nothing else. Up to a whole round of the supply, their keys and temporary
names are all different. A copy has the key of its original. -/
theorem run_allocates_apart (h : History) (steps : List Step) :
    (h.run steps).reservations = h.reservations ++ (h.made steps).map Prod.snd ∧
      h.allocatedKeys steps = keysFrom h.supply.next (stems steps) ∧
      (h.run steps).supply.next = h.supply.next + .ofNat (stems steps).length ∧
      ((stems steps).length ≤ UInt64.size →
        (h.allocatedKeys steps ++ (h.allocatedKeys steps).map temporaryKey).Nodup) ∧
      ∀ before source after original, steps = before ++ .copy source :: after →
        (h.run before).reservations[source]? = some original →
          (h.run steps).reservations[source]? = some original ∧
            (h.run steps).reservations[(h.run before).reservations.length]? = some original := by
  obtain ⟨hkeys, hnext⟩ := allocatedKeys_eq h steps
  refine ⟨reservations_run h steps, hkeys, hnext, fun hround => ?_, ?_⟩
  · rw [hkeys]
    exact nodup_keysFrom_temporaryKeys h.supply.next hround
  · rintro before source after original rfl horiginal
    have houtcome : Step.outcome (h.run before) (.copy source) =
        some (original, (h.run before).supply) := by
      rw [Step.outcome, horiginal]
      rfl
    rw [run_append, run_cons]
    refine ⟨getElem?_run ?_ after, getElem?_run ?_ after⟩
    · rw [extend_of_outcome houtcome,
        List.getElem?_append_left (List.getElem?_eq_some_iff.1 horiginal).1, horiginal]
    · rw [extend_of_outcome houtcome, List.getElem?_concat_length]

/-- Stems that end in an underscore and digits, with an adopted key and a copy in between. -/
theorem run_allocates_apart_numbered_stems :
    (stems [.allocate "a", .adopt "a_8_9", .copy 1, .allocate "a_8", .fresh]).length ≤ UInt64.size ∧
      allocatedKeys ⟨⟨8⟩, []⟩ [.allocate "a", .adopt "a_8_9", .copy 1, .allocate "a_8", .fresh] =
        ["a_8", "a_8_9", "__quarry_10"] ∧
      ["a_8", "a_8_9", "__quarry_10", "a_8_project", "a_8_9_project",
        "__quarry_10_project"].Nodup ∧
      ((run ⟨⟨8⟩, []⟩ [.allocate "a", .adopt "a_8_9"]).reservations[1]? = some ⟨"a_8_9"⟩ ∧
        (run ⟨⟨8⟩, []⟩ [.allocate "a", .adopt "a_8_9", .copy 1,
          .allocate "a_8", .fresh]).reservations[2]? = some ⟨"a_8_9"⟩) := by
  have hround :
      (stems [.allocate "a", .adopt "a_8_9", .copy 1, .allocate "a_8", .fresh]).length ≤
        UInt64.size := by decide
  have hkeys : allocatedKeys ⟨⟨8⟩, []⟩
      [.allocate "a", .adopt "a_8_9", .copy 1, .allocate "a_8", .fresh] =
        ["a_8", "a_8_9", "__quarry_10"] := by
    decide
  have horiginal :
      (run ⟨⟨8⟩, []⟩ [.allocate "a", .adopt "a_8_9"]).reservations[1]? = some ⟨"a_8_9"⟩ := by
    decide
  obtain ⟨-, -, -, hapart, hcopy⟩ := run_allocates_apart ⟨⟨8⟩, []⟩
    [.allocate "a", .adopt "a_8_9", .copy 1, .allocate "a_8", .fresh]
  refine ⟨hround, hkeys, ?_, horiginal, (hcopy [.allocate "a", .adopt "a_8_9"] 1
    [.allocate "a_8", .fresh] ⟨"a_8_9"⟩ rfl horiginal).2⟩
  have := hapart hround
  rw [hkeys] at this
  exact this

end History

end Reservation

end FieldPipeline
