import FieldPipeline.Record

/-!
# Repeated puts, and what puts leave alone

A second put under a name takes over the first one's place, and a put under a name that is present
can be done before or after a put under another name. What a put leaves alone is seen by leaving
some names out: the rest of the record, with its order, is the same before and after.
-/

namespace FieldPipeline.Record

universe u v

variable {κ : Type u} {α : Type v} [DecidableEq κ]

@[simp] theorem put_put_self (r : Record κ α) (name : κ) (a b : α) :
    put (put r name a) name b = put r name b := by
  induction r with
  | nil => simp [put]
  | cons entry r ih =>
    obtain ⟨n, c⟩ := entry
    by_cases h : n = name <;> simp [put, h, ih]

@[simp] theorem mem_names_put_self (r : Record κ α) (name : κ) (a : α) :
    name ∈ names (put r name a) := by
  rw [names_put]
  split
  · assumption
  · simp

theorem put_of_notMem {r : Record κ α} {name : κ} (h : name ∉ names r) (a : α) :
    put r name a = r ++ [(name, a)] := by
  induction r with
  | nil => rfl
  | cons entry r ih =>
    obtain ⟨n, b⟩ := entry
    have hn : n ≠ name := fun hname => h (hname ▸ List.mem_cons_self)
    have hrest : name ∉ names r := fun hmem => h (List.mem_cons_of_mem n hmem)
    rw [put, if_neg hn, ih hrest, List.cons_append]

theorem foldl_put_of_nodup {entries : List (κ × α)} {r : Record κ α}
    (h : (names r ++ entries.map Prod.fst).Nodup) :
    entries.foldl (fun r entry => put r entry.1 entry.2) r = r ++ entries := by
  induction entries generalizing r with
  | nil => simp
  | cons entry entries ih =>
    have hname : entry.1 ∉ names r := by
      intro hmem
      exact (List.nodup_append.1 h).2.2 entry.1 hmem entry.1 List.mem_cons_self rfl
    have hput := put_of_notMem hname entry.2
    have hnodup : (names (put r entry.1 entry.2) ++ entries.map Prod.fst).Nodup := by
      rw [hput]
      simpa [names] using h
    rw [List.foldl_cons, ih hnodup, hput, List.append_assoc, List.singleton_append]

/-- Entries with distinct names are a record as they are. -/
theorem ofEntries_of_nodup {entries : List (κ × α)} (h : (entries.map Prod.fst).Nodup) :
    ofEntries entries = entries :=
  foldl_put_of_nodup (r := []) h

/-- A name that is present keeps its place, so it does not matter when it is put. -/
theorem put_comm_of_mem {r : Record κ α} {name other : κ} (h : name ∈ names r) (hne : other ≠ name)
    (a b : α) : put (put r other a) name b = put (put r name b) other a := by
  induction r with
  | nil => simp [names] at h
  | cons entry r ih =>
    obtain ⟨n, c⟩ := entry
    by_cases hn : n = name
    · subst hn
      simp [put, Ne.symm hne]
    · have hmem : name ∈ names r := by simpa [names, Ne.symm hn] using h
      by_cases ho : n = other
      · subst ho
        simp [put, hn]
      · simp [put, hn, ho, ih hmem]

/-- The entries under other names, in order. -/
def without (omitted : List κ) (r : Record κ α) : Record κ α :=
  r.filter fun entry => entry.1 ∉ omitted

/-- A put under an omitted name does not show. -/
theorem without_put {omitted : List κ} {name : κ} (h : name ∈ omitted) (r : Record κ α) (a : α) :
    without omitted (put r name a) = without omitted r := by
  induction r with
  | nil => simp [put, without, h]
  | cons entry r ih =>
    obtain ⟨n, b⟩ := entry
    by_cases hn : n = name
    · subst hn
      simp [put, without, h]
    · have ih' : (put r name a).filter (fun entry => entry.1 ∉ omitted) =
          r.filter (fun entry => entry.1 ∉ omitted) := ih
      simp only [put, if_neg hn, without, List.filter_cons, ih']

/-- What agrees with few names left out agrees with more left out. -/
theorem without_eq_of_subset {omitted more : List κ} (h : omitted ⊆ more) {r r' : Record κ α}
    (heq : without omitted r = without omitted r') : without more r = without more r' := by
  have hmore (s : Record κ α) : without more s = without more (without omitted s) := by
    rw [without, without, without, List.filter_filter]
    refine List.filter_congr fun entry _ => ?_
    by_cases hm : entry.1 ∈ omitted
    · simp [hm, h hm]
    · simp [hm]
  rw [hmore r, heq, ← hmore r']

theorem get?_without {omitted : List κ} {name : κ} (h : name ∉ omitted) (r : Record κ α) :
    get? (without omitted r) name = get? r name := by
  induction r with
  | nil => rfl
  | cons entry r ih =>
    obtain ⟨n, b⟩ := entry
    by_cases hn : n ∈ omitted
    · have hne : n ≠ name := fun hname => h (hname ▸ hn)
      have hskip : without omitted ((n, b) :: r) = without omitted r := by simp [without, hn]
      rw [hskip, ih, get?_cons, if_neg hne]
    · have hkeep : without omitted ((n, b) :: r) = (n, b) :: without omitted r := by
        simp [without, hn]
      rw [hkeep, get?_cons, get?_cons, ih]

/-- Records that differ under omitted names only have the same values under all other names. -/
theorem get?_eq_of_without_eq {omitted : List κ} {r r' : Record κ α}
    (h : without omitted r = without omitted r') {name : κ} (hname : name ∉ omitted) :
    get? r name = get? r' name := by
  rw [← get?_without hname r, h, get?_without hname r']

end FieldPipeline.Record
