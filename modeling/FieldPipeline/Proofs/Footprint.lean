import FieldPipeline.Proofs.Interleaving

/-!
# What a pipeline leaves alone

A stage changes at most the fields that it assigns. It removes a field only where an operand finds
nothing, and in a pipeline no operand ever does: the presence test stands before the copy that could
fail, and the copy before the move that depends on it. So a pipeline keeps all fields of a document
in their places, and all values but those of its own two names.
-/

namespace FieldPipeline

namespace Record

universe u v

variable {κ : Type u} {α : Type v} [DecidableEq κ]

theorem without_erase {omitted : List κ} {name : κ} (h : name ∈ omitted) (r : Record κ α) :
    without omitted (erase r name) = without omitted r := by
  rw [without, erase, List.filter_filter, without]
  refine List.filter_congr fun entry _ => ?_
  by_cases hname : entry.1 = name
  · simp [hname, h]
  · simp [hname]

theorem names_prefix_put (r : Record κ α) (name : κ) (a : α) :
    names r <+: names (put r name a) := by
  rw [names_put]
  split
  · exact List.prefix_rfl
  · exact List.prefix_append _ _

end Record

namespace Stage

def writes : Stage → List String
  | .present _ => []
  | .assign fields => fields.map Prod.fst

/-- Every operand of the stage finds something. -/
def Supplied : Stage → Document → Prop
  | .present _, _ => True
  | .assign fields, d => ∀ field ∈ fields, (field.2.eval d).isSome

/-- Every operand finds something in the document that has come to its stage. -/
def SuppliedAlong : List Stage → Document → Prop
  | [], _ => True
  | stage :: rest, d => stage.Supplied d ∧ ∀ d', stage.apply d = some d' → SuppliedAlong rest d'

theorem apply_present_eq_some {key : String} {d d' : Document}
    (h : apply (.present key) d = some d') : d' = d := by
  rw [apply] at h
  split at h
  · exact (Option.some.inj h).symm
  · cases h

section Writes

variable {omitted : List String}

theorem without_setField {name : String} (h : name ∈ omitted) (d : Document)
    (found : Option Value) :
    Record.without omitted (setField d name found) = Record.without omitted d := by
  cases found with
  | none => exact Record.without_erase h d
  | some v => exact Record.without_put h d v

theorem without_assignFrom (source : Document) {fields : List (String × Operand)}
    (h : fields.map Prod.fst ⊆ omitted) (d : Document) :
    Record.without omitted (assignFrom source fields d) = Record.without omitted d := by
  induction fields generalizing d with
  | nil => rfl
  | cons field fields ih =>
    have hname : field.1 ∈ omitted := h List.mem_cons_self
    have hrest : fields.map Prod.fst ⊆ omitted := fun name hmem => h (List.mem_cons_of_mem _ hmem)
    have hset := without_setField hname d (field.2.eval source)
    exact (ih hrest (setField d field.1 (field.2.eval source))).trans hset

/-- A stage changes nothing under names that it does not assign. -/
theorem without_apply {stage : Stage} (h : stage.writes ⊆ omitted) {d d' : Document}
    (happly : stage.apply d = some d') : Record.without omitted d' = Record.without omitted d := by
  cases stage with
  | present key => rw [apply_present_eq_some happly]
  | assign fields =>
    obtain rfl := Option.some.inj happly
    exact without_assignFrom d h d

theorem without_applyAll {stages : List Stage} (h : ∀ stage ∈ stages, stage.writes ⊆ omitted)
    {d d' : Document} (happly : applyAll stages d = some d') :
    Record.without omitted d' = Record.without omitted d := by
  induction stages generalizing d with
  | nil =>
    obtain rfl := Option.some.inj happly
    rfl
  | cons stage rest ih =>
    rw [applyAll_cons] at happly
    obtain ⟨next, hnext, hrest⟩ := Option.bind_eq_some_iff.1 happly
    have hstep := without_apply (h stage List.mem_cons_self) hnext
    exact (ih (fun s hs => h s (List.mem_cons_of_mem stage hs)) hrest).trans hstep

end Writes

section Supplied

theorem names_prefix_assignFrom {source : Document} {fields : List (String × Operand)}
    (h : ∀ field ∈ fields, (field.2.eval source).isSome) (d : Document) :
    Record.names d <+: Record.names (assignFrom source fields d) := by
  induction fields generalizing d with
  | nil => exact List.prefix_rfl
  | cons field fields ih =>
    obtain ⟨v, hv⟩ := Option.isSome_iff_exists.1 (h field List.mem_cons_self)
    have hset : assignFrom source (field :: fields) d =
        assignFrom source fields (Record.put d field.1 v) := by
      rw [assignFrom, List.foldl_cons, hv]
      rfl
    rw [hset]
    exact (Record.names_prefix_put d field.1 v).trans
      (ih (fun f hf => h f (List.mem_cons_of_mem field hf)) _)

/-- A supplied stage removes no field and moves none. -/
theorem names_prefix_apply {stage : Stage} {d d' : Document} (h : stage.Supplied d)
    (happly : stage.apply d = some d') : Record.names d <+: Record.names d' := by
  cases stage with
  | present key =>
    obtain rfl := apply_present_eq_some happly
    exact List.prefix_rfl
  | assign fields =>
    obtain rfl := Option.some.inj happly
    exact names_prefix_assignFrom h d

theorem names_prefix_applyAll {stages : List Stage} {d d' : Document} (h : SuppliedAlong stages d)
    (happly : applyAll stages d = some d') : Record.names d <+: Record.names d' := by
  induction stages generalizing d with
  | nil =>
    obtain rfl := Option.some.inj happly
    exact List.prefix_rfl
  | cons stage rest ih =>
    rw [applyAll_cons] at happly
    obtain ⟨next, hnext, hrest⟩ := Option.bind_eq_some_iff.1 happly
    exact (names_prefix_apply h.1 hnext).trans (ih (h.2 next hnext) hrest)

theorem suppliedAlong_append {first second : List Stage} {d : Document} :
    SuppliedAlong (first ++ second) d ↔
      SuppliedAlong first d ∧ ∀ d', applyAll first d = some d' → SuppliedAlong second d' := by
  induction first generalizing d with
  | nil => simp [SuppliedAlong]
  | cons stage rest ih =>
    simp only [List.cons_append, SuppliedAlong, ih, applyAll_cons, Option.bind_eq_some_iff]
    constructor
    · rintro ⟨hstage, hrest⟩
      refine ⟨⟨hstage, fun next hnext => (hrest next hnext).1⟩, ?_⟩
      rintro d' ⟨next, hnext, happly⟩
      exact (hrest next hnext).2 d' happly
    · rintro ⟨⟨hstage, hrest⟩, hsecond⟩
      exact ⟨hstage, fun next hnext => ⟨hrest next hnext, fun d' happly =>
        hsecond d' ⟨next, hnext, happly⟩⟩⟩

/-- Documents that are supplied all along are supplied at each stage. -/
theorem supplied_of_mem_run {before after : List Stage} {stage : Stage} {documents : List Document}
    (h : ∀ d ∈ documents, SuppliedAlong (before ++ stage :: after) d) {d' : Document}
    (hd' : d' ∈ run before documents) : stage.Supplied d' := by
  rw [run_eq_filterMap] at hd'
  obtain ⟨d, hd, happly⟩ := List.mem_filterMap.1 hd'
  exact ((suppliedAlong_append.1 (h d hd)).2 d' happly).1

end Supplied

end Stage

namespace Pipeline

open FieldPath

variable {key : String}

/-- The presence test guards the copy, and the copy guards the move, for any document. -/
theorem suppliedAlong_narrowingStages (hkey : Dots.Dotless key) {field : FieldPath}
    (hfield : field.Dotless) (d : Document) :
    Stage.SuppliedAlong (narrowingStages .plain key field) d := by
  have hpresent := Stage.apply_present_dotted (hfield.under hkey) d
  refine ⟨trivial, fun d' hd' => ?_⟩
  change Stage.apply (.present (field.under key).dotted) d = some d' at hd'
  obtain rfl := Stage.apply_present_eq_some hd'
  rw [hpresent] at hd'
  cases hfound : (Value.document d').find? (field.under key) with
  | none => simp [hfound] at hd'
  | some v =>
    have hcopy : Stage.Supplied (.assign [(temporaryKey key, .path (field.under key))]) d' := by
      intro entry hentry
      rw [List.mem_singleton.1 hentry, Operand.eval, hfound]
      rfl
    refine ⟨hcopy, fun d'' hd'' => ⟨?_, fun _ _ => trivial⟩⟩
    have hput : d'' = Record.put d' (temporaryKey key) v := by
      change Stage.apply (.assign [(temporaryKey key, .path (field.under key))]) d' = _ at hd''
      rw [Stage.apply_assign_singleton, Operand.eval, hfound] at hd''
      exact (Option.some.inj hd'').symm
    intro entry hentry
    rw [List.mem_singleton.1 hentry, Operand.eval, hput, Record.get?_put_self]
    rfl

theorem suppliedAlong_flatMap_narrowingStages (hkey : Dots.Dotless key) {fields : List FieldPath}
    (hfields : ∀ field ∈ fields, field.Dotless) (d : Document) :
    Stage.SuppliedAlong (fields.flatMap (narrowingStages .plain key)) d := by
  induction fields generalizing d with
  | nil => trivial
  | cons field fields ih =>
    rw [List.flatMap_cons, Stage.suppliedAlong_append]
    refine ⟨suppliedAlong_narrowingStages hkey (hfields field List.mem_cons_self) d, ?_⟩
    intro d' _
    exact ih (fun f hf => hfields f (List.mem_cons_of_mem field hf)) d'

theorem suppliedAlong_ofFields (hkey : Dots.Dotless key) {fields : List FieldPath}
    (hfields : ∀ field ∈ fields, field.Dotless) (d : Document) :
    Stage.SuppliedAlong (ofFields .plain key fields).stages d := by
  rw [ofFields_stages]
  have hopening : (openingStage .plain key).Supplied d := by
    intro entry hentry
    rw [List.mem_singleton.1 hentry]
    rfl
  exact ⟨hopening, fun d' _ => suppliedAlong_flatMap_narrowingStages hkey hfields d'⟩

theorem writes_ofFields (key : String) (fields : List FieldPath) :
    ∀ stage ∈ (ofFields .plain key fields).stages, stage.writes ⊆ ownNames key := by
  intro stage hstage
  rw [ofFields_stages] at hstage
  rcases List.mem_cons.1 hstage with rfl | hstage
  · simp [openingStage, StageForm.plain, Stage.writes, ownNames]
  · obtain ⟨field, -, hstage⟩ := List.mem_flatMap.1 hstage
    simp only [narrowingStages, StageForm.plain, List.mem_cons, List.not_mem_nil, or_false] at hstage
    rcases hstage with rfl | rfl | rfl <;> simp [Stage.writes, ownNames]

/-- No assignment of a pipeline ever looks for something that is not there, and every answer is the
document it was made from but for the two names of the key: no field is lost or moved, and under
other names no value is changed. -/
theorem run_ofFields_untouched (hkey : Dots.Dotless key) {fields : List FieldPath}
    (hfields : ∀ field ∈ fields, field.Dotless) (documents : List Document) :
    (∀ before assigned after,
      (ofFields .plain key fields).stages = before ++ .assign assigned :: after →
        ∀ d ∈ Stage.run before documents, ∀ entry ∈ assigned, (entry.2.eval d).isSome) ∧
      List.Forall₂
        (fun d answer => Stage.applyAll (ofFields .plain key fields).stages d = some answer ∧
          Record.names d <+: Record.names answer ∧
          Record.without [key, temporaryKey key] answer =
            Record.without [key, temporaryKey key] d)
        (documents.filter fun d => ((Value.document d).follow (route fields)).isSome)
        (Stage.run (ofFields .plain key fields).stages documents) := by
  have hsupplied := suppliedAlong_ofFields hkey hfields
  constructor
  · intro before assigned after hstages d hd
    have hall : ∀ d ∈ documents, Stage.SuppliedAlong (before ++ .assign assigned :: after) d :=
      fun d _ => hstages ▸ hsupplied d
    exact Stage.supplied_of_mem_run hall hd
  · refine Stage.forall₂_run ?_ ?_ documents
    · intro d hd
      obtain ⟨v, hv⟩ := Option.isSome_iff_exists.1 hd
      have happly : Stage.applyAll (ofFields .plain key fields).stages d =
          some (result key fields d v) := by
        rw [applyAll_ofFields hkey hfields, hv, Option.map_some]
      exact ⟨_, happly, happly, Stage.names_prefix_applyAll (hsupplied d) happly,
        Stage.without_applyAll (writes_ofFields key fields) happly⟩
    · intro d hd
      have hv : (Value.document d).follow (route fields) = none := by simpa using hd
      rw [applyAll_ofFields hkey hfields, hv, Option.map_none]

/-- One document has the second field only at its own top, the other holds both names already. -/
theorem run_ofFields_untouched_taken_names :
    Dots.Dotless "k0" ∧ (∀ field ∈ [FieldPath.single "a", ⟨"b", ["c"]⟩], field.Dotless) ∧
      List.Forall₂
        (fun d answer =>
          Stage.applyAll (ofFields .plain "k0" [FieldPath.single "a", ⟨"b", ["c"]⟩]).stages d =
            some answer ∧
          Record.names d <+: Record.names answer ∧
          Record.without ["k0", temporaryKey "k0"] answer =
            Record.without ["k0", temporaryKey "k0"] d)
        [[("k0_project", .null),
          ("a", .document [("b", .document [("c", .text "deep")])]), ("k0", .minKey)]]
        (Stage.run (ofFields .plain "k0" [FieldPath.single "a", ⟨"b", ["c"]⟩]).stages
          [[("a", .null), ("b", .document [("c", .null)])],
            [("k0_project", .null),
              ("a", .document [("b", .document [("c", .text "deep")])]), ("k0", .minKey)]]) := by
  have hkey : Dots.Dotless "k0" := by decide
  have hfields : ∀ field ∈ [FieldPath.single "a", ⟨"b", ["c"]⟩], field.Dotless := by decide
  exact ⟨hkey, hfields, (run_ofFields_untouched hkey hfields
    [[("a", .null), ("b", .document [("c", .null)])],
      [("k0_project", .null),
        ("a", .document [("b", .document [("c", .text "deep")])]), ("k0", .minKey)]]).2⟩

end Pipeline

end FieldPipeline
