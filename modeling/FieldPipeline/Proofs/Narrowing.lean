import FieldPipeline.Pipeline.Draft
import FieldPipeline.Proofs.Dots
import FieldPipeline.Proofs.Record
import FieldPipeline.Stage
import Mathlib.Data.List.Forall2

/-!
# What a pipeline does to documents

The stages of a pipeline keep a document exactly if all fields, one inside the other, lead somewhere
in it. The value found there ends up under the key, and under the temporary name if there was a
field at all; nothing else changes. Keys and segments must be dotless, since a presence test splits
its key at every dot.
-/

namespace FieldPipeline

namespace FieldPath

def Dotless (p : FieldPath) : Prop :=
  ∀ s ∈ p.segments, Dots.Dotless s

instance (p : FieldPath) : Decidable p.Dotless :=
  inferInstanceAs (Decidable (∀ s ∈ p.segments, Dots.Dotless s))

def route (fields : List FieldPath) : List String :=
  fields.flatMap segments

@[simp] theorem route_nil : route [] = [] := rfl

@[simp] theorem route_cons (field : FieldPath) (fields : List FieldPath) :
    route (field :: fields) = field.segments ++ route fields := rfl

theorem split_dotted {p : FieldPath} (h : p.Dotless) : Dots.split p.dotted = p.segments :=
  Dots.split_join_of_dotless p.segments_ne_nil h

theorem Dotless.under {p : FieldPath} (hp : p.Dotless) {key : String} (hkey : Dots.Dotless key) :
    (p.under key).Dotless := by
  intro s hs
  rcases List.mem_cons.1 hs with rfl | hs
  · exact hkey
  · exact hp s hs

end FieldPath

theorem temporaryKey_ne (key : String) : temporaryKey key ≠ key := by
  intro h
  have hlength := congrArg String.length h
  simp [temporaryKey] at hlength

namespace Stage

theorem applyAll_append (first second : List Stage) (d : Document) :
    applyAll (first ++ second) d = (applyAll first d).bind (applyAll second) := by
  induction first generalizing d with
  | nil => simp
  | cons stage rest ih =>
    rw [List.cons_append, applyAll_cons, applyAll_cons, Option.bind_assoc]
    exact congrArg _ (funext ih)

/-- A presence test on a dotted path asks whether the path leads somewhere. -/
theorem apply_present_dotted {p : FieldPath} (h : p.Dotless) (d : Document) :
    apply (.present p.dotted) d = if ((Value.document d).find? p).isSome then some d else none := by
  rw [apply, FieldPath.split_dotted h]
  rfl

theorem apply_assign_singleton (name : String) (operand : Operand) (d : Document) :
    apply (.assign [(name, operand)]) d = some (setField d name (operand.eval d)) := rfl

/-- The documents that pass are answered one by one, in order. -/
theorem forall₂_run {stages : List Stage} {passes : Document → Bool}
    {answers : Document → Document → Prop}
    (hkeep : ∀ d, passes d = true → ∃ result, applyAll stages d = some result ∧ answers d result)
    (hdrop : ∀ d, passes d = false → applyAll stages d = none) (documents : List Document) :
    List.Forall₂ answers (documents.filter passes) (run stages documents) := by
  rw [run_eq_filterMap]
  induction documents with
  | nil => exact .nil
  | cons d documents ih =>
    cases h : passes d with
    | true =>
      obtain ⟨result, hresult, hanswer⟩ := hkeep d h
      rw [List.filter_cons_of_pos h, List.filterMap_cons_some hresult]
      exact .cons hanswer ih
    | false =>
      rw [List.filter_cons_of_neg (by simp [h]), List.filterMap_cons_none (hdrop d h)]
      exact ih

end Stage

namespace Pipeline

open FieldPath

/-- The document with a value under the key, on its way through the temporary name. -/
def carry (key : String) (d : Document) (v : Value) : Document :=
  Record.put (Record.put d (temporaryKey key) v) key v

@[simp] theorem get?_carry (key : String) (d : Document) (v : Value) :
    Record.get? (carry key d v) key = some v :=
  Record.get?_put_self _ _ _

/-- Only the last value that is carried can be seen. -/
theorem carry_carry (key : String) (d : Document) (v w : Value) :
    carry key (carry key d v) w = carry key d w := by
  have hmem := Record.mem_names_put_self d (temporaryKey key) v
  rw [carry, carry, Record.put_comm_of_mem hmem (temporaryKey_ne key).symm,
    Record.put_put_self, Record.put_put_self, carry]

theorem apply_openingStage (key : String) (d : Document) :
    (openingStage .plain key).apply d = some (Record.put d key (.document d)) := rfl

/-- Narrowing carries what the field finds, and drops the document if that is nothing. -/
theorem applyAll_narrowingStages {key : String} {field : FieldPath} (hkey : Dots.Dotless key)
    (hfield : field.Dotless) (d : Document) :
    Stage.applyAll (narrowingStages .plain key field) d =
      ((Value.document d).find? (field.under key)).map (carry key d) := by
  have hpresent := Stage.apply_present_dotted (hfield.under hkey) d
  cases hfound : (Value.document d).find? (field.under key) with
  | none => simp [narrowingStages, StageForm.plain, hpresent, hfound]
  | some v =>
    have hcopy : Stage.apply (.assign [(temporaryKey key, .path (field.under key))]) d =
        some (Record.put d (temporaryKey key) v) := by
      rw [Stage.apply_assign_singleton, Operand.eval, hfound, Stage.setField]
    have hmove : Stage.apply (.assign [(key, .field (temporaryKey key))])
        (Record.put d (temporaryKey key) v) = some (carry key d v) := by
      rw [Stage.apply_assign_singleton, Operand.eval, Record.get?_put_self, Stage.setField, carry]
    simp [narrowingStages, StageForm.plain, hpresent, hfound, hcopy, hmove]

/-- The value under the key is narrowed field by field: it is followed along the whole route. -/
theorem applyAll_flatMap_narrowingStages {key : String} (hkey : Dots.Dotless key)
    {fields : List FieldPath} (hfields : ∀ field ∈ fields, field.Dotless) {d : Document} {v : Value}
    (hv : Record.get? d key = some v) :
    Stage.applyAll (fields.flatMap (narrowingStages .plain key)) d =
      (v.follow (route fields)).map
        (fun w => if fields.isEmpty then d else carry key d w) := by
  induction fields generalizing d v with
  | nil => simp
  | cons field fields ih =>
    have hfind : (Value.document d).find? (field.under key) = v.follow field.segments := by
      simp [Value.find?, hv]
    rw [List.flatMap_cons, Stage.applyAll_append,
      applyAll_narrowingStages hkey (hfields field List.mem_cons_self), hfind, route_cons,
      Value.follow_append]
    cases hw : v.follow field.segments with
    | none => rfl
    | some w =>
      have hrest := ih (fun f hf => hfields f (List.mem_cons_of_mem field hf)) (get?_carry key d w)
      rw [Option.map_some, Option.bind_some, hrest, Option.bind_some]
      cases fields with
      | nil => simp
      | cons next rest => simp [carry_carry]

/-- The result document that holds a value: it lies under the key, and under the temporary name if
there was a field. -/
def result (key : String) (fields : List FieldPath) (d : Document) (v : Value) : Document :=
  if fields.isEmpty then Record.put d key v
  else Record.put (Record.put d key v) (temporaryKey key) v

@[simp] theorem get?_result (key : String) (fields : List FieldPath) (d : Document) (v : Value) :
    Record.get? (result key fields d v) key = some v := by
  rw [result]
  split
  · exact Record.get?_put_self _ _ _
  · rw [Record.get?_put_of_ne _ _ (temporaryKey_ne key), Record.get?_put_self]

theorem carry_put (key : String) (d : Document) (v w : Value) :
    carry key (Record.put d key v) w = Record.put (Record.put d key w) (temporaryKey key) w := by
  have hmem := Record.mem_names_put_self d key v
  rw [carry, Record.put_comm_of_mem hmem (temporaryKey_ne key), Record.put_put_self]

/-- What the stages of a pipeline make of one document. -/
theorem applyAll_ofFields {key : String} (hkey : Dots.Dotless key) {fields : List FieldPath}
    (hfields : ∀ field ∈ fields, field.Dotless) (d : Document) :
    Stage.applyAll (ofFields .plain key fields).stages d =
      ((Value.document d).follow (route fields)).map (result key fields d) := by
  rw [ofFields_stages, Stage.applyAll_cons, apply_openingStage, Option.bind_some,
    applyAll_flatMap_narrowingStages hkey hfields (Record.get?_put_self d key (.document d))]
  cases fields with
  | nil => simp [result]
  | cons field fields =>
    congr 1
    funext w
    simp [result, carry_put]

theorem value_ofFields (key : String) (fields : List FieldPath) (d : Document) :
    (ofFields .plain key fields).value (.document d) = (Record.get? d key).getD .undefined := by
  rw [value, ofFields_focus]
  rfl

/-- A pipeline answers exactly the documents in which its fields, one inside the other, lead
somewhere, in their order, and each answer has under the key what the fields lead to. Without a
field every document is answered, with itself. -/
theorem run_ofFields_answers {key : String} (hkey : Dots.Dotless key) {fields : List FieldPath}
    (hfields : ∀ field ∈ fields, field.Dotless) (documents : List Document) :
    List.Forall₂
      (fun d answer => (Value.document d).follow (route fields) =
        some ((ofFields .plain key fields).value (.document answer)))
      (documents.filter fun d => ((Value.document d).follow (route fields)).isSome)
      (Stage.run (ofFields .plain key fields).stages documents) := by
  refine Stage.forall₂_run ?_ ?_ documents
  · intro d hd
    obtain ⟨v, hv⟩ := Option.isSome_iff_exists.1 hd
    refine ⟨result key fields d v, ?_, ?_⟩
    · rw [applyAll_ofFields hkey hfields, hv, Option.map_some]
    · rw [hv, value_ofFields, get?_result, Option.getD_some]
  · intro d hd
    have hv : (Value.document d).follow (route fields) = none := by simpa using hd
    rw [applyAll_ofFields hkey hfields, hv, Option.map_none]

/-- Two fields on documents that already hold the key and the temporary name. -/
theorem run_ofFields_answers_of_taken_names :
    Dots.Dotless "k0" ∧ (∀ field ∈ [FieldPath.single "a", ⟨"b", ["c"]⟩], field.Dotless) ∧
      List.Forall₂
        (fun d answer =>
          (Value.document d).follow (route [FieldPath.single "a", ⟨"b", ["c"]⟩]) =
            some ((ofFields .plain "k0" [FieldPath.single "a", ⟨"b", ["c"]⟩]).value
              (.document answer)))
        [[("k0_project", .null),
          ("a", .document [("b", .document [("c", .text "deep")])]), ("k0", .minKey)]]
        (Stage.run (ofFields .plain "k0" [FieldPath.single "a", ⟨"b", ["c"]⟩]).stages
          [[("k0", .document [("a", .null)])],
            [("k0_project", .null),
              ("a", .document [("b", .document [("c", .text "deep")])]), ("k0", .minKey)]]) := by
  have hkey : Dots.Dotless "k0" := by decide
  have hfields : ∀ field ∈ [FieldPath.single "a", ⟨"b", ["c"]⟩], field.Dotless := by decide
  exact ⟨hkey, hfields, run_ofFields_answers hkey hfields
    [[("k0", .document [("a", .null)])],
      [("k0_project", .null),
        ("a", .document [("b", .document [("c", .text "deep")])]), ("k0", .minKey)]]⟩

end Pipeline

end FieldPipeline
