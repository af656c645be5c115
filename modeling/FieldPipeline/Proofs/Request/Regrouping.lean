import FieldPipeline.Proofs.Path.Check
import FieldPipeline.Proofs.Request.Settled

/-!
# Regrouped fields

A request whose fields can be read compiles to the pipeline of their paths. How the segments are
grouped into fields does not show in the answers: the fields are joined with dots into one text, and
the answers depend on the key and on that text only.
-/

namespace FieldPipeline

namespace FieldPath

theorem dotless_of_ofText {text : String} {p : FieldPath} (h : ofText text = .ok p) :
    p.Dotless := by
  obtain ⟨hsegments, -⟩ := ofText_eq_ok_iff.1 h
  intro s hs
  rw [hsegments] at hs
  exact Dots.dotless_of_mem_split hs

theorem dotless_of_forall₂_ofText {texts : List String} {fields : List FieldPath}
    (h : List.Forall₂ (fun text field => ofText text = .ok field) texts fields) :
    ∀ field ∈ fields, field.Dotless := by
  induction h with
  | nil => exact List.forall_mem_nil _
  | cons htext _ ih => exact List.forall_mem_cons.2 ⟨dotless_of_ofText htext, ih⟩

theorem map_dotted_of_forall₂_ofText {texts : List String} {fields : List FieldPath}
    (h : List.Forall₂ (fun text field => ofText text = .ok field) texts fields) :
    fields.map dotted = texts := by
  induction h with
  | nil => rfl
  | cons htext _ ih => rw [List.map_cons, dotted_of_ofText htext, ih]

/-- The route of some texts goes down the segments of the joined text. -/
theorem route_eq_split_join {texts : List String} {fields : List FieldPath}
    (h : List.Forall₂ (fun text field => ofText text = .ok field) texts fields)
    (hne : texts ≠ []) : route fields = Dots.split (Dots.join texts) := by
  rw [Dots.split_join hne]
  clear hne
  induction h with
  | nil => rfl
  | cons htext _ ih => rw [route_cons, List.flatMap_cons, ih, (ofText_eq_ok_iff.1 htext).1]

end FieldPath

namespace Request

open FieldPath

/-- The document with what the text leads to under the key and under the temporary name. -/
def answer? (key text : String) (d : Document) : Option Document :=
  ((Value.document d).follow (Dots.split text)).map fun v =>
    Record.put (Record.put d key v) (temporaryKey key) v

/-- The answers of an accepted request, by its key and the joined text of its fields. -/
theorem run_of_toPipeline {r : Request} {supply : KeySupply} {p : Pipeline Stage}
    (h : (r.toPipeline supply).1 = .ok p)
    (hkey : Dots.Dotless (r.reservation supply).1.key) (documents : List Document) :
    Stage.run p.stages documents =
      documents.filterMap (answer? (r.reservation supply).1.key (Dots.join r.fields)) := by
  obtain ⟨fields, hne, hfields, rfl⟩ := ofFields_of_toPipeline h
  have hdots : ∀ field ∈ fields, field.Dotless := dotless_of_forall₂_ofText hfields
  have hsome : fields.isEmpty = false := by
    rw [List.isEmpty_eq_false_iff]
    rintro rfl
    exact hne (List.forall₂_nil_right_iff.1 hfields)
  have hresult (d : Document) (v : Value) :
      Pipeline.result (r.reservation supply).1.key fields d v =
        Record.put (Record.put d (r.reservation supply).1.key v)
          (temporaryKey (r.reservation supply).1.key) v := by
    simp [Pipeline.result, hsome]
  rw [Stage.run_eq_filterMap]
  refine List.filterMap_congr fun d _ => ?_
  rw [Pipeline.applyAll_ofFields hkey hdots, route_eq_split_join hfields hne, answer?]
  exact congrArg (Option.map · _) (funext (hresult d))

/-- Two accepted requests with the same key and the same joined text give the same answers: the same
documents pass, in the same order, and every answer is the same document, its temporary field and
the order of its fields included. -/
theorem run_regrouped {key : String} (hkey : Dots.Dotless key) {texts texts' : List String}
    (hjoin : Dots.join texts = Dots.join texts') {supply supply' : KeySupply}
    {p p' : Pipeline Stage} (hp : (toPipeline ⟨some key, texts⟩ supply).1 = .ok p)
    (hp' : (toPipeline ⟨some key, texts'⟩ supply').1 = .ok p') (documents : List Document) :
    Stage.run p.stages documents = Stage.run p'.stages documents ∧
      Stage.run p.stages documents = documents.filterMap (answer? key (Dots.join texts)) := by
  have hrun : Stage.run p.stages documents =
      documents.filterMap (answer? key (Dots.join texts)) := run_of_toPipeline hp hkey documents
  have hrun' : Stage.run p'.stages documents =
      documents.filterMap (answer? key (Dots.join texts')) := run_of_toPipeline hp' hkey documents
  rw [hrun, hrun', hjoin]
  exact ⟨rfl, rfl⟩

/-- Three segments as two fields in two ways, on a document that is dropped at different stages and
one that already has both names. -/
theorem run_regrouped_three_segments :
    Dots.Dotless "k0" ∧ Dots.join ["a.b", "c"] = Dots.join ["a", "b.c"] ∧
      (toPipeline ⟨some "k0", ["a.b", "c"]⟩ ⟨0⟩).1 =
        .ok (Pipeline.ofFields .plain "k0" [⟨"a", ["b"]⟩, ⟨"c", []⟩]) ∧
      (toPipeline ⟨some "k0", ["a", "b.c"]⟩ ⟨7⟩).1 =
        .ok (Pipeline.ofFields .plain "k0" [⟨"a", []⟩, ⟨"b", ["c"]⟩]) ∧
      Stage.run (Pipeline.ofFields .plain "k0" [⟨"a", ["b"]⟩, ⟨"c", []⟩]).stages
          [[("a", .document [("x", .null)])],
            [("k0_project", .null), ("a", .document [("b", .document [("c", .text "deep")])]),
              ("k0", .minKey)]] =
        Stage.run (Pipeline.ofFields .plain "k0" [⟨"a", []⟩, ⟨"b", ["c"]⟩]).stages
          [[("a", .document [("x", .null)])],
            [("k0_project", .null), ("a", .document [("b", .document [("c", .text "deep")])]),
              ("k0", .minKey)]] := by
  have hkey : Dots.Dotless "k0" := by decide
  have hjoin : Dots.join ["a.b", "c"] = Dots.join ["a", "b.c"] := by decide
  have hp : (toPipeline ⟨some "k0", ["a.b", "c"]⟩ ⟨0⟩).1 =
      .ok (Pipeline.ofFields .plain "k0" [⟨"a", ["b"]⟩, ⟨"c", []⟩]) := by rfl
  have hp' : (toPipeline ⟨some "k0", ["a", "b.c"]⟩ ⟨7⟩).1 =
      .ok (Pipeline.ofFields .plain "k0" [⟨"a", []⟩, ⟨"b", ["c"]⟩]) := by rfl
  exact ⟨hkey, hjoin, hp, hp', (run_regrouped hkey hjoin hp hp'
    [[("a", .document [("x", .null)])],
      [("k0_project", .null), ("a", .document [("b", .document [("c", .text "deep")])]),
        ("k0", .minKey)]]).1⟩

end Request

end FieldPipeline
