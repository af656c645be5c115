import FieldPipeline.Proofs.Json.Layout
import FieldPipeline.Proofs.Json.Value
import FieldPipeline.Proofs.Request.Regrouping

/-!
# What a pipeline prints

Both texts of a pipeline write the array of its documents and read back as that array; they differ
in layout only. A pipeline shows its key and its fields: different keys or fields make different
pipelines, and the compact text shows the key and the dotted texts of the fields. A request can
therefore be told from the text of its pipeline, however dots, dollar signs and temporary names
occur in it.
-/

namespace FieldPipeline

namespace Pipeline

open Json

theorem written_text (p : Pipeline Stage) (compact : Bool) :
    Written (.array p.documents) (p.text compact).toList := by
  cases compact with
  | true => exact written_compact (.array p.documents)
  | false => exact written_indented (.array p.documents)

/-- Each text of a pipeline writes the array of its documents and no other value, and that array is
what a reader finds in it. The indented text without its layout is the compact text, which has no
control character. -/
theorem text_denotes_documents (p : Pipeline Stage) :
    (∀ compact, (∀ v, Written v (p.text compact).toList ↔ v = .array p.documents) ∧
        ofText? (p.text compact) = some (.array p.documents)) ∧
      withoutLayout .outside (p.text false).toList = (p.text true).toList ∧
      ∀ c ∈ (p.text true).toList, 0x20 ≤ c.toNat := by
  refine ⟨fun compact => ⟨fun v => ⟨fun h => ?_, ?_⟩, ?_⟩, ?_, ?_⟩
  · exact h.unique (written_text p compact)
  · rintro rfl
    exact written_text p compact
  · exact ofText?_of_written (written_text p compact)
  · rw [text, text, if_neg (by decide), if_pos rfl, ← withoutLayout_indented, String.toList_ofList]
  · rw [text, if_pos rfl, compact, String.toList_ofList]
    exact printable_compactChars (.array p.documents)

/-- An assignment of nothing, and one with a repeated name that needs escapes. -/
theorem text_denotes_documents_repeated_name :
    ofText? (text ⟨[.assign [], .assign [("\x7d\"\n", .whole), ("", .field "\x01"),
          ("\x7d\"\n", .path ⟨"$ \x7b", [""]⟩)]], .whole⟩ false) =
        some (.array [.object [("$addFields", .object [])],
          .object [("$addFields",
            .object [("\x7d\"\n", .string "$$ \x7b."), ("", .string "$\x01")])]]) ∧
      withoutLayout .outside (text ⟨[.assign [("\x7d\"\n", .whole)]], .whole⟩ false).toList =
        (text ⟨[.assign [("\x7d\"\n", .whole)]], .whole⟩ true).toList ∧
      ' ' ∈ (text ⟨[.assign [(" ", .whole)]], .whole⟩ true).toList ∧ 0x20 ≤ ' '.toNat := by
  have hmem : ' ' ∈ (text ⟨[.assign [(" ", .whole)]], .whole⟩ true).toList := by decide +kernel
  exact ⟨((text_denotes_documents _).1 false).2, (text_denotes_documents _).2.1, hmem,
    (text_denotes_documents _).2.2 ' ' hmem⟩

end Pipeline

/-- Blocks of one length can be told apart in their concatenation. -/
theorem flatMap_inj {α β : Type} {f : α → List β} (hf : Function.Injective f) {k : Nat}
    (hlength : ∀ a, (f a).length = k + 1) {as bs : List α} :
    as.flatMap f = bs.flatMap f ↔ as = bs := by
  refine ⟨fun h => ?_, congrArg (List.flatMap f)⟩
  induction as generalizing bs with
  | nil =>
    cases bs with
    | nil => rfl
    | cons b bs =>
      have hnil : f b = [] := (List.append_eq_nil_iff.1 h.symm).1
      have hb := hlength b
      rw [hnil, List.length_nil] at hb
      omega
  | cons a as ih =>
    cases bs with
    | nil =>
      have hnil : f a = [] := (List.append_eq_nil_iff.1 h).1
      have ha := hlength a
      rw [hnil, List.length_nil] at ha
      omega
    | cons b bs =>
      rw [List.flatMap_cons, List.flatMap_cons] at h
      obtain ⟨hfirst, hrest⟩ := List.append_inj h ((hlength a).trans (hlength b).symm)
      rw [hf hfirst, ih hrest]

theorem FieldPath.dotted_under (p : FieldPath) (key : String) :
    (p.under key).dotted = key ++ "." ++ p.dotted := by
  apply String.toList_inj.1
  simp [dotted, under, segments]

namespace Pipeline

open FieldPath

/-- The documents that narrow the value under a key to what a dotted text leads to. -/
def narrowingDocuments (key text : String) : List Json :=
  stageDocuments (narrowingStages .plain key (.single text))

@[simp] theorem length_narrowingDocuments (key text : String) :
    (narrowingDocuments key text).length = 3 := rfl

/-- The documents of a field show its dotted text only. -/
theorem stageDocuments_narrowingStages (key : String) (field : FieldPath) :
    stageDocuments (narrowingStages .plain key field) = narrowingDocuments key field.dotted := by
  have hdotted : (field.under key).dotted = ((single field.dotted).under key).dotted := by
    rw [dotted_under, dotted_under]
    rfl
  simp only [narrowingDocuments, stageDocuments, narrowingStages, StageForm.plain, List.map_cons,
    List.map_nil, Stage.document, Stage.expressions, Operand.expression, hdotted]

theorem narrowingDocuments_injective (key : String) :
    Function.Injective (narrowingDocuments key) := by
  intro text text' h
  have hdotted : ((single text).under key).dotted = ((single text').under key).dotted := by
    simpa [narrowingDocuments, stageDocuments, narrowingStages, StageForm.plain, Stage.document]
      using (List.cons.inj h).1
  rw [dotted_under, dotted_under, String.append_right_inj] at hdotted
  simpa [dotted, Dots.join] using hdotted

theorem narrowingStages_injective (key : String) :
    Function.Injective (narrowingStages .plain key) := by
  intro field field' h
  have hunder : field.under key = field'.under key := by
    simpa [narrowingStages, StageForm.plain] using (List.cons.inj (List.cons.inj h).2).1
  exact segments_inj.1 (congrArg FieldPath.tail hunder)

theorem documents_ofFields (key : String) (fields : List FieldPath) :
    (ofFields .plain key fields).documents =
      (openingStage .plain key).document ::
        (fields.map dotted).flatMap (narrowingDocuments key) := by
  rw [documents, ofFields_stages, stageDocuments, List.map_cons, List.map_flatMap, List.flatMap_map]
  congr 1
  exact congrArg (List.flatMap · fields) (funext (stageDocuments_narrowingStages key))

theorem document_openingStage_inj {key key' : String} :
    (openingStage .plain key).document = (openingStage .plain key').document ↔ key = key' := by
  simp [openingStage, StageForm.plain, Stage.document, Stage.expressions, Record.ofEntries,
    Record.put]

/-- Pipelines are as different as their keys and fields. -/
theorem ofFields_inj {key key' : String} {fields fields' : List FieldPath} :
    ofFields .plain key fields = ofFields .plain key' fields' ↔ key = key' ∧ fields = fields' := by
  constructor
  · intro h
    have hkey : key = key' := by
      have hfocus := congrArg Pipeline.focus h
      rw [ofFields_focus, ofFields_focus] at hfocus
      exact Focus.field.inj hfocus
    subst hkey
    have hstages := congrArg Pipeline.stages h
    rw [ofFields_stages, ofFields_stages] at hstages
    exact ⟨rfl, (flatMap_inj (narrowingStages_injective key) (length_narrowingStages .plain key)).1
      (List.cons.inj hstages).2⟩
  · rintro ⟨rfl, rfl⟩
    rfl

theorem documents_ofFields_inj {key key' : String} {fields fields' : List FieldPath} :
    (ofFields .plain key fields).documents = (ofFields .plain key' fields').documents ↔
      key = key' ∧ fields.map dotted = fields'.map dotted := by
  rw [documents_ofFields, documents_ofFields]
  constructor
  · intro h
    obtain ⟨hopening, hrest⟩ := List.cons.inj h
    obtain rfl := document_openingStage_inj.1 hopening
    exact ⟨rfl, (flatMap_inj (narrowingDocuments_injective key)
      (length_narrowingDocuments key)).1 hrest⟩
  · rintro ⟨rfl, hdotted⟩
    rw [hdotted]

theorem text_compact_inj {p p' : Pipeline Stage} :
    p.text true = p'.text true ↔ p.documents = p'.documents := by
  rw [text, text, if_pos rfl, if_pos rfl, Json.compact_inj, Json.array.injEq]

/-- The pipeline of an accepted request has the request's key and the texts of its fields. -/
theorem exists_ofFields {key : String} {texts : List String} {supply : KeySupply}
    {p : Pipeline Stage} (h : (Request.toPipeline ⟨some key, texts⟩ supply).1 = .ok p) :
    ∃ fields : List FieldPath, p = ofFields .plain key fields ∧ fields.map dotted = texts := by
  obtain ⟨fields, -, hfields, rfl⟩ := Request.ofFields_of_toPipeline h
  exact ⟨fields, rfl, map_dotted_of_forall₂_ofText hfields⟩

/-- Pipelines with different keys or fields are different. Their compact texts are different if the
keys or the dotted texts of the fields are. So accepted requests with a key are the same request if
they print the same compact text. -/
theorem text_tells_apart :
    (∀ (key key' : String) (fields fields' : List FieldPath),
      (ofFields .plain key fields = ofFields .plain key' fields' ↔
        key = key' ∧ fields.map segments = fields'.map segments) ∧
      ((ofFields .plain key fields).text true = (ofFields .plain key' fields').text true ↔
        key = key' ∧ fields.map dotted = fields'.map dotted)) ∧
      ∀ (key key' : String) (texts texts' : List String) (supply supply' : KeySupply)
        (p p' : Pipeline Stage), (Request.toPipeline ⟨some key, texts⟩ supply).1 = .ok p →
        (Request.toPipeline ⟨some key', texts'⟩ supply').1 = .ok p' →
          (p.text true = p'.text true ↔ Request.mk (some key) texts = ⟨some key', texts'⟩) := by
  have hsegments (fields fields' : List FieldPath) :
      fields.map segments = fields'.map segments ↔ fields = fields' :=
    List.map_inj_right fun _ _ h => segments_inj.1 h
  refine ⟨fun key key' fields fields' => ⟨?_, ?_⟩, ?_⟩
  · rw [ofFields_inj, hsegments]
  · rw [text_compact_inj, documents_ofFields_inj]
  · intro key key' texts texts' supply supply' p p' hp hp'
    obtain ⟨fields, rfl, hfields⟩ := exists_ofFields hp
    obtain ⟨fields', rfl, hfields'⟩ := exists_ofFields hp'
    rw [text_compact_inj, documents_ofFields_inj, hfields, hfields', Request.mk.injEq,
      Option.some.injEq]

/-- Two requests that test for the same dotted key. -/
theorem text_tells_apart_same_presence_test :
    (Request.toPipeline ⟨some "k0.a", ["b"]⟩ ⟨0⟩).1 = .ok (ofFields .plain "k0.a" [⟨"b", []⟩]) ∧
      (Request.toPipeline ⟨some "k0", ["a.b"]⟩ ⟨7⟩).1 =
        .ok (ofFields .plain "k0" [⟨"a", ["b"]⟩]) ∧
      (ofFields .plain "k0.a" [⟨"b", []⟩]).text true ≠
        (ofFields .plain "k0" [⟨"a", ["b"]⟩]).text true := by
  have hp : (Request.toPipeline ⟨some "k0.a", ["b"]⟩ ⟨0⟩).1 =
      .ok (ofFields .plain "k0.a" [⟨"b", []⟩]) := by rfl
  have hp' : (Request.toPipeline ⟨some "k0", ["a.b"]⟩ ⟨7⟩).1 =
      .ok (ofFields .plain "k0" [⟨"a", ["b"]⟩]) := by rfl
  exact ⟨hp, hp', fun h => absurd ((text_tells_apart.2 _ _ _ _ _ _ _ _ hp hp').1 h) (by decide)⟩

end Pipeline

end FieldPipeline
