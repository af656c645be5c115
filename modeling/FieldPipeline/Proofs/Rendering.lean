import FieldPipeline.Pipeline.Draft
import FieldPipeline.Proofs.Narrowing
import FieldPipeline.Proofs.Path.Check

/-!
# What stage documents mean

The document of a stage has a meaning of its own, read off its text. All operands share one space of
expression texts, where two dollar signs stand before the word for the whole document and one before
a dotted path. An operand keeps its meaning as long as its text does not begin with a dollar sign
of its own and splits at the dots into the segments that it was made of. The documents of a pipeline
always do what the pipeline does, unless its key begins with a dollar sign.
-/

namespace FieldPipeline

def expressionMeaning? (text : String) : Option (Document → Option Value) :=
  if text = "$$ROOT" then some fun d => some (.document d)
  else
    match text.toList with
    | '$' :: '$' :: _ => none
    | '$' :: path => some fun d => (Value.document d).follow (Dots.split (String.ofList path))
    | _ => none

def memberMeaning? : String × Json → Option (String × (Document → Option Value))
  | (name, .string text) => (expressionMeaning? text).map fun find => (name, find)
  | _ => none

def documentMeaning? : Json → Option (Document → Option Document)
  | .object [("$match", .object [(key, .object [("$exists", .boolean true)])])] =>
    some fun d => if ((Value.document d).follow (Dots.split key)).isSome then some d else none
  | .object [("$addFields", .object members)] =>
    (members.mapM memberMeaning?).map fun found d =>
      some (found.foldl (fun out member => Stage.setField out member.1 (member.2 d)) d)
  | _ => none

/-- Sends documents through the stages that some documents describe; nothing if one of these is not
the document of a stage. -/
def runDocuments? (stages : List Json) (documents : List Document) : Option (List Document) :=
  (stages.mapM documentMeaning?).map fun meanings =>
    meanings.foldl (fun documents meaning => documents.filterMap meaning) documents

theorem mapM_map_eq_some {α β γ : Type} {g : α → β} {f : β → Option γ} {h : α → γ} {items : List α}
    (hf : ∀ a ∈ items, f (g a) = some (h a)) : (items.map g).mapM f = some (items.map h) := by
  induction items with
  | nil => rfl
  | cons a items ih =>
    have hrest := ih fun b hb => hf b (List.mem_cons_of_mem a hb)
    rw [List.map_cons, List.mapM_cons, hf a List.mem_cons_self, hrest]
    rfl

/-- One dollar sign stands before a dotted path. -/
theorem expressionMeaning?_dollar {path : String} (h : path.toList.head? ≠ some '$') :
    expressionMeaning? ("$" ++ path) =
      some fun d => (Value.document d).follow (Dots.split path) := by
  have hlist : ("$" ++ path).toList = '$' :: path.toList := by simp
  have hroot : "$" ++ path ≠ "$$ROOT" := by
    intro heq
    have htail : '$' :: path.toList = ['$', '$', 'R', 'O', 'O', 'T'] :=
      hlist.symm.trans (congrArg String.toList heq)
    rw [(List.cons.inj htail).2] at h
    exact h rfl
  rw [expressionMeaning?, if_neg hroot, hlist]
  split
  · rename_i heq
    rw [(List.cons.inj heq).2] at h
    exact absurd rfl h
  · rename_i rest _ heq
    rw [← (List.cons.inj heq).2, String.ofList_toList]
  · rename_i hother
    exact absurd rfl (hother path.toList)

theorem FieldPath.head?_dotted {p : FieldPath} (h : p.head ≠ "") :
    p.dotted.toList.head? = p.head.toList.head? := by
  obtain ⟨head, tail⟩ := p
  have hhead : head.toList ≠ [] := fun hnil => h (String.toList_inj.1 hnil)
  cases tail with
  | nil => simp [dotted, Dots.join]
  | cons next rest =>
    rw [dotted, segments_mk, Dots.toList_join_cons_cons, List.head?_append_of_ne_nil _ hhead]

/-- What an operand needs for its text to lead where the operand leads. -/
def Operand.Legible : Operand → Prop
  | .field name => name ≠ "" ∧ Dots.Dotless name ∧ name.toList.head? ≠ some '$'
  | .path p => (∀ s ∈ p.segments, s ≠ "" ∧ Dots.Dotless s) ∧ p.head.toList.head? ≠ some '$'
  | .whole => True

/-- A presence test has a key that can be read as a path, and an assignment has distinct names and
legible operands. -/
def Stage.Legible : Stage → Prop
  | .present key => ∃ p, FieldPath.ofText key = .ok p
  | .assign fields => (fields.map Prod.fst).Nodup ∧ ∀ field ∈ fields, field.2.Legible

instance : (operand : Operand) → Decidable operand.Legible
  | .field name =>
    inferInstanceAs (Decidable (name ≠ "" ∧ Dots.Dotless name ∧ name.toList.head? ≠ some '$'))
  | .path p =>
    inferInstanceAs (Decidable ((∀ s ∈ p.segments, s ≠ "" ∧ Dots.Dotless s) ∧
      p.head.toList.head? ≠ some '$'))
  | .whole => inferInstanceAs (Decidable True)

instance : (stage : Stage) → Decidable stage.Legible
  | .present key =>
    match h : FieldPath.ofText key with
    | .ok p => .isTrue ⟨p, h⟩
    | .error _ => .isFalse fun ⟨_, hp⟩ => nomatch h.symm.trans hp
  | .assign fields =>
    inferInstanceAs (Decidable ((fields.map Prod.fst).Nodup ∧
      ∀ field ∈ fields, field.2.Legible))

/-- A field whose name begins with a dollar sign can have the text of the whole document. -/
example : (Operand.field "$ROOT").expression = Operand.whole.expression := rfl

theorem Operand.Legible.expressionMeaning? {operand : Operand} (h : operand.Legible) :
    expressionMeaning? operand.expression = some fun d => operand.eval d := by
  cases operand with
  | field name =>
    obtain ⟨-, hdots, hdollar⟩ := h
    rw [expression, expressionMeaning?_dollar hdollar, Dots.split_eq_singleton hdots]
    simp [eval]
  | path p =>
    obtain ⟨hsegments, hdollar⟩ := h
    have hhead : p.head ≠ "" := (hsegments p.head List.mem_cons_self).1
    have hdots : p.Dotless := fun s hs => (hsegments s hs).2
    rw [← FieldPath.head?_dotted hhead] at hdollar
    rw [expression, expressionMeaning?_dollar hdollar, FieldPath.split_dotted hdots]
    rfl
  | whole => rfl

namespace Stage

theorem expressions_of_nodup {fields : List (String × Operand)}
    (h : (fields.map Prod.fst).Nodup) :
    expressions fields = fields.map fun field => (field.1, field.2.expression) := by
  refine Record.ofEntries_of_nodup ?_
  rwa [List.map_map]

/-- The document of a legible stage means what the stage does. -/
theorem Legible.documentMeaning? {stage : Stage} (h : stage.Legible) :
    documentMeaning? stage.document = some stage.apply := by
  cases stage with
  | present key => rfl
  | assign fields =>
    obtain ⟨hnames, hoperands⟩ := h
    have hmembers : (fields.map fun field => (field.1, Json.string field.2.expression)).mapM
        memberMeaning? = some (fields.map fun field => (field.1, fun d => field.2.eval d)) := by
      refine mapM_map_eq_some fun field hfield => ?_
      rw [memberMeaning?, (hoperands field hfield).expressionMeaning?, Option.map_some]
    have hdocument : (Stage.assign fields).document =
        .object [("$addFields",
          .object (fields.map fun field => (field.1, Json.string field.2.expression)))] := by
      rw [document, expressions_of_nodup hnames, List.map_map]
      rfl
    rw [hdocument, FieldPipeline.documentMeaning?, hmembers, Option.map_some]
    simp only [List.foldl_map]
    rfl

theorem runDocuments?_of_legible {stages : List Stage} (h : ∀ stage ∈ stages, stage.Legible)
    (documents : List Document) :
    runDocuments? (stageDocuments stages) documents = some (run stages documents) := by
  have hmeanings : (stageDocuments stages).mapM FieldPipeline.documentMeaning? =
      some (stages.map apply) :=
    mapM_map_eq_some fun stage hstage => (h stage hstage).documentMeaning?
  rw [runDocuments?, hmeanings, Option.map_some, List.foldl_map]
  rfl

end Stage

namespace Pipeline

theorem toList_temporaryKey (key : String) :
    (temporaryKey key).toList = key.toList ++ "_project".toList := by
  rw [temporaryKey, String.toList_append]

theorem legible_temporaryKey {key : String} (hne : key ≠ "") (hdots : Dots.Dotless key)
    (hdollar : key.toList.head? ≠ some '$') : (Operand.field (temporaryKey key)).Legible := by
  have hkey : key.toList ≠ [] := fun hnil => hne (String.toList_inj.1 hnil)
  refine ⟨fun hempty => ?_, ?_, ?_⟩
  · have hnil : (temporaryKey key).toList = [] := by rw [hempty]; rfl
    rw [toList_temporaryKey] at hnil
    exact hkey (List.append_eq_nil_iff.1 hnil).1
  · rw [Dots.Dotless, toList_temporaryKey]
    intro hmem
    rcases List.mem_append.1 hmem with hmem | hmem
    · exact hdots hmem
    · exact absurd hmem (by decide)
  · rwa [toList_temporaryKey, List.head?_append_of_ne_nil _ hkey]

/-- The stages of a pipeline can be read back if its key does not begin with a dollar sign. -/
theorem legible_ofFields {key : String} (hne : key ≠ "") (hdots : Dots.Dotless key)
    (hdollar : key.toList.head? ≠ some '$') {fields : List FieldPath}
    (hfields : ∀ field ∈ fields, ∀ s ∈ field.segments, s ≠ "" ∧ Dots.Dotless s) :
    ∀ stage ∈ (ofFields .plain key fields).stages, stage.Legible := by
  have hassign (name : String) {operand : Operand} (h : operand.Legible) :
      (Stage.assign [(name, operand)]).Legible := by
    refine ⟨by simp, fun entry hentry => ?_⟩
    rw [List.mem_singleton.1 hentry]
    exact h
  intro stage hstage
  rw [ofFields_stages] at hstage
  rcases List.mem_cons.1 hstage with rfl | hstage
  · exact hassign key trivial
  · obtain ⟨field, hfield, hstage⟩ := List.mem_flatMap.1 hstage
    have hsegments : ∀ s ∈ (field.under key).segments, s ≠ "" ∧ Dots.Dotless s :=
      List.forall_mem_cons.2 ⟨⟨hne, hdots⟩, hfields field hfield⟩
    simp only [narrowingStages, StageForm.plain, List.mem_cons, List.not_mem_nil, or_false] at hstage
    rcases hstage with rfl | rfl | rfl
    · have hpath : (field.under key).Dotless := fun s hs => (hsegments s hs).2
      have hsplit := FieldPath.split_dotted hpath
      refine ⟨field.under key, FieldPath.ofText_eq_ok_iff.2 ⟨hsplit.symm, ?_⟩⟩
      rw [hsplit]
      exact fun hempty => (hsegments "" hempty).1 rfl
    · exact hassign (temporaryKey key) ⟨hsegments, hdollar⟩
    · exact hassign key (legible_temporaryKey hne hdots hdollar)

/-- The documents of legible stages do what the stages do. All stages of a pipeline are legible if
its key and segments are not empty and have no dots and the key does not begin with a dollar sign,
and so the documents of the pipeline do what the pipeline does. -/
theorem runDocuments?_stageDocuments :
    (∀ stages : List Stage, (∀ stage ∈ stages, stage.Legible) → ∀ documents,
      runDocuments? (stageDocuments stages) documents = some (Stage.run stages documents)) ∧
    ∀ (key : String) (fields : List FieldPath), key ≠ "" → Dots.Dotless key →
      key.toList.head? ≠ some '$' →
      (∀ field ∈ fields, ∀ s ∈ field.segments, s ≠ "" ∧ Dots.Dotless s) →
        (∀ stage ∈ (ofFields .plain key fields).stages, stage.Legible) ∧
        ∀ documents, runDocuments? (ofFields .plain key fields).documents documents =
          some (Stage.run (ofFields .plain key fields).stages documents) := by
  refine ⟨fun stages h => Stage.runDocuments?_of_legible h, ?_⟩
  intro key fields hne hdots hdollar hfields
  have hlegible := legible_ofFields hne hdots hdollar hfields
  exact ⟨hlegible, Stage.runDocuments?_of_legible hlegible⟩

/-- All forms of stages and operands together, and a pipeline with a segment that begins with a
dollar sign. -/
theorem runDocuments?_stageDocuments_all_forms :
    (∀ stage ∈ [Stage.present "a.b",
        .assign [("x", .whole), ("y", .field "a"), ("z", .path ⟨"a", ["b"]⟩)]], stage.Legible) ∧
      runDocuments? (stageDocuments [.present "a.b",
          .assign [("x", .whole), ("y", .field "a"), ("z", .path ⟨"a", ["b"]⟩)]])
          [[("z", .null)], [("a", .document [("b", .minKey)]), ("y", .null)]] =
        some (Stage.run [.present "a.b",
          .assign [("x", .whole), ("y", .field "a"), ("z", .path ⟨"a", ["b"]⟩)]]
          [[("z", .null)], [("a", .document [("b", .minKey)]), ("y", .null)]]) ∧
      runDocuments? (ofFields .plain "k0" [⟨"$a", ["b"]⟩]).documents
          [[("$a", .document [("b", .text "x")])], []] =
        some (Stage.run (ofFields .plain "k0" [⟨"$a", ["b"]⟩]).stages
          [[("$a", .document [("b", .text "x")])], []]) := by
  have hlegible : ∀ stage ∈ [Stage.present "a.b",
      .assign [("x", .whole), ("y", .field "a"), ("z", .path ⟨"a", ["b"]⟩)]], stage.Legible := by decide
  exact ⟨hlegible, runDocuments?_stageDocuments.1 _ hlegible _,
    (runDocuments?_stageDocuments.2 "k0" [⟨"$a", ["b"]⟩] (by decide) (by decide) (by decide)
      (by decide)).2 _⟩

end Pipeline

end FieldPipeline
