import FieldPipeline.Document
import FieldPipeline.Json.Text

/-!
# Stages

A pipeline is a list of stages through which documents flow. A stage either keeps the documents
that have something at a dotted key, or assigns top-level fields from operands. A stage form builds
stages of some other shape from the same two requests.

A stage is handed over as a document of one member that names its kind. An assignment becomes one
member per distinct name, at the name's first place and with its last operand.

What a stage does is a partial map on documents. `present` keeps a document unchanged if its key,
split at the dots, leads somewhere, and drops it otherwise. `assign` evaluates every operand in the
entering document and sets the named fields one after the other; a field whose operand is absent is
removed. A pipeline sends a list of documents through its stages, first to last, and keeps their
order.
-/

namespace FieldPipeline

/-- The value that an assignment gives to a field: a top-level field by its literal name, what lies
at a path, or the whole document that flows through. -/
inductive Operand where
  | field (name : String)
  | path (p : FieldPath)
  | whole
deriving DecidableEq

/-- The text that names an operand: a dollar sign before the key, two before the word for the whole
document. -/
def Operand.expression : Operand → String
  | .field name => "$" ++ name
  | .path p => "$" ++ p.dotted
  | .whole => "$$ROOT"

/-- One step of a pipeline: it keeps the documents with something at the dotted key, or sets
top-level fields from operands that all refer to the document that enters it. -/
inductive Stage where
  | present (key : String)
  | assign (fields : List (String × Operand))
deriving DecidableEq

/-- How the two kinds of stage are built. -/
structure StageForm (σ : Type) where
  present : String → σ
  assign : List (String × Operand) → σ

namespace StageForm

def plain : StageForm Stage :=
  ⟨.present, .assign⟩

def ofStage {σ : Type} (form : StageForm σ) : Stage → σ
  | .present key => form.present key
  | .assign fields => form.assign fields

@[simp] theorem ofStage_plain (s : Stage) : plain.ofStage s = s := by
  cases s <;> rfl

end StageForm

namespace Stage

/-- The expression texts of an assignment, every name once. -/
def expressions (fields : List (String × Operand)) : Record String String :=
  Record.ofEntries (fields.map fun field => (field.1, field.2.expression))

def document : Stage → Json
  | .present key => .object [("$match", .object [(key, .object [("$exists", .boolean true)])])]
  | .assign fields =>
    .object [("$addFields",
      .object ((expressions fields).map fun entry => (entry.1, .string entry.2)))]

end Stage

def stageDocuments (stages : List Stage) : List Json :=
  stages.map Stage.document

def Operand.eval (d : Document) : Operand → Option Value
  | .field name => Record.get? d name
  | .path p => (Value.document d).find? p
  | .whole => some (.document d)

namespace Stage

/-- Gives a field what its operand found, or removes it. -/
def setField (d : Document) (name : String) : Option Value → Document
  | some v => Record.put d name v
  | none => Record.erase d name

/-- The assigned document; operands are looked up in `source`. -/
def assignFrom (source : Document) (fields : List (String × Operand)) (d : Document) : Document :=
  fields.foldl (fun d field => setField d field.1 (field.2.eval source)) d

def apply : Stage → Document → Option Document
  | .present key, d => if ((Value.document d).follow (Dots.split key)).isSome then some d else none
  | .assign fields, d => some (assignFrom d fields d)

def applyAll (stages : List Stage) (d : Document) : Option Document :=
  stages.foldlM (fun d stage => stage.apply d) d

def run (stages : List Stage) (documents : List Document) : List Document :=
  stages.foldl (fun documents stage => documents.filterMap stage.apply) documents

@[simp] theorem applyAll_nil (d : Document) : applyAll [] d = some d := rfl

@[simp] theorem applyAll_cons (stage : Stage) (stages : List Stage) (d : Document) :
    applyAll (stage :: stages) d = (stage.apply d).bind (applyAll stages) := by
  simp [applyAll, List.foldlM_cons]
  rfl

/-- Documents do not meet on their way: each goes through all stages by itself. -/
theorem run_eq_filterMap (stages : List Stage) (documents : List Document) :
    run stages documents = documents.filterMap (applyAll stages) := by
  induction stages generalizing documents with
  | nil =>
    have : applyAll [] = some := funext applyAll_nil
    simp [run, this]
  | cons stage stages ih =>
    have : applyAll (stage :: stages) = fun d => (stage.apply d).bind (applyAll stages) :=
      funext fun d => applyAll_cons stage stages d
    rw [this, ← List.filterMap_filterMap, ← ih]
    rfl

end Stage

end FieldPipeline
