import FieldPipeline.Document
import FieldPipeline.Stage

/-!
# Drafts and pipelines

A draft works on a key that no user field has. It starts by copying the whole document under the
key. Each field narrows what lies under the key: drop the documents
without the field, copy the field to a temporary name beside the key, and move it back under the
key. A finished pipeline remembers where its results are found.
-/

namespace FieldPipeline

/-- Stages together with the place of their results. -/
structure Pipeline (σ : Type) where
  stages : List σ
  focus : Focus
deriving DecidableEq

namespace Pipeline

variable {σ : Type}

def value (p : Pipeline σ) (result : Value) : Value :=
  p.focus.view result

def path (p : Pipeline σ) (inner : FieldPath) : FieldPath :=
  p.focus.locate inner

def documents (p : Pipeline Stage) : List Json :=
  stageDocuments p.stages

def text (p : Pipeline Stage) (compact : Bool) : String :=
  if compact then (Json.array p.documents).compact else (Json.array p.documents).indented

end Pipeline

/-- The name beside a key that holds a value on its way back under the key. -/
def temporaryKey (key : String) : String :=
  key ++ "_project"

def openingStage {σ : Type} (form : StageForm σ) (key : String) : σ :=
  form.assign [(key, .whole)]

/-- The three stages that narrow the value under a key to one of its fields. -/
def narrowingStages {σ : Type} (form : StageForm σ) (key : String) (field : FieldPath) : List σ :=
  [form.present (field.under key).dotted,
   form.assign [(temporaryKey key, .path (field.under key))],
   form.assign [(key, .field (temporaryKey key))]]

@[simp] theorem length_narrowingStages {σ : Type} (form : StageForm σ) (key : String)
    (field : FieldPath) : (narrowingStages form key field).length = 3 := rfl

theorem length_flatMap_narrowingStages {σ : Type} (form : StageForm σ) (key : String)
    (fields : List FieldPath) :
    (fields.flatMap (narrowingStages form key)).length = 3 * fields.length := by
  simp [List.length_flatMap, List.map_const', Nat.mul_comm]

/-- A pipeline that can still be extended. -/
structure Draft (σ : Type) where
  key : String
  stages : List σ
deriving DecidableEq

namespace Draft

variable {σ : Type}

def begin (form : StageForm σ) (key : String) : Draft σ :=
  ⟨key, [openingStage form key]⟩

def narrow (form : StageForm σ) (d : Draft σ) (field : FieldPath) : Draft σ :=
  ⟨d.key, d.stages ++ narrowingStages form d.key field⟩

def narrowAll (form : StageForm σ) (d : Draft σ) (fields : List FieldPath) : Draft σ :=
  fields.foldl (narrow form) d

def toPipeline (d : Draft σ) : Pipeline σ :=
  ⟨d.stages, .field d.key⟩

theorem narrowAll_eq (form : StageForm σ) (d : Draft σ) (fields : List FieldPath) :
    d.narrowAll form fields = ⟨d.key, d.stages ++ fields.flatMap (narrowingStages form d.key)⟩ := by
  induction fields generalizing d with
  | nil => simp [narrowAll]
  | cons field fields ih =>
    have := ih (d.narrow form field)
    simpa [narrowAll, narrow, List.append_assoc] using this

theorem narrowAll_begin (form : StageForm σ) (key : String) (fields : List FieldPath) :
    (begin form key).narrowAll form fields =
      ⟨key, openingStage form key :: fields.flatMap (narrowingStages form key)⟩ :=
  narrowAll_eq form (begin form key) fields

end Draft

/-- The pipeline that goes down the fields one inside the other, working on the key. -/
def Pipeline.ofFields {σ : Type} (form : StageForm σ) (key : String) (fields : List FieldPath) :
    Pipeline σ :=
  ((Draft.begin form key).narrowAll form fields).toPipeline

namespace Pipeline

variable {σ : Type} (form : StageForm σ) (key : String) (fields : List FieldPath)

theorem ofFields_eq :
    ofFields form key fields =
      ⟨openingStage form key :: fields.flatMap (narrowingStages form key), .field key⟩ := by
  rw [ofFields, Draft.narrowAll_begin, Draft.toPipeline]

theorem ofFields_stages :
    (ofFields form key fields).stages =
      openingStage form key :: fields.flatMap (narrowingStages form key) := by
  rw [ofFields_eq]

theorem ofFields_focus : (ofFields form key fields).focus = .field key := by
  rw [ofFields_eq]

end Pipeline

end FieldPipeline
