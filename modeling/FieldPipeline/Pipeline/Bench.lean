import FieldPipeline.Path.Basic
import FieldPipeline.Pipeline.Draft

/-!
# A bench of drafts

Several drafts are worked on side by side, each under a number, and finished pipelines stay under
their number until another one is finished there. A path that cannot be read leaves the bench as it
is.
-/

namespace FieldPipeline

structure Bench (σ : Type) where
  drafts : Record Nat (Draft σ) := []
  finished : Record Nat (Pipeline σ) := []

namespace Bench

variable {σ : Type}

/-- What is done next. A draft that is begun takes the place of one with the same number. -/
inductive Step where
  | begin (number : Nat) (key : String)
  | narrow (number : Nat) (field : FieldPath)
  | read (number : Nat) (text : String)
  | seal (number : Nat)

/-- The bench after narrowing a draft; nothing changes if there is no draft with the number. -/
def narrow (form : StageForm σ) (bench : Bench σ) (number : Nat) (field : FieldPath) : Bench σ :=
  match Record.get? bench.drafts number with
  | some draft => { bench with drafts := Record.put bench.drafts number (draft.narrow form field) }
  | none => bench

def step (form : StageForm σ) (bench : Bench σ) : Step → Bench σ
  | .begin number key => { bench with drafts := Record.put bench.drafts number (.begin form key) }
  | .narrow number field => bench.narrow form number field
  | .read number text =>
    match FieldPath.ofText text with
    | .ok field => bench.narrow form number field
    | .error _ => bench
  | .seal number =>
    match Record.get? bench.drafts number with
    | some draft =>
      ⟨Record.erase bench.drafts number, Record.put bench.finished number draft.toPipeline⟩
    | none => bench

def run (form : StageForm σ) (bench : Bench σ) (steps : List Step) : Bench σ :=
  steps.foldl (step form) bench

end Bench

end FieldPipeline
