import FieldPipeline.Path.Basic
import FieldPipeline.Document

/-!
# Histories of paths

A history is a growing list of paths. Each step makes one more path, from texts or from earlier
paths by their position, and appends it; a step that is refused appends nothing. What is in the
history never changes.
-/

namespace FieldPipeline.FieldPath

/-- One way to make the next path: from a text or some segments, or from an earlier path, given by
its position. -/
inductive Step where
  | single (name : String)
  | ofText (text : String)
  | ofSegments (segments : List String)
  | under (source : Nat) (segment : String)
  | recheck (source : Nat)
  | locate (source : Nat) (focus : Focus)
  | recall (source : Nat)

/-- What a step makes after the given history; nothing if it names a position that is not there. -/
def Step.outcome (history : List FieldPath) : Step → Option (Except Fault FieldPath)
  | .single name => some (.ok (FieldPath.single name))
  | .ofText text => some (FieldPath.ofText text)
  | .ofSegments segments => some (FieldPath.ofSegments segments)
  | .under source segment => history[source]?.map fun p => .ok (p.under segment)
  | .recheck source => history[source]?.map fun p => FieldPath.ofSegments p.segments
  | .locate source focus => history[source]?.map fun p => .ok (focus.locate p)
  | .recall source => history[source]?.map .ok

def Step.extend (history : List FieldPath) (step : Step) : List FieldPath :=
  match step.outcome history with
  | some (.ok p) => history ++ [p]
  | _ => history

def Step.run (history : List FieldPath) (steps : List Step) : List FieldPath :=
  steps.foldl Step.extend history

end FieldPipeline.FieldPath
