import FieldPipeline.Text.Basic

/-!
# Field paths

A field path names a place in nested documents: a first segment and the segments below it. Any
text may be a segment. A path is shown dotted, with a dot between neighbouring segments.

Two constructors refuse empty segments: one reads dotted text, the other takes a list of segments.
Both report the first empty segment by its position, together with the text of the whole path.
-/

namespace FieldPipeline

/-- A place in nested documents, never without a segment. -/
@[ext] structure FieldPath where
  head : String
  tail : List String
deriving DecidableEq

namespace FieldPath

def single (name : String) : FieldPath :=
  ⟨name, []⟩

def segments (p : FieldPath) : List String :=
  p.head :: p.tail

/-- The same path one level further down, under the given segment. -/
def under (p : FieldPath) (segment : String) : FieldPath :=
  ⟨segment, p.segments⟩

def dotted (p : FieldPath) : String :=
  Dots.join p.segments

@[simp] theorem segments_single (name : String) : (single name).segments = [name] := rfl

@[simp] theorem segments_under (p : FieldPath) (segment : String) :
    (p.under segment).segments = segment :: p.segments := rfl

@[simp] theorem segments_mk (head : String) (tail : List String) :
    (FieldPath.mk head tail).segments = head :: tail := rfl

@[simp] theorem segments_ne_nil (p : FieldPath) : p.segments ≠ [] :=
  List.cons_ne_nil _ _

theorem segments_inj {p q : FieldPath} : p.segments = q.segments ↔ p = q := by
  cases p
  cases q
  simp

/-- Why a path is refused: it has no segment, or the one at this position, counted from 0, is empty.
-/
inductive Fault where
  | noSegment
  | emptyAt (path : String) (position : Nat)
deriving DecidableEq

def Fault.message : Fault → String
  | .noSegment => "field path must not be empty"
  | .emptyAt path position =>
    "empty segment at position " ++ toString position ++ " in field path: " ++ path

/-- The path with these segments, if there are any and none is empty; `text` stands for the path in
the report. -/
def check (text : String) (segments : List String) : Except Fault FieldPath :=
  match segments with
  | [] => .error .noSegment
  | head :: tail =>
    match (head :: tail).findIdx? String.isEmpty with
    | some position => .error (.emptyAt text position)
    | none => .ok ⟨head, tail⟩

def ofText (text : String) : Except Fault FieldPath :=
  if text.isEmpty then .error .noSegment else check text (Dots.split text)

/-- The path with the given segments; dots inside a segment are left alone. -/
def ofSegments (segments : List String) : Except Fault FieldPath :=
  check (Dots.join segments) segments

theorem check_eq_ok_iff {text : String} {segments : List String} {p : FieldPath} :
    check text segments = .ok p ↔ p.segments = segments ∧ ∀ s ∈ segments, s.isEmpty = false := by
  cases segments with
  | nil => simp [check]
  | cons head tail =>
    rw [check]
    cases h : (head :: tail).findIdx? String.isEmpty with
    | none =>
      rw [List.findIdx?_eq_none_iff] at h
      simp only [Except.ok.injEq]
      constructor
      · rintro rfl
        exact ⟨rfl, h⟩
      · rintro ⟨hp, -⟩
        cases p
        simp_all
    | some position =>
      simp only [reduceCtorEq, false_iff, not_and]
      intro _ hall
      rw [List.findIdx?_eq_none_iff.2 hall] at h
      cases h

end FieldPath

end FieldPipeline
