import FieldPipeline.Document

/-!
# Navigation, exactly

A path that continues another one is followed in two stretches. In a value that was wrapped in
documents along one path, another path ends on the way, goes on inside, or leads nowhere, and a dot
in a segment does not count. A field that was deleted is not found any more.
-/

namespace FieldPipeline

def FieldPath.underAll (p : FieldPath) (segments : List String) : FieldPath :=
  segments.foldr (fun segment path => path.under segment) p

@[simp] theorem FieldPath.segments_underAll (p : FieldPath) (segments : List String) :
    (p.underAll segments).segments = segments ++ p.segments := by
  induction segments with
  | nil => rfl
  | cons segment rest ih => exact congrArg (segment :: ·) ih

namespace Value

/-- The value in documents of one field each, the first segment outermost. -/
def wrap (segments : List String) (v : Value) : Value :=
  segments.foldr (fun name inner => .document [(name, inner)]) v

theorem wrap_append (outer inner : List String) (v : Value) :
    wrap (outer ++ inner) v = wrap outer (wrap inner v) :=
  List.foldr_append

theorem field?_wrap_cons (name : String) (rest : List String) (v : Value) (other : String) :
    (wrap (name :: rest) v).field? other = if name = other then some (wrap rest v) else none := rfl

theorem follow_wrap (segments : List String) (v : Value) :
    (wrap segments v).follow segments = some v := by
  induction segments with
  | nil => rfl
  | cons name rest ih => rw [follow_cons, field?_wrap_cons, if_pos rfl, Option.bind_some, ih]

theorem follow_wrap_of_apart {segments other : List String} (hother : ¬ other <+: segments)
    (hsegments : ¬ segments <+: other) (v : Value) : (wrap segments v).follow other = none := by
  induction segments generalizing other with
  | nil => exact absurd List.nil_prefix hsegments
  | cons name rest ih =>
    cases other with
    | nil => exact absurd List.nil_prefix hother
    | cons next others =>
      rw [follow_cons, field?_wrap_cons]
      by_cases h : name = next
      · subst h
        rw [List.cons_prefix_cons] at hother hsegments
        rw [if_pos rfl, Option.bind_some]
        exact ih (fun hpre => hother ⟨rfl, hpre⟩) (fun hpre => hsegments ⟨rfl, hpre⟩)
      · rw [if_neg h, Option.bind_none]

/-- Following a path under further segments is following the segments and then the path. In a value
that is wrapped along one path, a path that ends on the way finds what is wrapped from there on, a
path that goes on beyond finds what the rest of it finds inside, and any other path finds nothing.
-/
theorem find?_along_wraps :
    (∀ (v : Value) (p q : FieldPath),
      v.find? (q.underAll p.segments) = (v.find? p).bind fun inner => inner.find? q) ∧
    ∀ (leaf : Value) (p q : FieldPath),
      (∀ rest, p.segments = q.segments ++ rest →
        (wrap p.segments leaf).find? q = some (wrap rest leaf)) ∧
      (∀ r : FieldPath, q = r.underAll p.segments →
        (wrap p.segments leaf).find? q = leaf.find? r) ∧
      (¬ q.segments <+: p.segments → ¬ p.segments <+: q.segments →
        (wrap p.segments leaf).find? q = none) := by
  have hcompose (v : Value) (p q : FieldPath) :
      v.find? (q.underAll p.segments) = (v.find? p).bind fun inner => inner.find? q := by
    rw [find?, FieldPath.segments_underAll, follow_append]
    rfl
  refine ⟨hcompose, fun leaf p q => ⟨?_, ?_, ?_⟩⟩
  · intro rest hrest
    rw [hrest, wrap_append, find?, follow_wrap]
  · rintro r rfl
    rw [hcompose, find?, follow_wrap, Option.bind_some]
  · exact fun hq hp => follow_wrap_of_apart hq hp leaf

/-- A dotted segment, an empty one and one that occurs twice: a path that stops, one that goes on
into a leaf and one into a document, one that parts at a dot and one that parts below the same
segment. -/
theorem find?_along_wraps_odd_segments :
    ["a.b", "", "a.b"] = ["a.b", ""] ++ ["a.b"] ∧
      (wrap ["a.b", "", "a.b"] .null).find? ⟨"a.b", [""]⟩ = some (.document [("a.b", .null)]) ∧
      (⟨"a.b", ["", "x"]⟩ : FieldPath) = (FieldPath.single "x").underAll ["a.b", ""] ∧
      (wrap ["a.b", ""] (.document [("x", .minKey)])).find? ⟨"a.b", ["", "x"]⟩ = some .minKey ∧
      (wrap ["a.b", ""] .null).find? ⟨"a.b", ["", "x"]⟩ = none ∧
      (¬ ["a", "b"] <+: ["a.b"] ∧ ¬ ["a.b"] <+: ["a", "b"]) ∧
      (wrap ["a.b"] .null).find? ⟨"a", ["b"]⟩ = none ∧
      (wrap ["a", "a", "b"] .null).find? ⟨"a", ["b"]⟩ = none := by
  have hstop : ["a.b", "", "a.b"] = ["a.b", ""] ++ ["a.b"] := rfl
  have hbeyond : (⟨"a.b", ["", "x"]⟩ : FieldPath) = (FieldPath.single "x").underAll ["a.b", ""] := rfl
  have hapart : ¬ ["a", "b"] <+: ["a.b"] ∧ ¬ ["a.b"] <+: ["a", "b"] := by decide
  refine ⟨hstop, ?_, hbeyond, ?_, ?_, hapart, ?_, ?_⟩
  · exact (find?_along_wraps.2 .null ⟨"a.b", ["", "a.b"]⟩ ⟨"a.b", [""]⟩).1 _ hstop
  · exact (find?_along_wraps.2 (.document [("x", .minKey)]) ⟨"a.b", [""]⟩ _).2.1 _ hbeyond
  · exact (find?_along_wraps.2 .null ⟨"a.b", [""]⟩ _).2.1 _ hbeyond
  · exact (find?_along_wraps.2 .null ⟨"a.b", []⟩ ⟨"a", ["b"]⟩).2.2 hapart.1 hapart.2
  · exact (find?_along_wraps.2 .null ⟨"a", ["a", "b"]⟩ ⟨"a", ["b"]⟩).2.2 (by decide) (by decide)

theorem field?_of_not_document {v : Value} (h : ∀ fields, v ≠ .document fields) (name : String) :
    v.field? name = none := by
  rw [field?]
  exact h

/-- The value without the last field on the way down from `name`; if the way leads nowhere, there is
nothing to delete. -/
def deleteBelow (name : String) : List String → Value → Value
  | [], .document fields => .document (Record.erase fields name)
  | next :: rest, .document fields =>
    match Record.get? fields name with
    | some inner => .document (Record.put fields name (deleteBelow next rest inner))
    | none => .document fields
  | _, v => v

def delete (v : Value) (p : FieldPath) : Value :=
  deleteBelow p.head p.tail v

theorem follow_deleteBelow (name : String) (rest : List String) (v : Value) :
    (deleteBelow name rest v).follow (name :: rest) = none := by
  fun_induction deleteBelow name rest v with
  | case1 name fields =>
    rw [follow_cons, field?_document, Record.get?_erase_self, Option.bind_none]
  | case2 name next rest fields inner hinner ih =>
    rw [follow_cons, field?_document, Record.get?_put_self, Option.bind_some, ih]
  | case3 name next rest fields hinner =>
    rw [follow_cons, field?_document, hinner, Option.bind_none]
  | case4 rest name v hlast hway =>
    have hv : ∀ fields, v ≠ .document fields := by
      intro fields hfields
      cases rest with
      | nil => exact hlast fields rfl hfields
      | cons next rest => exact hway next rest fields rfl hfields
    rw [follow_cons, field?_of_not_document hv, Option.bind_none]

theorem find?_delete (v : Value) (p : FieldPath) : (v.delete p).find? p = none :=
  follow_deleteBelow p.head p.tail v

end Value

end FieldPipeline
