import FieldPipeline.Document
import FieldPipeline.Proofs.Navigation

/-!
# Foci from both sides

Looking along a path in the working value is looking along the located path in the whole document,
for one focus and for any chain of foci. The two sides fold a chain in opposite directions, and the
value side turns an absence into `undefined` on its way. They agree because a path has a first
segment and `undefined` has no field. For the same reason a chain that has come to an absence stays
there, and it does not matter whether a field holds `undefined` or is not there at all.
-/

namespace FieldPipeline

namespace Value

/-- Whether a field is absent or holds `undefined` cannot be told one field further down. -/
@[simp] theorem find?_getD_undefined (found : Option Value) (p : FieldPath) :
    (found.getD .undefined).find? p = found.bind fun inner => inner.find? p := by
  cases found with
  | none => simp [find?, FieldPath.segments]
  | some inner => rfl

theorem find?_under (v : Value) (p : FieldPath) (key : String) :
    v.find? (p.under key) = (v.field? key).bind fun inner => inner.find? p := rfl

end Value

namespace Focus

def key? : Focus → Option String
  | .whole => none
  | .field key => some key

/-- The fields that a chain of foci goes into, outermost first. -/
def keys (foci : List Focus) : List String :=
  foci.filterMap key?

@[simp] theorem keys_nil : keys [] = [] := rfl

@[simp] theorem keys_whole_cons (foci : List Focus) : keys (.whole :: foci) = keys foci := rfl

@[simp] theorem keys_field_cons (key : String) (foci : List Focus) :
    keys (.field key :: foci) = key :: keys foci := rfl

/-- One focus from both sides. -/
theorem find?_view (focus : Focus) (v : Value) (p : FieldPath) :
    (focus.view v).find? p = v.find? (focus.locate p) := by
  cases focus with
  | whole => rfl
  | field key => rw [view_field, Value.find?_getD_undefined, locate_field, Value.find?_under]

/-- A chain of foci from both sides. -/
theorem find?_viewAll (foci : List Focus) (v : Value) (p : FieldPath) :
    (viewAll foci v).find? p = v.find? (locateAll foci p) := by
  induction foci generalizing v with
  | nil => rfl
  | cons focus rest ih =>
    rw [viewAll_cons, ih (focus.view v), find?_view, locateAll_cons]

theorem segments_locateAll (foci : List Focus) (p : FieldPath) :
    (locateAll foci p).segments = keys foci ++ p.segments := by
  induction foci with
  | nil => rfl
  | cons focus rest ih =>
    cases focus with
    | whole => exact ih
    | field key => simp [ih]

/-- The value side and the path side of a chain agree, and the located path goes down the keys of
the chain, outermost first, before it goes on as before. -/
theorem views_agree_with_places (foci : List Focus) (v : Value) (p : FieldPath) :
    (viewAll foci v).find? p = v.find? (locateAll foci p) ∧
      (locateAll foci p).segments = keys foci ++ p.segments ∧
      (locateAll foci p).dotted = ".".intercalate (keys foci ++ p.segments) := by
  refine ⟨find?_viewAll foci v p, segments_locateAll foci p, ?_⟩
  rw [FieldPath.dotted, segments_locateAll, Dots.join]

section Absence

theorem mem_keys_iff {key : String} {foci : List Focus} : key ∈ keys foci ↔ .field key ∈ foci := by
  induction foci with
  | nil => simp
  | cons focus rest ih => cases focus <;> simp [ih]

theorem exists_keys_eq_cons {foci : List Focus} (h : ∃ key, .field key ∈ foci) :
    ∃ first rest, keys foci = first :: rest := by
  obtain ⟨key, hkey⟩ := h
  exact List.exists_cons_of_ne_nil (List.ne_nil_of_mem (mem_keys_iff.2 hkey))

theorem viewAll_append (first second : List Focus) (v : Value) :
    viewAll (first ++ second) v = viewAll second (viewAll first v) :=
  List.foldl_append

theorem viewAll_undefined (foci : List Focus) : viewAll foci .undefined = .undefined := by
  induction foci with
  | nil => rfl
  | cons focus rest ih => cases focus <;> exact ih

/-- To read `undefined` at every absence on the way is to read it once, at the end of the way. -/
theorem viewAll_eq_follow (foci : List Focus) (v : Value) :
    viewAll foci v = (v.follow (keys foci)).getD .undefined := by
  induction foci generalizing v with
  | nil => rfl
  | cons focus rest ih =>
    cases focus with
    | whole => exact ih v
    | field key =>
      rw [viewAll_cons, view_field, keys_field_cons, Value.follow_cons]
      cases v.field? key with
      | none => exact viewAll_undefined rest
      | some inner => exact ih inner

theorem viewAll_field_of_absent {v : Value} {key : String}
    (h : v.field? key = none ∨ v.field? key = some .undefined) (rest : List Focus) :
    viewAll (.field key :: rest) v = .undefined := by
  have hview : (field key).view v = .undefined := by
    rcases h with h | h <;> rw [view_field, h] <;> rfl
  rw [viewAll_cons, hview, viewAll_undefined]

theorem viewAll_of_not_document {v : Value} (hv : ∀ fields, v ≠ .document fields)
    {foci : List Focus} (h : ∃ key, .field key ∈ foci) : viewAll foci v = .undefined := by
  obtain ⟨first, rest, hkeys⟩ := exists_keys_eq_cons h
  rw [viewAll_eq_follow, hkeys, Value.follow_cons, Value.field?_of_not_document hv]
  rfl

/-- Below a field that holds `undefined`, and at it, a chain sees what it would see without it. -/
theorem viewAll_delete {v : Value} {p : FieldPath} {foci : List Focus}
    (hp : p.segments <+: keys foci) (hfound : v.find? p = some .undefined) :
    viewAll foci (v.delete p) = viewAll foci v := by
  obtain ⟨rest, hkeys⟩ := hp
  have hdeleted : viewAll foci (v.delete p) = .undefined := by
    rw [viewAll_eq_follow, ← hkeys, Value.follow_append, ← Value.find?, Value.find?_delete]
    rfl
  have hstored : viewAll foci v = .undefined := by
    rw [viewAll_eq_follow, ← hkeys, Value.follow_append, ← Value.find?, hfound, Option.bind_some]
    cases rest <;> rfl
  rw [hdeleted, hstored]

/-- A chain that goes into fields sees what lies along its keys and `undefined` if nothing does.
Once a field on its way is absent or holds `undefined`, it sees `undefined` from there on, and from
the next field on once it has come to a value that is not a document. A field on its way that holds
`undefined` may as well be deleted. -/
theorem viewAll_absorbs_absence :
    (∀ foci, (∃ key, .field key ∈ foci) →
      ∃ p : FieldPath, p.segments = keys foci ∧
        ∀ v : Value, viewAll foci v = (v.find? p).getD .undefined) ∧
    (∀ (before after : List Focus) (key : String) (v : Value),
      (viewAll before v).field? key = none ∨
          (viewAll before v).field? key = some .undefined →
        viewAll (before ++ .field key :: after) v = .undefined) ∧
    (∀ (before after : List Focus) (v : Value),
      (∀ fields, viewAll before v ≠ .document fields) → (∃ key, .field key ∈ after) →
        viewAll (before ++ after) v = .undefined) ∧
    ∀ (foci : List Focus) (v : Value) (p : FieldPath), p.segments <+: keys foci →
      v.find? p = some .undefined → viewAll foci (v.delete p) = viewAll foci v := by
  refine ⟨?_, ?_, ?_, fun foci v p => viewAll_delete⟩
  · intro foci h
    obtain ⟨head, tail, hkeys⟩ := exists_keys_eq_cons h
    refine ⟨⟨head, tail⟩, hkeys.symm, fun v => ?_⟩
    rw [viewAll_eq_follow, hkeys]
    rfl
  · intro before after key v h
    rw [viewAll_append, viewAll_field_of_absent h]
  · intro before after v hv h
    rw [viewAll_append, viewAll_of_not_document hv h]

/-- A field that holds `undefined`, with the chain beyond it and with the field deleted, and code
whose scope has the sought name. -/
theorem viewAll_absorbs_absence_scoped_code :
    Focus.field "b" ∈ [.field "a", .whole, .field "b"] ∧
      (∃ p : FieldPath, p.segments = ["a", "b"] ∧
        ∀ v : Value, viewAll [.field "a", .whole, .field "b"] v = (v.find? p).getD .undefined) ∧
      (Value.document [("b", .undefined), ("x", .null)]).field? "b" = some .undefined ∧
      viewAll ([.field "a"] ++ .field "b" :: [.whole, .field "c"])
        (.document [("a", .document [("b", .undefined), ("x", .null)])]) = .undefined ∧
      (∀ fields, Value.scopedCode "f" [("b", .null)] ≠ .document fields) ∧
      viewAll ([.field "s"] ++ [.whole, .field "b"])
        (.document [("s", .scopedCode "f" [("b", .null)])]) = .undefined ∧
      ["a", "b"] <+: keys [.field "a", .whole, .field "b", .field "c"] ∧
      (Value.document [("a", .document [("b", .undefined), ("x", .null)])]).find? ⟨"a", ["b"]⟩ =
        some .undefined ∧
      viewAll [.field "a", .whole, .field "b", .field "c"]
          (.document [("a", .document [("x", .null)])]) =
        viewAll [.field "a", .whole, .field "b", .field "c"]
          (.document [("a", .document [("b", .undefined), ("x", .null)])]) := by
  have hmem : Focus.field "b" ∈ [.field "a", .whole, .field "b"] := by decide
  have hfield : (Value.document [("b", .undefined), ("x", .null)]).field? "b" = some .undefined := rfl
  have hscoped : ∀ fields, Value.scopedCode "f" [("b", .null)] ≠ .document fields := nofun
  have hkeys : ["a", "b"] <+: keys [.field "a", .whole, .field "b", .field "c"] := by decide
  have hstored : (Value.document [("a", .document [("b", .undefined), ("x", .null)])]).find?
      ⟨"a", ["b"]⟩ = some .undefined := rfl
  obtain ⟨hfollows, habsent, hleaf, hdelete⟩ := viewAll_absorbs_absence
  refine ⟨hmem, hfollows _ ⟨"b", hmem⟩, hfield, ?_, hscoped, ?_, hkeys, hstored, ?_⟩
  · exact habsent [.field "a"] [.whole, .field "c"] "b" _ (.inr hfield)
  · exact hleaf [.field "s"] [.whole, .field "b"] (.document [("s", .scopedCode "f" [("b", .null)])])
      hscoped ⟨"b", by decide⟩
  · exact hdelete _ _ ⟨"a", ["b"]⟩ hkeys hstored

end Absence

end Focus

end FieldPipeline
