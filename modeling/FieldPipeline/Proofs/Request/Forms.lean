import FieldPipeline.Proofs.Request.Grammar

/-!
# Forms of a request

A request with all its parts is written as an object, its two members in either order, or as an
array. The reader takes every form for the request.
-/

namespace FieldPipeline.Request

open Json

def keyJson : Option String → Json
  | none => .null
  | some key => .string key

def toJson (r : Request) : Json :=
  .object [("session_key", keyJson r.sessionKey), ("fields", strings r.fields)]

/-- The values that hold both parts of a request. -/
def forms (r : Request) : List Json :=
  [r.toJson,
    .object [("fields", strings r.fields), ("session_key", keyJson r.sessionKey)],
    .array [keyJson r.sessionKey, strings r.fields]]

theorem keyValue_keyJson (key : Option String) : KeyValue (keyJson key) key := by
  cases key with
  | none => exact .null
  | some key => exact .string key

theorem represented_of_mem_forms {r : Request} {v : Json} (h : v ∈ r.forms) : Represented v r := by
  have hkey := keyValue_keyJson r.sessionKey
  simp only [forms, toJson, List.mem_cons, List.not_mem_nil, or_false] at h
  rcases h with rfl | rfl | rfl
  · exact .object rfl (.only hkey)
  · exact .object rfl (.only hkey)
  · exact .list hkey r.fields

theorem sized_keyJson (key : Option String) : (keyJson key).Sized := by
  cases key with
  | none => exact .null
  | some key => exact .string key

theorem sized_of_mem_forms {r : Request} {v : Json} (h : v ∈ r.forms) : v.Sized := by
  have hkey := sized_keyJson r.sessionKey
  have hfields := sized_strings r.fields
  simp only [forms, toJson, List.mem_cons, List.not_mem_nil, or_false] at h
  rcases h with rfl | rfl | rfl
  · exact .object (by simp [hkey, hfields])
  · exact .object (by simp [hkey, hfields])
  · exact .array (by simp [hkey, hfields])

/-- The reader takes the compact text of a form for the request. -/
theorem ofJsonText_of_mem_forms {r : Request} {v : Json} (h : v ∈ r.forms) :
    ofJsonText v.compact = .ok r := by
  obtain ⟨haccepted, -⟩ :=
    ofJsonText_of_written (sized_of_mem_forms h) (written_compact v)
  exact (haccepted r).2 (represented_of_mem_forms h)

end FieldPipeline.Request
