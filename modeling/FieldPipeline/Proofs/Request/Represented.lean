import FieldPipeline.Proofs.Json.TextList
import FieldPipeline.Request.Json

/-!
# Values that stand for a request

Which values stand for which request is a relation. It is computed member by member in the same
order in which the members are read, where each of the two known names can be taken once.
-/

namespace FieldPipeline.Request

open Json

/-- The key that a value stands for; `null` stands for none. -/
inductive KeyValue : Json → Option String → Prop where
  | null : KeyValue .null none
  | string (s : String) : KeyValue (.string s) (some s)

def valuesOf (name : String) (members : List (String × Json)) : List Json :=
  (members.filter fun member => member.1 = name).map Prod.snd

inductive KeyAmong : List Json → Option String → Prop where
  | absent : KeyAmong [] none
  | only {v : Json} {key : Option String} (hkey : KeyValue v key) : KeyAmong [v] key

/-- The request that a value stands for. Members of other names do not count. -/
inductive Represented : Json → Request → Prop where
  | object {members : List (String × Json)} {key : Option String} {fields : List String}
      (hfields : valuesOf "fields" members = [strings fields])
      (hkey : KeyAmong (valuesOf "session_key" members) key) :
      Represented (.object members) ⟨key, fields⟩
  | list {v : Json} {key : Option String} (hkey : KeyValue v key) (fields : List String) :
      Represented (.array [v, strings fields]) ⟨key, fields⟩

/-- A key, fields, and at least one item more. -/
inductive Overlong : Json → Prop where
  | mk {v : Json} {key : Option String} (hkey : KeyValue v key) (fields : List String)
      (extra : Json) (items : List Json) :
      Overlong (.array (v :: strings fields :: extra :: items))

def key? : Json → Option (Option String)
  | .null => some none
  | .string s => some (some s)
  | _ => none

theorem key?_eq_some_iff {v : Json} {key : Option String} : key? v = some key ↔ KeyValue v key := by
  constructor
  · intro h
    cases v with
    | null =>
      cases h
      exact .null
    | string s =>
      cases h
      exact .string s
    | _ => cases h
  · intro h
    cases h with
    | null => rfl
    | string s => rfl

def fill? {α : Type} (value? : Json → Option α) : Option α → Json → Option (Option α)
  | none, v => (value? v).map some
  | some _, _ => none

theorem foldlM_fill?_eq_some_iff {α : Type} {value? : Json → Option α} {vs : List Json}
    {place : Option α} :
    vs.foldlM (fill? value?) none = some place ↔
      vs = [] ∧ place = none ∨ ∃ v a, vs = [v] ∧ value? v = some a ∧ place = some a := by
  cases vs with
  | nil => simp [eq_comm]
  | cons v vs =>
    rw [List.foldlM_cons]
    cases hv : value? v with
    | none => simp [fill?, hv]
    | some a =>
      cases vs with
      | nil => simp [fill?, hv, eq_comm]
      | cons w vs => simp [fill?, hv]

def Members.take? (m : Members) (member : String × Json) : Option Members :=
  if member.1 = "session_key" then
    (fill? key? m.sessionKey member.2).map ({ m with sessionKey := · })
  else if member.1 = "fields" then
    (fill? texts? m.fields member.2).map ({ m with fields := · })
  else some m

theorem valuesOf_cons_self (name : String) (v : Json) (members : List (String × Json)) :
    valuesOf name ((name, v) :: members) = v :: valuesOf name members := by
  simp [valuesOf]

theorem valuesOf_cons_of_ne {name other : String} (h : other ≠ name) (v : Json)
    (members : List (String × Json)) :
    valuesOf name ((other, v) :: members) = valuesOf name members := by
  simp [valuesOf, h]

/-- The two names do not get into each other's way. -/
theorem foldlM_take? (members : List (String × Json)) (m : Members) :
    members.foldlM Members.take? m =
      ((valuesOf "session_key" members).foldlM (fill? key?) m.sessionKey).bind fun key =>
        ((valuesOf "fields" members).foldlM (fill? texts?) m.fields).map fun fields =>
          ⟨key, fields⟩ := by
  induction members generalizing m with
  | nil => rfl
  | cons member members ih =>
    obtain ⟨name, v⟩ := member
    rw [List.foldlM_cons]
    by_cases hkey : name = "session_key"
    · subst hkey
      have hfields : "session_key" ≠ "fields" := by decide
      rw [valuesOf_cons_self, valuesOf_cons_of_ne hfields, List.foldlM_cons, Members.take?,
        if_pos rfl]
      cases fill? key? m.sessionKey v with
      | none => rfl
      | some key => exact ih { m with sessionKey := key }
    by_cases hfields : name = "fields"
    · subst hfields
      rw [valuesOf_cons_of_ne hkey, valuesOf_cons_self, List.foldlM_cons, Members.take?,
        if_neg hkey, if_pos rfl]
      cases fill? texts? m.fields v with
      | none => cases (valuesOf "session_key" members).foldlM (fill? key?) m.sessionKey <;> rfl
      | some fields => exact ih { m with fields := fields }
    rw [valuesOf_cons_of_ne hkey, valuesOf_cons_of_ne hfields, Members.take?, if_neg hkey,
      if_neg hfields]
    exact ih m

def request? : Json → Option Request
  | .object members =>
    (members.foldlM Members.take? {}).bind fun m =>
      m.fields.map fun fields => ⟨m.sessionKey.join, fields⟩
  | .array [v, w] => (key? v).bind fun key => (texts? w).map fun fields => ⟨key, fields⟩
  | _ => none

theorem foldlM_key?_eq_some_iff {vs : List Json} {key : Option String} :
    (∃ place, vs.foldlM (fill? key?) none = some place ∧ place.join = key) ↔ KeyAmong vs key := by
  constructor
  · rintro ⟨place, hplace, hkey⟩
    obtain ⟨rfl, rfl⟩ | ⟨v, a, rfl, hv, rfl⟩ := foldlM_fill?_eq_some_iff.1 hplace
    · cases hkey
      exact .absent
    · cases hkey
      exact .only (key?_eq_some_iff.1 hv)
  · intro h
    cases h with
    | absent => exact ⟨none, rfl, rfl⟩
    | @only v _ hkey =>
      have hv : key? v = some key := key?_eq_some_iff.2 hkey
      exact ⟨some key, foldlM_fill?_eq_some_iff.2 (.inr ⟨v, key, rfl, hv, rfl⟩), rfl⟩

theorem foldlM_texts?_eq_some_iff {vs : List Json} {fields : List String} :
    vs.foldlM (fill? texts?) none = some (some fields) ↔ vs = [strings fields] := by
  rw [foldlM_fill?_eq_some_iff]
  constructor
  · rintro (⟨-, h⟩ | ⟨v, a, rfl, hv, h⟩)
    · cases h
    · cases h
      rw [texts?_eq_some_iff.1 hv]
  · intro h
    exact .inr ⟨strings fields, fields, h, texts?_eq_some_iff.2 rfl, rfl⟩

/-- What is computed is what the relation says. -/
theorem request?_eq_some_iff {v : Json} {r : Request} : request? v = some r ↔ Represented v r := by
  constructor
  · intro h
    unfold request? at h
    split at h
    · rename_i members
      rw [foldlM_take?] at h
      obtain ⟨m, hm, hr⟩ := Option.bind_eq_some_iff.1 h
      obtain ⟨place, hplace, hfill⟩ := Option.bind_eq_some_iff.1 hm
      obtain ⟨filled, hfilled, rfl⟩ := Option.map_eq_some_iff.1 hfill
      obtain ⟨fields, rfl, rfl⟩ := Option.map_eq_some_iff.1 hr
      exact .object (foldlM_texts?_eq_some_iff.1 hfilled)
        (foldlM_key?_eq_some_iff.1 ⟨place, hplace, rfl⟩)
    · rename_i v w
      obtain ⟨key, hkey, hr⟩ := Option.bind_eq_some_iff.1 h
      obtain ⟨fields, hfields, rfl⟩ := Option.map_eq_some_iff.1 hr
      rw [texts?_eq_some_iff.1 hfields]
      exact .list (key?_eq_some_iff.1 hkey) fields
    · cases h
  · intro h
    cases h with
    | object hfields hkey =>
      obtain ⟨place, hplace, rfl⟩ := foldlM_key?_eq_some_iff.2 hkey
      rw [request?, foldlM_take?, hplace, foldlM_texts?_eq_some_iff.2 hfields]
      rfl
    | list hkey fields =>
      rw [request?, key?_eq_some_iff.2 hkey, texts?_eq_some_iff.2 rfl]
      rfl

theorem Overlong.not_represented {v : Json} (h : Overlong v) (r : Request) : ¬ Represented v r := by
  intro hr
  have hfound : request? v = some r := request?_eq_some_iff.2 hr
  cases h
  cases hfound

end FieldPipeline.Request
