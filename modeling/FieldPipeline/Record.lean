/-!
# Ordered records

A record lists named entries in order. A look-up finds the first entry of a name, a value put under
a name that is present takes over that entry's place, and a new name goes last. Built entry by
entry, a record holds every name once: at its first place, with its last value.
-/

namespace FieldPipeline

universe u v

abbrev Record (κ : Type u) (α : Type v) := List (κ × α)

namespace Record

variable {κ : Type u} {α : Type v} [DecidableEq κ]

def get? : Record κ α → κ → Option α
  | [], _ => none
  | (n, a) :: r, name => if n = name then some a else get? r name

/-- Sets a name: in place if it is present, at the end otherwise. -/
def put : Record κ α → κ → α → Record κ α
  | [], name, a => [(name, a)]
  | (n, b) :: r, name, a => if n = name then (n, a) :: r else (n, b) :: put r name a

def erase (r : Record κ α) (name : κ) : Record κ α :=
  r.filter fun entry => entry.1 ≠ name

def names (r : Record κ α) : List κ :=
  r.map Prod.fst

/-- Puts the entries one after the other into an empty record. -/
def ofEntries (entries : List (κ × α)) : Record κ α :=
  entries.foldl (fun r entry => put r entry.1 entry.2) []

@[simp] theorem get?_nil (name : κ) : get? ([] : Record κ α) name = none := rfl

theorem get?_cons (n : κ) (a : α) (r : Record κ α) (name : κ) :
    get? ((n, a) :: r) name = if n = name then some a else get? r name := rfl

@[simp] theorem get?_put_self (r : Record κ α) (name : κ) (a : α) :
    get? (put r name a) name = some a := by
  induction r with
  | nil => simp [put, get?]
  | cons entry r ih =>
    obtain ⟨n, b⟩ := entry
    by_cases h : n = name <;> simp [put, get?, h, ih]

theorem get?_put_of_ne (r : Record κ α) {name other : κ} (a : α) (h : name ≠ other) :
    get? (put r name a) other = get? r other := by
  induction r with
  | nil => simp [put, get?, h]
  | cons entry r ih =>
    obtain ⟨n, b⟩ := entry
    by_cases hn : n = name
    · subst hn; simp [put, get?, h]
    · simp [put, get?, hn, ih]

@[simp] theorem get?_erase_self (r : Record κ α) (name : κ) : get? (erase r name) name = none := by
  induction r with
  | nil => rfl
  | cons entry r ih =>
    obtain ⟨n, b⟩ := entry
    by_cases hn : n = name
    · simpa [erase, hn] using ih
    · simpa [erase, hn, get?] using ih

theorem get?_erase_of_ne (r : Record κ α) {name other : κ} (h : name ≠ other) :
    get? (erase r name) other = get? r other := by
  induction r with
  | nil => rfl
  | cons entry r ih =>
    obtain ⟨n, b⟩ := entry
    by_cases hn : n = name
    · subst hn; simpa [erase, get?, h] using ih
    · have hc : erase ((n, b) :: r) name = (n, b) :: erase r name := by simp [erase, hn]
      rw [hc, get?, get?, ih]

/-- A put keeps the order of the names and adds a new one at the end. -/
theorem names_put (r : Record κ α) (name : κ) (a : α) :
    names (put r name a) = if name ∈ names r then names r else names r ++ [name] := by
  induction r with
  | nil => simp [put, names]
  | cons entry r ih =>
    obtain ⟨n, b⟩ := entry
    by_cases hn : n = name
    · simp [put, names, hn]
    · have hn' : ¬ name = n := fun h => hn h.symm
      by_cases hm : name ∈ names r
      · rw [if_pos hm] at ih
        simp_all [put, names]
      · rw [if_neg hm] at ih
        simp_all [put, names]

theorem nodup_names_put {r : Record κ α} (h : (names r).Nodup) (name : κ) (a : α) :
    (names (put r name a)).Nodup := by
  rw [names_put]
  split
  · exact h
  · rename_i hm
    exact List.nodup_append.2 ⟨h, by simp, by
      intro x hx y hy hxy
      rw [List.mem_singleton] at hy
      exact hm (hy ▸ hxy ▸ hx)⟩

end Record

end FieldPipeline
