import FieldPipeline.Json.ReadError
import FieldPipeline.Json.Text
import Mathlib.Algebra.Group.Int.Defs

/-!
# Texts that write a value

A value can be written with any blanks before, between and after its tokens, with its integers in
plain decimal and its strings escaped as the printer escapes them. The compact and the indented
text are two ways among many.
-/

namespace FieldPipeline.Json

def Blanks (cs : List Char) : Prop :=
  ∀ c ∈ cs, isBlank c = true

instance (cs : List Char) : Decidable (Blanks cs) :=
  decidable_of_iff (cs.all isBlank = true) List.all_eq_true

mutual

/-- The texts of a value, from its first character to its last. -/
inductive Bare : Json → List Char → Prop where
  | null : Bare .null ['n', 'u', 'l', 'l']
  | yes : Bare (.boolean true) ['t', 'r', 'u', 'e']
  | no : Bare (.boolean false) ['f', 'a', 'l', 's', 'e']
  | integer (n : Int) : Bare (.integer n) (integerText n)
  | string (s : String) : Bare (.string s) (quoted s)
  | emptyArray {inner : List Char} (hinner : Blanks inner) :
      Bare (.array []) ('[' :: (inner ++ [']']))
  | array {items : List Json} {inner : List Char} (hinner : WrittenItems items inner) :
      Bare (.array items) ('[' :: (inner ++ [']']))
  | emptyObject {inner : List Char} (hinner : Blanks inner) :
      Bare (.object []) ('{' :: (inner ++ ['}']))
  | object {members : List (String × Json)} {inner : List Char}
      (hinner : WrittenMembers members inner) :
      Bare (.object members) ('{' :: (inner ++ ['}']))

/-- The texts of a value, with blanks on both sides. -/
inductive Written : Json → List Char → Prop where
  | mk {v : Json} {before cs after : List Char} (hbefore : Blanks before) (hv : Bare v cs)
      (hafter : Blanks after) : Written v (before ++ (cs ++ after))

inductive WrittenItems : List Json → List Char → Prop where
  | last {v : Json} {cs : List Char} (hv : Written v cs) : WrittenItems [v] cs
  | more {v : Json} {cs : List Char} {vs : List Json} {rest : List Char} (hv : Written v cs)
      (hvs : WrittenItems vs rest) : WrittenItems (v :: vs) (cs ++ ',' :: rest)

inductive WrittenMembers : List (String × Json) → List Char → Prop where
  | last {name : String} {v : Json} {before gap cs : List Char} (hbefore : Blanks before)
      (hgap : Blanks gap) (hv : Written v cs) :
      WrittenMembers [(name, v)] (before ++ (quoted name ++ (gap ++ ':' :: cs)))
  | more {name : String} {v : Json} {before gap cs : List Char} {members : List (String × Json)}
      {rest : List Char} (hbefore : Blanks before) (hgap : Blanks gap) (hv : Written v cs)
      (hmembers : WrittenMembers members rest) :
      WrittenMembers ((name, v) :: members)
        (before ++ (quoted name ++ (gap ++ ':' :: (cs ++ ',' :: rest))))

end

theorem WrittenItems.exists_cons {vs : List Json} {cs : List Char} (h : WrittenItems vs cs) :
    ∃ v rest, vs = v :: rest := by
  cases h with
  | last _ => exact ⟨_, _, rfl⟩
  | more _ _ => exact ⟨_, _, rfl⟩

theorem WrittenMembers.exists_blanks_append {members : List (String × Json)} {cs : List Char}
    (h : WrittenMembers members cs) :
    ∃ before rest, cs = before ++ '"' :: rest ∧ Blanks before := by
  cases h with
  | last hbefore _ _ => exact ⟨_, _, rfl, hbefore⟩
  | more hbefore _ _ _ => exact ⟨_, _, rfl, hbefore⟩

theorem quoted_append (s : String) (rest : List Char) :
    quoted s ++ rest = '"' :: (s.toList.flatMap escape ++ '"' :: rest) := by
  simp [quoted]

theorem enclosed_append (opening closing : Char) (inner rest : List Char) :
    opening :: (inner ++ [closing]) ++ rest = opening :: (inner ++ closing :: rest) := by
  simp

theorem entry_append (before gap : List Char) (name : String) (cs rest : List Char) :
    before ++ (quoted name ++ (gap ++ ':' :: cs)) ++ rest =
      before ++ (quoted name ++ (gap ++ ':' :: (cs ++ rest))) := by
  simp

/-- All integers have 64 bits, with or without a sign. -/
inductive Sized : Json → Prop where
  | null : Sized .null
  | boolean (b : Bool) : Sized (.boolean b)
  | integer {n : Int} (hlow : -2 ^ 63 ≤ n) (hhigh : n < 2 ^ 64) : Sized (.integer n)
  | string (s : String) : Sized (.string s)
  | array {items : List Json} (hitems : ∀ v ∈ items, Sized v) : Sized (.array items)
  | object {members : List (String × Json)} (hmembers : ∀ member ∈ members, Sized member.2) :
      Sized (.object members)

def isDelimiter (c : Char) : Bool :=
  isBlank c || c = ',' || c = ']' || c = '}'

theorem not_blank_of_not_delimiter {c : Char} (hc : isDelimiter c = false) :
    isBlank c = false ∧ c ≠ ',' ∧ c ≠ ']' ∧ c ≠ '}' := by
  simpa [isDelimiter, and_assoc] using hc

/-- A rest of text that can follow a complete value: it is empty, or begins with a blank, a comma
or a closing bracket. -/
def Delimited (rest : List Char) : Prop :=
  ∀ c ∈ rest.head?, isDelimiter c = true

theorem delimited_nil : Delimited [] := by
  intro c hc
  cases hc

theorem delimited_cons {c : Char} (h : isDelimiter c = true) (rest : List Char) :
    Delimited (c :: rest) := by
  intro d hd
  cases hd
  exact h

theorem Delimited.blanks_append {rest blanks : List Char} (h : Delimited rest)
    (hblanks : Blanks blanks) : Delimited (blanks ++ rest) := by
  cases blanks with
  | nil => exact h
  | cons c blanks =>
    have hc : isBlank c = true := hblanks c List.mem_cons_self
    exact delimited_cons (by simp [isDelimiter, hc]) (blanks ++ rest)

end FieldPipeline.Json
