/-!
# Texts in pieces

A text splits at a separator into one piece more than the separator occurs, and joining the pieces
with the separator gives the text back. The segments of a dotted text are its pieces between dots.
Characters that are written by their code take hexadecimal digits, which are read in either case.
-/

namespace FieldPipeline

namespace Text

def pieces (sep : Char) : List Char → List (List Char)
  | [] => [[]]
  | c :: rest =>
    if c = sep then [] :: pieces sep rest
    else
      match pieces sep rest with
      | [] => [[c]]
      | piece :: others => (c :: piece) :: others

variable {sep : Char}

@[simp] theorem pieces_nil : pieces sep [] = [[]] := rfl

theorem pieces_ne_nil (sep : Char) (text : List Char) : pieces sep text ≠ [] := by
  cases text with
  | nil => simp
  | cons c rest =>
    rw [pieces]
    split
    · simp
    · split <;> simp

@[simp] theorem pieces_sep (rest : List Char) : pieces sep (sep :: rest) = [] :: pieces sep rest := by
  simp [pieces]

theorem pieces_cons_of_ne {c : Char} (h : c ≠ sep) (rest : List Char) :
    ∃ piece others, pieces sep rest = piece :: others ∧
      pieces sep (c :: rest) = (c :: piece) :: others := by
  obtain ⟨piece, others, hp⟩ := List.exists_cons_of_ne_nil (pieces_ne_nil sep rest)
  exact ⟨piece, others, hp, by simp [pieces, h, hp]⟩

theorem intercalate_pieces (text : List Char) : [sep].intercalate (pieces sep text) = text := by
  induction text with
  | nil => rfl
  | cons c rest ih =>
    by_cases h : c = sep
    · subst h
      obtain ⟨piece, others, hp⟩ := List.exists_cons_of_ne_nil (pieces_ne_nil c rest)
      rw [pieces_sep, hp]
      rw [hp] at ih
      simpa [List.intercalate] using ih
    · obtain ⟨piece, others, hp, hc⟩ := pieces_cons_of_ne h rest
      rw [hc]
      rw [hp] at ih
      cases others <;> simp_all [List.intercalate]

/-- The lower-case hexadecimal digit of a number below 16. -/
def hexDigit (n : Nat) : Char :=
  if n < 10 then Char.ofNat ('0'.toNat + n) else Char.ofNat ('a'.toNat + (n - 10))

def hexValue? (c : Char) : Option Nat :=
  if '0' ≤ c ∧ c ≤ '9' then some (c.toNat - '0'.toNat)
  else if 'a' ≤ c ∧ c ≤ 'f' then some (c.toNat - 'a'.toNat + 10)
  else if 'A' ≤ c ∧ c ≤ 'F' then some (c.toNat - 'A'.toNat + 10)
  else none

end Text

namespace Dots

def split (text : String) : List String :=
  (Text.pieces '.' text.toList).map String.ofList

def join (segments : List String) : String :=
  ".".intercalate segments

theorem split_ne_nil (text : String) : split text ≠ [] := by
  simp [split, Text.pieces_ne_nil]

@[simp] theorem toList_join (segments : List String) :
    (join segments).toList = ['.'].intercalate (segments.map String.toList) := by
  simp [join]

theorem join_split (text : String) : join (split text) = text := by
  apply String.toList_inj.1
  simp [split, List.map_map, Function.comp_def, Text.intercalate_pieces]

end Dots

end FieldPipeline
