import FieldPipeline.Yaml.Scalar

/-!
# Text of one line

Printable ASCII characters stay on their line, and each is one byte and one column further than the
one before. Between double quotes, all of them but the quote and the backslash stand for themselves.
-/

namespace FieldPipeline

namespace Text

def Ascii (c : Char) : Prop :=
  0x20 ≤ c.toNat ∧ c.toNat ≤ 0x7E

instance (c : Char) : Decidable (Ascii c) :=
  inferInstanceAs (Decidable (_ ∧ _))

/-- A text of printable ASCII characters that needs no escape between double quotes. -/
def Unescaped (s : String) : Prop :=
  ∀ c ∈ s.toList, Ascii c ∧ c ≠ '"' ∧ c ≠ '\\'

instance (s : String) : Decidable (Unescaped s) :=
  List.decidableBAll _ s.toList

theorem Ascii.utf8Size {c : Char} (h : Ascii c) : c.utf8Size = 1 := by
  rw [Char.utf8Size_eq_one_iff, UInt32.le_iff_toNat_le]
  exact Nat.le_trans h.2 (by decide)

/-- A printable character is none of the others. -/
theorem Ascii.ne {c d : Char} (h : Ascii c) (hd : ¬ Ascii d) : c ≠ d := by
  rintro rfl
  exact hd h

end Text

namespace Yaml

open Text

theorem isAllowed_of_ascii {c : Char} (h : Ascii c) : isAllowed c = true := by
  have hrange : 0x20 ≤ c.toNat ∧ c.toNat ≤ 0x7E := h
  simp [isAllowed, hrange]

theorem isBreak_of_ascii {c : Char} (h : Ascii c) : isBreak c = false := by
  have hfeed := h.ne (d := '\n') (by decide)
  have hline := h.ne (d := '\u2028') (by decide)
  have hparagraph := h.ne (d := '\u2029') (by decide)
  simp [isBreak, hfeed, hline, hparagraph]

theorem isEnd_of_ascii {c : Char} (h : Ascii c) : isEnd c = false := by
  have hnull := h.ne (d := '\x00') (by decide)
  simp [isEnd, hnull]

/-- Characters on the first line from a column on, each one byte long so far. -/
def onLine (cs : List Char) (column : Nat) : List Placed :=
  place cs column 0 column

@[simp] theorem onLine_nil (column : Nat) : onLine [] column = [⟨'\x00', column, 0, column⟩] := rfl

theorem onLine_cons {c : Char} (h : Ascii c) (cs : List Char) (column : Nat) :
    onLine (c :: cs) column = ⟨c, column, 0, column⟩ :: onLine cs (column + 1) := by
  have hreturn := h.ne (d := '\r') (by decide)
  have hnext := h.ne (d := '\u0085') (by decide)
  have hbreak := isBreak_of_ascii h
  rw [onLine, place]
  · simp [hreturn, hnext, hbreak, h.utf8Size, onLine]
  · intro rest heq
    exact absurd heq hreturn

theorem startsMark_of_ne {c : Char} {p : Placed} (h : p.char ≠ c) (ps : List Placed) :
    startsMark c (p :: ps) = false := by
  cases ps with
  | nil => rfl
  | cons q ps =>
    cases ps with
    | nil => rfl
    | cons r ps => simp [startsMark, h]

/-- Document marks stand at the start of a line. -/
theorem atDocumentMark_of_column {p : Placed} (h : p.column ≠ 0) (ps : List Placed) :
    atDocumentMark (p :: ps) = false := by
  simp [atDocumentMark, h]

theorem Gap.chars_addBlank {gap : Gap} (h : gap.isBroken = false) (c : Char) :
    (gap.addBlank c).isBroken = false ∧ (gap.addBlank c).chars = c :: gap.chars := by
  cases gap with
  | none => exact ⟨rfl, rfl⟩
  | blanks chars => exact ⟨rfl, rfl⟩
  | broken first more => cases h

/-- Between quotes, characters that need no escape are read as they are, blanks included. -/
theorem scanDouble_onLine {cs : List Char} (h : ∀ c ∈ cs, Ascii c ∧ c ≠ '"' ∧ c ≠ '\\')
    (text : List Char) {gap : Gap} (hgap : gap.isBroken = false) {column : Nat}
    (hcolumn : column ≠ 0) (more : List Char) :
    scanDouble text gap .text (onLine (cs ++ '"' :: more) column) =
      some (String.ofList ((gap.chars ++ text).reverse ++ cs),
        onLine more (column + cs.length + 1)) := by
  induction cs generalizing text gap column with
  | nil =>
    have hquote : Ascii '"' := by decide
    rw [List.nil_append, onLine_cons hquote, scanDouble]
    simp [isBlank, isBreak_of_ascii hquote, isEnd_of_ascii hquote, atDocumentMark_of_column,
      hcolumn]
  | cons c cs ih =>
    obtain ⟨⟨hascii, hquote, hslash⟩, hcs⟩ := List.forall_mem_cons.1 h
    have hlength : column + 1 + cs.length + 1 = column + (c :: cs).length + 1 := by
      rw [List.length_cons]
      omega
    rw [List.cons_append, onLine_cons hascii, scanDouble]
    by_cases hblank : isBlank c = true
    · -- The blanks wait in the gap, since a line end behind them would drop them.
      obtain ⟨hbroken, hchars⟩ := Gap.chars_addBlank hgap c
      simp only [hblank, if_true]
      rw [ih hcs text hbroken (by omega), hchars, hlength]
      simp
    · simp only [hblank, isBreak_of_ascii hascii, isEnd_of_ascii hascii, hquote, hslash,
        atDocumentMark_of_column, ne_eq, hcolumn, not_false_eq_true, Bool.or_self,
        Bool.false_eq_true, if_false]
      rw [ih hcs _ rfl (by omega), hlength]
      simp [Gap.chars]

/-- A text that needs no escape, behind its opening quote. -/
theorem scanDouble_unescaped {s : String} (h : Unescaped s) (column : Nat) (more : List Char) :
    scanDouble [] .none .text (onLine (s.toList ++ '"' :: more) (column + 1)) =
      some (s, onLine more (column + (s.toList.length + 2))) := by
  rw [scanDouble_onLine h [] rfl (Nat.succ_ne_zero column)]
  have hend : column + 1 + s.toList.length + 1 = column + (s.toList.length + 2) := by omega
  rw [hend]
  simp [Gap.chars]

end Yaml

end FieldPipeline
