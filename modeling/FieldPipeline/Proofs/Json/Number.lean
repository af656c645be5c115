import FieldPipeline.Json.Number
import FieldPipeline.Proofs.Json.Written

/-!
# Reading written integers

The machine for numbers takes the decimal text of an integer to its last digit, stays there until a
delimiter comes, and has found the integer if that has 64 bits.
-/

namespace FieldPipeline.Json

theorem digit?_digitChar : ∀ d, d < 10 → digit? (Nat.digitChar d) = some d := by
  decide

theorem integerText_of_nonneg {n : Int} (h : 0 ≤ n) :
    integerText n = Nat.toDigits 10 n.natAbs := by
  rw [integerText, Int.toString_eq_repr, Int.repr_eq_if, if_pos h, Nat.toList_repr]
  congr 1
  omega

theorem integerText_of_neg {n : Int} (h : n < 0) :
    integerText n = '-' :: Nat.toDigits 10 n.natAbs := by
  have hn : ¬ 0 ≤ n := by omega
  have habs : (-n).toNat = n.natAbs := by omega
  rw [integerText, Int.toString_eq_repr, Int.repr_eq_if, if_neg hn, String.toList_append,
    Nat.toList_repr, habs]
  rfl

namespace Number

/-- All characters belong to the number, which grows by them. -/
inductive Grows : Number → List Char → Number → Prop where
  | nil (n : Number) : Grows n [] n
  | cons {n n' n'' : Number} {c : Char} {cs : List Char} (hstep : n.step c = .ok (some n'))
      (hrest : Grows n' cs n'') : Grows n (c :: cs) n''

theorem Grows.append {n n' n'' : Number} {cs cs' : List Char} (h : Grows n cs n')
    (h' : Grows n' cs' n'') : Grows n (cs ++ cs') n'' := by
  induction h with
  | nil => exact h'
  | cons hstep _ ih => exact .cons hstep (ih h')

def integral (negative : Bool) (digits : List Nat) : Number where
  phase := if digits = [0] then .zero else .whole
  negative := negative
  whole := digits

variable {negative : Bool} {digits : List Nat}

theorem start?_digitChar : ∀ d, d < 10 → start? (Nat.digitChar d) = some (integral false [d]) := by
  decide

theorem step_sign_digitChar {d : Nat} (hd : d < 10) :
    step ⟨.sign, true, [], [], false, [], false⟩ (Nat.digitChar d) =
      .ok (some (integral true [d])) := by
  simp [step, digit?_digitChar d hd, integral]

theorem step_integral_digitChar (hzero : digits ≠ [0]) (hnil : digits ≠ []) {d : Nat}
    (hd : d < 10) :
    (integral negative digits).step (Nat.digitChar d) =
      .ok (some (integral negative (d :: digits))) := by
  simp [integral, step, digit?_digitChar d hd, hzero, hnil]

/-- The digits after the first one, whatever the sign. -/
theorem grows_toDigits (negative : Bool) (k : Nat) :
    ∃ d cs digits, Nat.toDigits 10 k = Nat.digitChar d :: cs ∧ d < 10 ∧
      Grows (integral negative [d]) cs (integral negative digits) ∧ digits ≠ [] ∧
      ofDigits digits = k := by
  induction k using Nat.strongRecOn with
  | ind k ih =>
    by_cases hk : k < 10
    · exact ⟨k, [], [k], Nat.toDigits_of_lt_base hk, hk, .nil _, List.cons_ne_nil _ _,
        by simp [ofDigits]⟩
    · obtain ⟨d, cs, digits, htext, hd, hgrows, hnil, hvalue⟩ := ih (k / 10) (by omega)
      have hzero : digits ≠ [0] := by
        rintro rfl
        have hquotient : k / 10 = 0 := hvalue.symm
        omega
      have hlast : k % 10 < 10 := Nat.mod_lt k (by omega)
      refine ⟨d, cs ++ [Nat.digitChar (k % 10)], k % 10 :: digits, ?_, hd, ?_,
        List.cons_ne_nil _ _, ?_⟩
      · rw [Nat.toDigits_of_base_le (by omega) (by omega), htext, List.cons_append]
      · exact hgrows.append (.cons (step_integral_digitChar hzero hnil hlast) (.nil _))
      · have hfold : ofDigits (k % 10 :: digits) = 10 * ofDigits digits + k % 10 := rfl
        rw [hfold, hvalue]
        omega

theorem grows_integerText (n : Int) :
    ∃ c cs first digits, integerText n = c :: cs ∧ start? c = some first ∧
      Grows first cs (integral (decide (n < 0)) digits) ∧ ofDigits digits = n.natAbs := by
  by_cases hn : n < 0
  · obtain ⟨d, cs, digits, htext, hd, hgrows, -, hvalue⟩ := grows_toDigits true n.natAbs
    refine ⟨'-', Nat.digitChar d :: cs, ⟨.sign, true, [], [], false, [], false⟩, digits,
      ?_, rfl, ?_, hvalue⟩
    · rw [integerText_of_neg hn, htext]
    · rw [decide_eq_true hn]
      exact .cons (step_sign_digitChar hd) hgrows
  · obtain ⟨d, cs, digits, htext, hd, hgrows, -, hvalue⟩ := grows_toDigits false n.natAbs
    refine ⟨Nat.digitChar d, cs, integral false [d], digits, ?_, start?_digitChar d hd, ?_, hvalue⟩
    · rw [integerText_of_nonneg (by omega), htext]
    · rw [decide_eq_false hn]
      exact hgrows

theorem complete_integral : (integral negative digits).complete = true := by
  by_cases h : digits = [0] <;> simp [integral, complete, h]

theorem ne_of_start? {c d : Char} {n : Number} (h : start? c = some n) (hd : start? d = none) :
    c ≠ d := by
  rintro rfl
  rw [h] at hd
  cases hd

theorem eq_of_isDelimiter {c : Char} (h : isDelimiter c = true) :
    c = ' ' ∨ c = '\t' ∨ c = '\n' ∨ c = '\r' ∨ c = ',' ∨ c = ']' ∨ c = '}' := by
  simpa [isDelimiter, isBlank, or_assoc] using h

theorem isDelimiter_of_start? {c : Char} {n : Number} (h : start? c = some n) :
    isDelimiter c = false := by
  cases hc : isDelimiter c with
  | false => rfl
  | true =>
    rcases eq_of_isDelimiter hc with rfl | rfl | rfl | rfl | rfl | rfl | rfl <;> cases h

theorem step_integral_delimiter {c : Char} (hc : isDelimiter c = true) :
    (integral negative digits).step c = .ok none := by
  by_cases h : digits = [0] <;>
    rcases eq_of_isDelimiter hc with rfl | rfl | rfl | rfl | rfl | rfl | rfl <;>
      simp [integral, step, digit?, afterWhole, h, Char.isDigit]

/-- An integer of 64 bits is found as it is. -/
theorem found_integral {n : Int} (hlow : -2 ^ 63 ≤ n) (hhigh : n < 2 ^ 64)
    (hvalue : ofDigits digits = n.natAbs) :
    (integral (decide (n < 0)) digits).found = .ok (.integer n) := by
  by_cases hn : n < 0
  · have hpos : n.natAbs ≠ 0 := by omega
    have hle : n.natAbs ≤ 0x8000000000000000 := by omega
    have habs : -((n.natAbs : Nat) : Int) = n := by omega
    simp only [integral, found, decide_eq_true hn, hvalue, Bool.false_eq_true, if_false, if_true,
      if_neg hpos, if_pos hle, habs]
  · have hlt : n.natAbs < 0x10000000000000000 := by omega
    have habs : ((n.natAbs : Nat) : Int) = n := by omega
    simp only [integral, found, decide_eq_false hn, hvalue, Bool.false_eq_true, if_false,
      if_pos hlt, habs]

end Number

/-- The first character of a written value tells its kind, and is no delimiter. -/
theorem Bare.exists_cons {v : Json} {cs : List Char} (h : Bare v cs) :
    ∃ c rest, cs = c :: rest ∧ isDelimiter c = false ∧ (c = 'n' ↔ v = .null) ∧
      (c = '"' ↔ ∃ s, v = .string s) ∧ (c = '[' ↔ ∃ items, v = .array items) ∧
      (c = '{' ↔ ∃ members, v = .object members) := by
  cases h with
  | null => exact ⟨_, _, rfl, by simp [isDelimiter, isBlank]⟩
  | yes => exact ⟨_, _, rfl, by simp [isDelimiter, isBlank]⟩
  | no => exact ⟨_, _, rfl, by simp [isDelimiter, isBlank]⟩
  | integer n =>
    obtain ⟨c, cs, first, digits, htext, hfirst, -, -⟩ := Number.grows_integerText n
    have hn : c ≠ 'n' := Number.ne_of_start? hfirst rfl
    have hquote : c ≠ '"' := Number.ne_of_start? hfirst rfl
    have hbracket : c ≠ '[' := Number.ne_of_start? hfirst rfl
    have hbrace : c ≠ '{' := Number.ne_of_start? hfirst rfl
    exact ⟨c, cs, htext, Number.isDelimiter_of_start? hfirst, by simp [hn], by simp [hquote],
      by simp [hbracket], by simp [hbrace]⟩
  | string s => exact ⟨_, _, rfl, by simp [isDelimiter, isBlank]⟩
  | emptyArray _ => exact ⟨_, _, rfl, by simp [isDelimiter, isBlank]⟩
  | array _ => exact ⟨_, _, rfl, by simp [isDelimiter, isBlank]⟩
  | emptyObject _ => exact ⟨_, _, rfl, by simp [isDelimiter, isBlank]⟩
  | object _ => exact ⟨_, _, rfl, by simp [isDelimiter, isBlank]⟩

/-- After some blanks there is something else than a delimiter. -/
def Begun (cs : List Char) : Prop :=
  ∃ blanks c rest, cs = blanks ++ c :: rest ∧ Blanks blanks ∧ isDelimiter c = false

theorem Begun.append {cs : List Char} (h : Begun cs) (rest : List Char) : Begun (cs ++ rest) := by
  obtain ⟨blanks, c, tail, rfl, hblanks, hc⟩ := h
  exact ⟨blanks, c, tail ++ rest, List.append_assoc _ _ _, hblanks, hc⟩

theorem Written.begun {v : Json} {cs : List Char} (h : Written v cs) : Begun cs := by
  cases h with
  | mk hbefore hv hafter =>
    obtain ⟨c, tail, rfl, hc, -⟩ := hv.exists_cons
    exact ⟨_, c, _, rfl, hbefore, hc⟩

theorem WrittenItems.begun {vs : List Json} {cs : List Char} (h : WrittenItems vs cs) :
    Begun cs := by
  cases h with
  | last hv => exact hv.begun
  | more hv _ => exact hv.begun.append _

end FieldPipeline.Json
