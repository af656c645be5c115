import FieldPipeline.Proofs.Json.TextList
import Mathlib.Data.List.Forall2

/-!
# Spellings of a string

Inside a string a character is written as itself, by a backslash and a letter, or by the hexadecimal
digits of its code, which become two blocks of digits above U+FFFF. The ways can be chosen anew for
every character. However the strings of an array are spelled, they read back as the same strings.
-/

namespace FieldPipeline.Json

def letters : List (Char × Char) :=
  [('"', '"'), ('\\', '\\'), ('/', '/'), ('b', '\x08'), ('f', '\x0c'), ('n', '\n'), ('r', '\r'),
    ('t', '\t')]

def HexDigit (n : Nat) (d : Char) : Prop :=
  n < 16 ∧ (d = Text.hexDigit n ∨ d = (Text.hexDigit n).toUpper)

instance (n : Nat) (d : Char) : Decidable (HexDigit n d) :=
  inferInstanceAs (Decidable (n < 16 ∧ (d = Text.hexDigit n ∨ d = (Text.hexDigit n).toUpper)))

/-- A number in four hexadecimal digits. -/
def FourDigits (n : Nat) (digits : List Char) : Prop :=
  List.Forall₂ HexDigit [n / 0x1000, n / 0x100 % 16, n / 0x10 % 16, n % 16] digits

instance (n : Nat) (digits : List Char) : Decidable (FourDigits n digits) :=
  inferInstanceAs (Decidable (List.Forall₂ HexDigit _ digits))

def leadingHalf (c : Char) : Nat :=
  0xD800 + (c.toNat - 0x10000) / 0x400

def trailingHalf (c : Char) : Nat :=
  0xDC00 + (c.toNat - 0x10000) % 0x400

/-- The ways to write a character inside a string. -/
inductive Spelling (c : Char) : List Char → Prop where
  | raw (hquote : c ≠ '"') (hslash : c ≠ '\\') (hcontrol : 0x20 ≤ c.toNat) : Spelling c [c]
  | short {letter : Char} (h : (letter, c) ∈ letters) : Spelling c ['\\', letter]
  | code {digits : List Char} (h : FourDigits c.toNat digits) : Spelling c ('\\' :: 'u' :: digits)
  | pair {leading trailing : List Char} (hlarge : 0x10000 ≤ c.toNat)
      (hleading : FourDigits (leadingHalf c) leading)
      (htrailing : FourDigits (trailingHalf c) trailing) :
      Spelling c ('\\' :: 'u' :: (leading ++ '\\' :: 'u' :: trailing))

inductive Spelled : List Char → List Char → Prop where
  | nil : Spelled [] []
  | cons {c : Char} {cs text rest : List Char} (hc : Spelling c text) (hcs : Spelled cs rest) :
      Spelled (c :: cs) (text ++ rest)

/-- The ways to write at least one string, with a comma between neighbours and any blanks. -/
inductive SpelledItems : List String → List Char → Prop where
  | last {s : String} {before text after : List Char} (hbefore : Blanks before)
      (hs : Spelled s.toList text) (hafter : Blanks after) :
      SpelledItems [s] (before ++ '"' :: (text ++ '"' :: after))
  | more {s : String} {before text after : List Char} {texts : List String} {rest : List Char}
      (hbefore : Blanks before) (hs : Spelled s.toList text) (hafter : Blanks after)
      (hrest : SpelledItems texts rest) :
      SpelledItems (s :: texts) (before ++ '"' :: (text ++ '"' :: (after ++ ',' :: rest)))

inductive SpelledArray : List String → List Char → Prop where
  | empty {inner : List Char} (hinner : Blanks inner) : SpelledArray [] ('[' :: (inner ++ [']']))
  | items {texts : List String} {inner : List Char} (hinner : SpelledItems texts inner) :
      SpelledArray texts ('[' :: (inner ++ [']']))

theorem shortEscape?_of_mem {letter c : Char} (h : (letter, c) ∈ letters) :
    shortEscape? letter = some c := by
  have hall : ∀ entry ∈ letters, shortEscape? entry.1 = some entry.2 := by decide
  exact hall (letter, c) h

theorem HexDigit.read {n : Nat} {d : Char} (h : HexDigit n d) :
    Text.hexValue? d = some n ∧ d.utf8Size = 1 := by
  have hupper : ∀ n, n < 16 → Text.hexValue? (Text.hexDigit n).toUpper = some n ∧
      (Text.hexDigit n).toUpper.utf8Size = 1 := by decide
  obtain ⟨hn, rfl | rfl⟩ := h
  · exact ⟨hexValue?_hexDigit n hn, utf8Size_hexDigit n hn⟩
  · exact hupper n hn

theorem FourDigits.exists_digits {n : Nat} {digits : List Char} (h : FourDigits n digits) :
    ∃ a b c d, digits = [a, b, c, d] ∧ HexDigit (n / 0x1000) a ∧ HexDigit (n / 0x100 % 16) b ∧
      HexDigit (n / 0x10 % 16) c ∧ HexDigit (n % 16) d := by
  obtain _ | ⟨ha, _ | ⟨hb, _ | ⟨hc, _ | ⟨hd, _ | _⟩⟩⟩⟩ := h
  exact ⟨_, _, _, _, rfl, ha, hb, hc, hd⟩

theorem isLeading_leadingHalf {c : Char} (h : 0x10000 ≤ c.toNat) :
    isLeading (leadingHalf c) = true := by
  have hvalid := toNat_cases c
  rw [isLeading, leadingHalf, decide_eq_true_iff]
  omega

theorem isTrailing_leadingHalf {c : Char} (h : 0x10000 ≤ c.toNat) :
    isTrailing (leadingHalf c) = false := by
  have hvalid := toNat_cases c
  rw [isTrailing, leadingHalf, decide_eq_false_iff_not]
  omega

theorem isTrailing_trailingHalf (c : Char) : isTrailing (trailingHalf c) = true := by
  rw [isTrailing, trailingHalf, decide_eq_true_iff]
  omega

/-- The halves of a surrogate pair go together again. -/
theorem pairChar_halves {c : Char} (h : 0x10000 ≤ c.toNat) :
    pairChar (leadingHalf c) (trailingHalf c) = c := by
  have hcode : 0x10000 + (leadingHalf c - 0xD800) * 0x400 + (trailingHalf c - 0xDC00) = c.toNat := by
    rw [leadingHalf, trailingHalf]
    omega
  rw [pairChar, hcode, Char.ofNat_toNat]

section Reading

variable {ρ : Type} {finish : Quoted → ReadError} {next : String → List Char → Except ReadError ρ}

theorem through_fourDigits (read : List Char) (lead : Option Nat) {n : Nat} {digits : List Char}
    (h : FourDigits n digits) {q : Quoted} (hclose : Quoted.closeHex true read lead n = .ok q)
    (rest : List Char) :
    through (Quoted.step true) finish next (.hex read lead 0 (some 0)) (digits ++ rest) =
      through (Quoted.step true) finish next q rest := by
  obtain ⟨a, b, c, d, rfl, ha, hb, hc, hd⟩ := h.exists_digits
  have hvalue : 16 * (16 * (16 * (n / 0x1000) + n / 0x100 % 16) + n / 0x10 % 16) + n % 16 = n := by
    omega
  have hsizes : ∀ e ∈ [a, b, c, d], e.utf8Size = 1 := by
    simp [ha.read.2, hb.read.2, hc.read.2, hd.read.2]
  exact through_hexBlock true read lead ha.read.1 hb.read.1 hc.read.1 hd.read.1 hsizes
    (by rw [hvalue, hclose]) rest

/-- However a character is written, it is read as itself. -/
theorem through_spelling (read : List Char) {c : Char} {text : List Char} (h : Spelling c text)
    (rest : List Char) :
    through (Quoted.step true) finish next (.plain read) (text ++ rest) =
      through (Quoted.step true) finish next (.plain (c :: read)) rest := by
  cases h with
  | raw hquote hslash hcontrol =>
    exact through_raw true read hquote hslash (by omega) rest
  | short hletter => exact through_shortEscape true read (shortEscape?_of_mem hletter) rest
  | code hdigits =>
    rw [List.cons_append, List.cons_append, through_codeEscape]
    exact through_fourDigits read none hdigits (closeHex_toNat read c) rest
  | @pair leading trailing hlarge hleading htrailing =>
    have hfirst : Quoted.closeHex true read none (leadingHalf c) =
        .ok (.pair read (leadingHalf c)) := by
      simp [Quoted.closeHex, isTrailing_leadingHalf hlarge, isLeading_leadingHalf hlarge]
    have hsecond : Quoted.closeHex true read (some (leadingHalf c)) (trailingHalf c) =
        .ok (.plain (c :: read)) := by
      simp [Quoted.closeHex, isTrailing_trailingHalf, pairChar_halves hlarge]
    rw [List.cons_append, List.cons_append, through_codeEscape, List.append_assoc,
      through_fourDigits read none hleading hfirst, List.cons_append, List.cons_append,
      through_more (.pairEscape read (leadingHalf c)) (by simp [Quoted.step]),
      through_more (.hex read (some (leadingHalf c)) 0 (some 0)) (by simp [Quoted.step])]
    exact through_fourDigits read (some (leadingHalf c)) htrailing hsecond rest

theorem through_spelled {cs text : List Char} (h : Spelled cs text) (read rest : List Char) :
    through (Quoted.step true) finish next (.plain read) (text ++ rest) =
      through (Quoted.step true) finish next (.plain (cs.reverse ++ read)) rest := by
  induction h generalizing read with
  | nil => rfl
  | cons hc hcs ih =>
    rw [List.append_assoc, through_spelling read hc, ih, List.reverse_cons, List.append_assoc,
      List.singleton_append]

/-- However a string is written, it is read as itself. -/
theorem through_spelled_quote {s : String} {text : List Char} (h : Spelled s.toList text)
    (rest : List Char) :
    through (Quoted.step true) finish next .opened (text ++ '"' :: rest) = next s rest := by
  rw [Quoted.opened, through_spelled h]
  exact through_done s (by simp [Quoted.step]) rest

end Reading

theorem SpelledItems.begun {texts : List String} {cs : List Char} (h : SpelledItems texts cs) :
    Begun cs := by
  cases h with
  | last hbefore _ _ => exact ⟨_, '"', _, rfl, hbefore, by decide⟩
  | more hbefore _ _ _ => exact ⟨_, '"', _, rfl, hbefore, by decide⟩

namespace TextList

variable {ρ : Type} {next : List String → List Char → Except ReadError ρ}

theorem through_spelledItem (items : List String) {s : String} {before text after : List Char}
    (hbefore : Blanks before) (hs : Spelled s.toList text) (hafter : Blanks after)
    (rest : List Char) :
    through step finish next (.next items) (before ++ '"' :: (text ++ '"' :: (after ++ rest))) =
      through step finish next (.after (s :: items)) rest := by
  rw [through_blanks (Waits.next items).step_blank hbefore, through_more (.item items .opened) rfl,
    through_item, through_spelled_quote hs, through_blanks (Waits.after (s :: items)).step_blank hafter]

theorem through_spelledItems {texts : List String} {cs : List Char} (h : SpelledItems texts cs)
    (items : List String) (rest : List Char) :
    through step finish next (.next items) (cs ++ ']' :: rest) =
      next (items.reverse ++ texts) rest := by
  induction h generalizing items with
  | @last s before text after hbefore hs hafter =>
    have htext : before ++ '"' :: (text ++ '"' :: after) ++ ']' :: rest =
        before ++ '"' :: (text ++ '"' :: (after ++ ']' :: rest)) := by simp
    rw [htext, through_spelledItem items hbefore hs hafter,
      through_done (s :: items).reverse rfl, List.reverse_cons]
  | @more s before text after texts more hbefore hs hafter hrest ih =>
    have htext : before ++ '"' :: (text ++ '"' :: (after ++ ',' :: more)) ++ ']' :: rest =
        before ++ '"' :: (text ++ '"' :: (after ++ ',' :: (more ++ ']' :: rest))) := by simp
    rw [htext, through_spelledItem items hbefore hs hafter, through_more (.next (s :: items)) rfl,
      ih, List.reverse_cons, List.append_assoc, List.singleton_append]

/-- However its strings are written, an array is read as their list. -/
theorem through_spelledArray {texts : List String} {cs : List Char} (h : SpelledArray texts cs)
    (rest : List Char) : through step finish next .start (cs ++ rest) = next texts rest := by
  cases h with
  | empty hinner =>
    rw [enclosed_append, through_more .first rfl, through_blanks Waits.first.step_blank hinner,
      through_done [] rfl]
  | items hinner =>
    rw [enclosed_append, through_more .first rfl, through_first hinner.begun]
    exact through_spelledItems hinner [] rest

end TextList

end FieldPipeline.Json
