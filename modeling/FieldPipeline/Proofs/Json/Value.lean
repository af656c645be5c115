import FieldPipeline.Proofs.Json.Number
import FieldPipeline.Proofs.Json.Printed
import FieldPipeline.Proofs.Json.Reading

/-!
# Reading any value

A reader that keeps everything: items and members in their order, members with equal names one by
one, strings character for character. It follows the grammar of written values, one function for
each of its relations, and reads every text that writes a value as that value. So no text writes two
values, and a printer never gives two values the same text.
-/

namespace FieldPipeline.Json

def string? (cs : List Char) : Option (String × List Char) :=
  (through (Quoted.step true) (fun _ => .endInText) (fun s rest => .ok (s, rest))
    .opened cs).toOption

/-- The number that the digits at the front of a text spell, and the text behind them. A zero in
front of other digits is refused. -/
def natural? (cs : List Char) : Option (Nat × List Char) :=
  let digits := cs.takeWhile Char.isDigit
  let n := Nat.ofDigitChars 10 digits 0
  if Nat.toDigits 10 n = digits then some (n, cs.dropWhile Char.isDigit) else none

def integer? : List Char → Option (Int × List Char)
  | [] => none
  | c :: cs =>
    if c = '-' then (natural? cs).map fun (n, rest) => (-n, rest)
    else (natural? (c :: cs)).map fun (n, rest) => (n, rest)

def scalar? (cs : List Char) : Option (Json × List Char) :=
  let word (letters : List Char) (v : Json) := (dropWord? letters cs).map fun rest => (v, rest)
  (word ['n', 'u', 'l', 'l'] .null).or <|
    (word ['t', 'r', 'u', 'e'] (.boolean true)).or <|
      (word ['f', 'a', 'l', 's', 'e'] (.boolean false)).or <|
        (integer? cs).map fun (n, rest) => (.integer n, rest)

def name? : List Char → Option (String × List Char)
  | '"' :: cs =>
    match string? cs with
    | some (name, rest) => (dropWord? [':'] (rest.dropWhile isBlank)).map fun rest => (name, rest)
    | none => none
  | _ => none

mutual

/-- The value that begins with the first character of a text, and the text behind it. As for the
functions below, the number bounds the work on the text and has to grow with its length. -/
def bare? : Nat → List Char → Option (Json × List Char)
  | fuel + 1, c :: rest =>
    if c = '"' then (string? rest).map fun (s, rest) => (.string s, rest)
    else if c = '[' then
      match rest.dropWhile isBlank with
      | ']' :: rest => some (.array [], rest)
      | _ => (items? fuel rest).map fun (vs, rest) => (.array vs, rest)
    else if c = '{' then
      match rest.dropWhile isBlank with
      | '}' :: rest => some (.object [], rest)
      | _ => (members? fuel rest).map fun (members, rest) => (.object members, rest)
    else scalar? (c :: rest)
  | _, _ => none

def value? : Nat → List Char → Option (Json × List Char)
  | 0, _ => none
  | fuel + 1, cs =>
    (bare? fuel (cs.dropWhile isBlank)).map fun (v, rest) => (v, rest.dropWhile isBlank)

def items? : Nat → List Char → Option (List Json × List Char)
  | 0, _ => none
  | fuel + 1, cs =>
    match value? fuel cs with
    | some (v, ',' :: rest) => (items? fuel rest).map fun (vs, rest) => (v :: vs, rest)
    | some (v, ']' :: rest) => some ([v], rest)
    | _ => none

def members? : Nat → List Char → Option (List (String × Json) × List Char)
  | 0, _ => none
  | fuel + 1, cs =>
    match name? (cs.dropWhile isBlank) with
    | some (name, rest) =>
      match value? fuel rest with
      | some (v, ',' :: rest) =>
        (members? fuel rest).map fun (members, rest) => ((name, v) :: members, rest)
      | some (v, '}' :: rest) => some ([(name, v)], rest)
      | _ => none
    | none => none

end

/-- The value that a text spells, if it is one value and nothing else. -/
def ofText? (text : String) : Option Json :=
  match value? (2 * text.toList.length + 1) text.toList with
  | some (v, []) => some v
  | _ => none

theorem dropWhile_blanks {blanks : List Char} (h : Blanks blanks) (rest : List Char) :
    (blanks ++ rest).dropWhile isBlank = rest.dropWhile isBlank :=
  List.dropWhile_append_of_pos h

theorem dropWhile_of_not_blank {c : Char} (h : isBlank c = false) (rest : List Char) :
    (c :: rest).dropWhile isBlank = c :: rest :=
  List.dropWhile_cons_of_neg (by simp [h])

theorem string?_quoted (s : String) (rest : List Char) :
    string? (s.toList.flatMap escape ++ '"' :: rest) = some (s, rest) := by
  rw [string?, through_quoted]
  rfl

theorem not_isDigit_of_delimiter {c : Char} (h : isDelimiter c = true) : c.isDigit = false := by
  rcases Number.eq_of_isDelimiter h with rfl | rfl | rfl | rfl | rfl | rfl | rfl <;> rfl

theorem natural?_toDigits (n : Nat) {rest : List Char} (hrest : Delimited rest) :
    natural? (Nat.toDigits 10 n ++ rest) = some (n, rest) := by
  have hdigits : ∀ c ∈ Nat.toDigits 10 n, c.isDigit = true := fun c hc =>
    Nat.isDigit_of_mem_toDigits (by decide) (by decide) hc
  have hend : rest.takeWhile Char.isDigit = [] ∧ rest.dropWhile Char.isDigit = rest := by
    cases rest with
    | nil => exact ⟨rfl, rfl⟩
    | cons c rest =>
      have hc : c.isDigit = false := not_isDigit_of_delimiter (hrest c rfl)
      simp [hc]
  have htake : (Nat.toDigits 10 n ++ rest).takeWhile Char.isDigit = Nat.toDigits 10 n := by
    rw [List.takeWhile_append_of_pos hdigits, hend.1, List.append_nil]
  have hdrop : (Nat.toDigits 10 n ++ rest).dropWhile Char.isDigit = rest := by
    rw [List.dropWhile_append_of_pos hdigits, hend.2]
  simp only [natural?, htake, hdrop, Nat.ofDigitChars_ten_toDigits, if_true]

theorem integer?_integerText (n : Int) {rest : List Char} (hrest : Delimited rest) :
    integer? (integerText n ++ rest) = some (n, rest) := by
  by_cases hn : n < 0
  · have habs : -(n.natAbs : Int) = n := by omega
    rw [integerText_of_neg hn, List.cons_append, integer?, if_pos rfl, natural?_toDigits _ hrest]
    simp only [Option.map_some, habs]
  · have habs : (n.natAbs : Int) = n := by omega
    have hread := natural?_toDigits n.natAbs hrest
    rw [integerText_of_nonneg (by omega)]
    obtain ⟨c, cs, hdigits⟩ :=
      List.exists_cons_of_ne_nil (Nat.toDigits_ne_nil (n := n.natAbs) (b := 10))
    have hc : c.isDigit = true :=
      Nat.isDigit_of_mem_toDigits (by decide) (by decide) (hdigits ▸ List.mem_cons_self)
    have hminus : c ≠ '-' := by
      rintro rfl
      cases hc
    rw [hdigits, List.cons_append] at hread ⊢
    rw [integer?, if_neg hminus, hread]
    simp only [Option.map_some, habs]

theorem scalar?_integerText (n : Int) {rest : List Char} (hrest : Delimited rest) :
    scalar? (integerText n ++ rest) = some (.integer n, rest) := by
  obtain ⟨c, cs, first, digits, htext, hfirst, -, -⟩ := Number.grows_integerText n
  have hn : 'n' ≠ c := (Number.ne_of_start? hfirst rfl).symm
  have ht : 't' ≠ c := (Number.ne_of_start? hfirst rfl).symm
  have hf : 'f' ≠ c := (Number.ne_of_start? hfirst rfl).symm
  have hread := integer?_integerText n hrest
  rw [htext, List.cons_append] at hread ⊢
  simp [scalar?, dropWord?, hn, ht, hf, hread]

theorem name?_entry {before gap : List Char} (hbefore : Blanks before) (name : String)
    (hgap : Blanks gap) (rest : List Char) :
    name? ((before ++ (quoted name ++ (gap ++ ':' :: rest))).dropWhile isBlank) =
      some (name, rest) := by
  have hcolon : (':' :: rest).dropWhile isBlank = ':' :: rest := dropWhile_of_not_blank rfl rest
  rw [dropWhile_blanks hbefore, quoted_append, dropWhile_of_not_blank rfl, name?, string?_quoted]
  simp only [dropWhile_blanks hgap, hcolon]
  rfl

theorem WrittenItems.dropWhile_ne {vs : List Json} {cs : List Char} (h : WrittenItems vs cs)
    (rest tail : List Char) : (cs ++ rest).dropWhile isBlank ≠ ']' :: tail := by
  obtain ⟨before, c, after, rfl, hbefore, hc⟩ := h.begun
  obtain ⟨hblank, -, hbracket, -⟩ := not_blank_of_not_delimiter hc
  rw [List.append_assoc, dropWhile_blanks hbefore, List.cons_append, dropWhile_of_not_blank hblank]
  exact fun heq => hbracket (List.cons.inj heq).1

theorem WrittenMembers.dropWhile_ne {members : List (String × Json)} {cs : List Char}
    (h : WrittenMembers members cs) (rest tail : List Char) :
    (cs ++ rest).dropWhile isBlank ≠ '}' :: tail := by
  obtain ⟨before, after, rfl, hbefore⟩ := h.exists_blanks_append
  rw [List.append_assoc, dropWhile_blanks hbefore, List.cons_append, dropWhile_of_not_blank rfl]
  exact fun heq => absurd (List.cons.inj heq).1 (by decide)

mutual

theorem bare?_of_bare {v : Json} {cs : List Char} (hv : Bare v cs) {fuel : Nat}
    (hfuel : 2 * cs.length ≤ fuel) {rest : List Char} (hrest : Delimited rest) :
    bare? fuel (cs ++ rest) = some (v, rest) := by
  obtain ⟨c, tail, hcs, -⟩ := hv.exists_cons
  obtain ⟨k, rfl⟩ : ∃ k, fuel = k + 1 := Nat.exists_eq_add_one.2 (by simp [hcs] at hfuel; omega)
  clear hcs
  match hv with
  | .null => rfl
  | .yes => rfl
  | .no => rfl
  | .integer n =>
    obtain ⟨c, cs, first, digits, htext, hfirst, -, -⟩ := Number.grows_integerText n
    have hquote : c ≠ '"' := Number.ne_of_start? hfirst rfl
    have hbracket : c ≠ '[' := Number.ne_of_start? hfirst rfl
    have hbrace : c ≠ '{' := Number.ne_of_start? hfirst rfl
    have hread := scalar?_integerText n hrest
    rw [htext, List.cons_append] at hread ⊢
    rw [bare?, if_neg hquote, if_neg hbracket, if_neg hbrace, hread]
  | .string s => rw [quoted_append, bare?, if_pos rfl, string?_quoted, Option.map_some]
  | @Bare.emptyArray inner hinner =>
    rw [enclosed_append, bare?, if_neg (by decide), if_pos rfl, dropWhile_blanks hinner,
      dropWhile_of_not_blank rfl]
    rfl
  | @Bare.array items inner hinner =>
    have hitems : items? k (inner ++ ']' :: rest) = some (items, rest) :=
      items?_of_written hinner (by simp at hfuel; omega) rest
    rw [enclosed_append, bare?, if_neg (by decide), if_pos rfl, hitems]
    split
    · rename_i tail heq
      exact absurd heq (hinner.dropWhile_ne (']' :: rest) tail)
    · rfl
  | @Bare.emptyObject inner hinner =>
    rw [enclosed_append, bare?, if_neg (by decide), if_neg (by decide), if_pos rfl,
      dropWhile_blanks hinner, dropWhile_of_not_blank rfl]
    rfl
  | @Bare.object members inner hinner =>
    have hmembers : members? k (inner ++ '}' :: rest) = some (members, rest) :=
      members?_of_written hinner (by simp at hfuel; omega) rest
    rw [enclosed_append, bare?, if_neg (by decide), if_neg (by decide), if_pos rfl, hmembers]
    split
    · rename_i tail heq
      exact absurd heq (hinner.dropWhile_ne ('}' :: rest) tail)
    · rfl

theorem value?_of_written {v : Json} {cs : List Char} (hv : Written v cs) {fuel : Nat}
    (hfuel : 2 * cs.length + 1 ≤ fuel) {rest : List Char} (hrest : Delimited rest) :
    value? fuel (cs ++ rest) = some (v, rest.dropWhile isBlank) := by
  match hv with
  | @Written.mk _ before cs after hbefore hv hafter =>
    obtain ⟨k, rfl⟩ : ∃ k, fuel = k + 1 := Nat.exists_eq_add_one.2 (by omega)
    have hread : bare? k (cs ++ (after ++ rest)) = some (v, after ++ rest) :=
      bare?_of_bare hv (by simp at hfuel; omega) (hrest.blanks_append hafter)
    obtain ⟨c, tail, hcs, hc, -⟩ := hv.exists_cons
    obtain ⟨hblank, -⟩ := not_blank_of_not_delimiter hc
    have hbegin : (cs ++ (after ++ rest)).dropWhile isBlank = cs ++ (after ++ rest) := by
      rw [hcs, List.cons_append, dropWhile_of_not_blank hblank]
    rw [List.append_assoc, List.append_assoc, value?, dropWhile_blanks hbefore, hbegin, hread]
    simp only [Option.map_some, dropWhile_blanks hafter]

theorem items?_of_written {vs : List Json} {cs : List Char} (hvs : WrittenItems vs cs) {fuel : Nat}
    (hfuel : 2 * cs.length + 2 ≤ fuel) (rest : List Char) :
    items? fuel (cs ++ ']' :: rest) = some (vs, rest) := by
  obtain ⟨k, rfl⟩ : ∃ k, fuel = k + 1 := Nat.exists_eq_add_one.2 (by omega)
  match hvs with
  | @WrittenItems.last v cs hv =>
    have hread : value? k (cs ++ ']' :: rest) = some (v, ']' :: rest) :=
      value?_of_written hv (by omega) (delimited_cons rfl rest)
    simp only [items?, hread]
  | @WrittenItems.more v cs vs more hv hvs =>
    have hread : value? k (cs ++ ',' :: (more ++ ']' :: rest)) =
        some (v, ',' :: (more ++ ']' :: rest)) :=
      value?_of_written hv (by simp at hfuel; omega) (delimited_cons rfl _)
    have hmore : items? k (more ++ ']' :: rest) = some (vs, rest) :=
      items?_of_written hvs (by simp at hfuel; omega) rest
    rw [List.append_assoc, List.cons_append]
    simp only [items?, hread, hmore, Option.map_some]

theorem members?_of_written {members : List (String × Json)} {cs : List Char}
    (hmembers : WrittenMembers members cs) {fuel : Nat} (hfuel : 2 * cs.length + 2 ≤ fuel)
    (rest : List Char) : members? fuel (cs ++ '}' :: rest) = some (members, rest) := by
  obtain ⟨k, rfl⟩ : ∃ k, fuel = k + 1 := Nat.exists_eq_add_one.2 (by omega)
  match hmembers with
  | @WrittenMembers.last name v before gap cs hbefore hgap hv =>
    have hread : value? k (cs ++ '}' :: rest) = some (v, '}' :: rest) :=
      value?_of_written hv (by simp at hfuel; omega) (delimited_cons rfl rest)
    rw [entry_append]
    simp only [members?, name?_entry hbefore name hgap, hread]
  | @WrittenMembers.more name v before gap cs members more hbefore hgap hv hmembers =>
    have hread : value? k (cs ++ ',' :: (more ++ '}' :: rest)) =
        some (v, ',' :: (more ++ '}' :: rest)) :=
      value?_of_written hv (by simp at hfuel; omega) (delimited_cons rfl _)
    have hmore : members? k (more ++ '}' :: rest) = some (members, rest) :=
      members?_of_written hmembers (by simp at hfuel; omega) rest
    rw [entry_append, List.append_assoc, List.cons_append]
    simp only [members?, name?_entry hbefore name hgap, hread, hmore, Option.map_some]

end

/-- A text that writes a value reads back as that value. -/
theorem ofText?_of_written {v : Json} {text : String} (h : Written v text.toList) :
    ofText? text = some v := by
  have hread := value?_of_written h (Nat.le_refl _) delimited_nil
  rw [List.append_nil] at hread
  rw [ofText?, hread]
  rfl

example : ofText? "[1, \x7b\"a\": -20, \"a\": \"\\u00e9\\/\"\x7d ]" =
    some (.array [.integer 1, .object [("a", .integer (-20)), ("a", .string "é/")]]) := by
  cbv

example : ofText? "[1,]" = none ∧ ofText? "01" = none ∧ ofText? "[1] 2" = none := by
  refine ⟨?_, ?_, ?_⟩ <;> cbv

/-- A text writes at most one value. -/
theorem Written.unique {v w : Json} {cs : List Char} (hv : Written v cs) (hw : Written w cs) :
    v = w := by
  rw [← String.toList_ofList (l := cs)] at hv hw
  exact Option.some.inj ((ofText?_of_written hv).symm.trans (ofText?_of_written hw))

/-- Compact texts tell values apart. -/
theorem compact_inj {v w : Json} : compact v = compact w ↔ v = w := by
  constructor
  · intro h
    have hw := written_compact w
    rw [← h] at hw
    exact (written_compact v).unique hw
  · rintro rfl
    rfl

end FieldPipeline.Json
