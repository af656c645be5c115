import FieldPipeline.Proofs.Json.Number
import FieldPipeline.Proofs.Json.Reading

/-!
# What indentation adds

The two printers differ in the spaces and line breaks between tokens only. Where a string ends
depends on its escapes, so a walk over the text keeps track of where it stands; without the layout
the indented text is the compact one. Compact texts have no control character at all.
-/

namespace FieldPipeline.Json

inductive Place where
  | outside
  | inside
  | escaped
deriving DecidableEq

def Place.next : Place → Char → Place
  | .outside, c => if c = '"' then .inside else .outside
  | .inside, c => if c = '"' then .outside else if c = '\\' then .escaped else .inside
  | .escaped, _ => .inside

/-- The text without the spaces and line breaks that stand outside its strings. -/
def withoutLayout : Place → List Char → List Char
  | _, [] => []
  | place, c :: cs =>
    if place = .outside ∧ (c = ' ' ∨ c = '\n') then withoutLayout place cs
    else c :: withoutLayout (place.next c) cs

theorem withoutLayout_inside (c : Char) (cs : List Char) :
    withoutLayout .inside (c :: cs) = c :: withoutLayout (Place.next .inside c) cs := rfl

theorem withoutLayout_escaped (c : Char) (cs : List Char) :
    withoutLayout .escaped (c :: cs) = c :: withoutLayout .inside cs := rfl

theorem withoutLayout_raw {c : Char} (hquote : c ≠ '"') (hslash : c ≠ '\\') (cs : List Char) :
    withoutLayout .inside (c :: cs) = c :: withoutLayout .inside cs := by
  rw [withoutLayout_inside, Place.next, if_neg hquote, if_neg hslash]

theorem hexDigit_ne : ∀ d, d < 16 → Text.hexDigit d ≠ '"' ∧ Text.hexDigit d ≠ '\\' := by
  decide

theorem withoutLayout_escape (c : Char) (rest : List Char) :
    withoutLayout .inside (escape c ++ rest) = escape c ++ withoutLayout .inside rest := by
  obtain ⟨letter, hescape, -, -⟩ | ⟨hescape, hcontrol⟩ | ⟨hescape, hquote, hslash, -⟩ :=
    escape_cases c
  · rw [hescape]
    rfl
  · have hhigh := hexDigit_ne (c.toNat / 16) (by omega)
    have hlow := hexDigit_ne (c.toNat % 16) (by omega)
    have hzero (cs : List Char) : withoutLayout .inside ('0' :: cs) =
        '0' :: withoutLayout .inside cs := withoutLayout_raw (by decide) (by decide) cs
    rw [hescape]
    simp only [List.cons_append, List.nil_append]
    rw [withoutLayout_inside, Place.next, if_neg (by decide), if_pos rfl, withoutLayout_escaped,
      hzero, hzero, withoutLayout_raw hhigh.1 hhigh.2, withoutLayout_raw hlow.1 hlow.2]
  · rw [hescape]
    exact withoutLayout_raw hquote hslash rest

theorem withoutLayout_quoted (s : String) (rest : List Char) :
    withoutLayout .outside (quoted s ++ rest) = quoted s ++ withoutLayout .outside rest := by
  have hescaped (cs rest : List Char) : withoutLayout .inside (cs.flatMap escape ++ rest) =
      cs.flatMap escape ++ withoutLayout .inside rest := by
    induction cs with
    | nil => rfl
    | cons c cs ih => rw [List.flatMap_cons, List.append_assoc, withoutLayout_escape, ih,
        List.append_assoc]
  rw [quoted_append, quoted_append]
  change '"' :: withoutLayout .inside _ = _
  rw [hescaped]
  rfl

/-- A character that is neither layout nor the beginning of a string. -/
def isToken (c : Char) : Bool :=
  c ≠ '"' ∧ c ≠ ' ' ∧ c ≠ '\n'

theorem withoutLayout_tokens {cs : List Char} (h : ∀ c ∈ cs, isToken c = true)
    (rest : List Char) :
    withoutLayout .outside (cs ++ rest) = cs ++ withoutLayout .outside rest := by
  induction cs with
  | nil => rfl
  | cons c cs ih =>
    obtain ⟨hquote, hspace, hbreak⟩ : c ≠ '"' ∧ c ≠ ' ' ∧ c ≠ '\n' := by
      simpa [isToken] using h c List.mem_cons_self
    have hrest := ih fun d hd => h d (List.mem_cons_of_mem c hd)
    rw [List.cons_append, withoutLayout, if_neg (by simp [hspace, hbreak]), Place.next,
      if_neg hquote, hrest, List.cons_append]

theorem withoutLayout_token {c : Char} (h : isToken c = true) (rest : List Char) :
    withoutLayout .outside (c :: rest) = c :: withoutLayout .outside rest :=
  withoutLayout_tokens (List.forall_mem_singleton.2 h) rest

theorem withoutLayout_newLine (depth : Nat) (rest : List Char) :
    withoutLayout .outside (newLine depth ++ rest) = withoutLayout .outside rest := by
  have hspaces (n : Nat) : withoutLayout .outside (List.replicate n ' ' ++ rest) =
      withoutLayout .outside rest := by
    induction n with
    | zero => rfl
    | succ n ih => exact ih
  exact hspaces (2 * depth)

/-- An integer is written with digits and a sign. -/
theorem mem_integerText {n : Int} {c : Char} (h : c ∈ integerText n) :
    c = '-' ∨ c.isDigit = true := by
  have hdigits : c ∈ Nat.toDigits 10 n.natAbs → c.isDigit = true :=
    Nat.isDigit_of_mem_toDigits (by decide) (by decide)
  by_cases hn : n < 0
  · rw [integerText_of_neg hn] at h
    exact (List.mem_cons.1 h).imp_right hdigits
  · rw [integerText_of_nonneg (by omega)] at h
    exact .inr (hdigits h)

theorem isToken_of_mem_integerText {n : Int} {c : Char} (h : c ∈ integerText n) :
    isToken c = true := by
  rcases mem_integerText h with rfl | hdigit
  · rfl
  · have hne {d : Char} (hd : d.isDigit = false) : c ≠ d := by
      rintro rfl
      rw [hdigit] at hd
      cases hd
    simp [isToken, hne (d := '"') rfl, hne (d := ' ') rfl, hne (d := '\n') rfl]

theorem withoutLayout_enclosed {opening closing : Char} (hopening : isToken opening = true)
    (hclosing : isToken closing = true) {indented compact : List Char}
    (h : ∀ rest, withoutLayout .outside (indented ++ rest) = compact ++ withoutLayout .outside rest)
    (depth : Nat) (rest : List Char) :
    withoutLayout .outside (opening :: indented ++ newLine depth ++ [closing] ++ rest) =
      opening :: compact ++ [closing] ++ withoutLayout .outside rest := by
  have htext : opening :: indented ++ newLine depth ++ [closing] ++ rest =
      opening :: (indented ++ (newLine depth ++ closing :: rest)) := by simp
  rw [htext, withoutLayout_token hopening, h, withoutLayout_newLine, withoutLayout_token hclosing]
  simp

theorem withoutLayout_entry {indented compact : List Char}
    (h : ∀ rest, withoutLayout .outside (indented ++ rest) = compact ++ withoutLayout .outside rest)
    (depth : Nat) (name : String) (rest : List Char) :
    withoutLayout .outside (newLine depth ++ quoted name ++ ':' :: ' ' :: indented ++ rest) =
      quoted name ++ ':' :: compact ++ withoutLayout .outside rest := by
  have htext : newLine depth ++ quoted name ++ ':' :: ' ' :: indented ++ rest =
      newLine depth ++ (quoted name ++ ':' :: ' ' :: (indented ++ rest)) := by simp
  have hspace (cs : List Char) : withoutLayout .outside (' ' :: cs) = withoutLayout .outside cs :=
    rfl
  rw [htext, withoutLayout_newLine, withoutLayout_quoted, withoutLayout_token rfl, hspace, h]
  simp

mutual

theorem withoutLayout_indentedChars : ∀ depth v rest,
    withoutLayout .outside (indentedChars depth v ++ rest) =
      compactChars v ++ withoutLayout .outside rest
  | _, .null, _ => rfl
  | _, .boolean true, _ => rfl
  | _, .boolean false, _ => rfl
  | _, .integer _, rest => withoutLayout_tokens (fun _ => isToken_of_mem_integerText) rest
  | _, .string s, rest => withoutLayout_quoted s rest
  | _, .array [], _ => rfl
  | depth, .array (v :: vs), rest =>
    withoutLayout_enclosed rfl rfl (withoutLayout_indentedItems (depth + 1) (v :: vs)) depth rest
  | _, .object [], _ => rfl
  | depth, .object (member :: members), rest =>
    withoutLayout_enclosed rfl rfl
      (withoutLayout_indentedMembers (depth + 1) (member :: members)) depth rest

theorem withoutLayout_indentedItems : ∀ depth vs rest,
    withoutLayout .outside (indentedItems depth vs ++ rest) =
      compactItems vs ++ withoutLayout .outside rest
  | _, [], _ => rfl
  | depth, [v], rest => by
    rw [indentedItems, List.append_assoc, withoutLayout_newLine, withoutLayout_indentedChars,
      compactItems]
  | depth, v :: w :: vs, rest => by
    have hitems := withoutLayout_indentedItems depth (w :: vs) rest
    have htext : indentedItems depth (v :: w :: vs) ++ rest = newLine depth ++
        (indentedChars depth v ++ ',' :: (indentedItems depth (w :: vs) ++ rest)) := by
      simp [indentedItems]
    rw [htext, withoutLayout_newLine, withoutLayout_indentedChars, withoutLayout_token rfl, hitems]
    simp [compactItems]

theorem withoutLayout_indentedMembers : ∀ depth members rest,
    withoutLayout .outside (indentedMembers depth members ++ rest) =
      compactMembers members ++ withoutLayout .outside rest
  | _, [], _ => rfl
  | depth, [(name, v)], rest =>
    withoutLayout_entry (withoutLayout_indentedChars depth v) depth name rest
  | depth, (name, v) :: member :: members, rest => by
    have hmembers := withoutLayout_indentedMembers depth (member :: members) rest
    have htext : indentedMembers depth ((name, v) :: member :: members) ++ rest =
        newLine depth ++ quoted name ++ ':' :: ' ' :: indentedChars depth v ++
          ',' :: (indentedMembers depth (member :: members) ++ rest) := by
      simp [indentedMembers]
    rw [htext, withoutLayout_entry (withoutLayout_indentedChars depth v),
      withoutLayout_token rfl, hmembers]
    simp [compactMembers]

end

/-- The indented text without its layout is the compact text. -/
theorem withoutLayout_indented (v : Json) :
    String.ofList (withoutLayout .outside (indented v).toList) = compact v := by
  have h := withoutLayout_indentedChars 0 v []
  rw [List.append_nil, withoutLayout, List.append_nil] at h
  rw [indented, compact, String.toList_ofList, h]

def Printable (cs : List Char) : Prop :=
  ∀ c ∈ cs, 0x20 ≤ c.toNat

@[simp] theorem printable_nil : Printable [] :=
  List.forall_mem_nil _

@[simp] theorem printable_cons {c : Char} {cs : List Char} :
    Printable (c :: cs) ↔ 0x20 ≤ c.toNat ∧ Printable cs :=
  List.forall_mem_cons

@[simp] theorem printable_append {cs cs' : List Char} :
    Printable (cs ++ cs') ↔ Printable cs ∧ Printable cs' :=
  List.forall_mem_append

theorem printable_hexDigit : ∀ d, d < 16 → 0x20 ≤ (Text.hexDigit d).toNat := by
  decide

theorem printable_escape (c : Char) : Printable (escape c) := by
  obtain ⟨letter, hescape, -, hletter⟩ | ⟨hescape, hcontrol⟩ | ⟨hescape, -, -, hraw⟩ :=
    escape_cases c
  · simp [hescape, hletter]
  · have hhigh := printable_hexDigit (c.toNat / 16) (by omega)
    have hlow := printable_hexDigit (c.toNat % 16) (by omega)
    simp [hescape, hhigh, hlow]
  · simp [hescape, hraw]

theorem printable_quoted (s : String) : Printable (quoted s) := by
  have hescaped : Printable (s.toList.flatMap escape) := by
    intro c hc
    obtain ⟨d, -, hd⟩ := List.mem_flatMap.1 hc
    exact printable_escape d c hd
  simp [quoted, hescaped]

theorem printable_integerText (n : Int) : Printable (integerText n) := by
  intro c hc
  rcases mem_integerText hc with rfl | hdigit
  · decide
  · exact Nat.le_trans (by decide) (Char.isDigit_iff_toNat.1 hdigit).1

mutual

theorem printable_compactChars : ∀ v, Printable (compactChars v)
  | .null => by simp [compactChars]
  | .boolean true => by simp [compactChars]
  | .boolean false => by simp [compactChars]
  | .integer n => printable_integerText n
  | .string s => printable_quoted s
  | .array vs => by simp [compactChars, printable_compactItems vs]
  | .object members => by simp [compactChars, printable_compactMembers members]

theorem printable_compactItems : ∀ vs, Printable (compactItems vs)
  | [] => printable_nil
  | [v] => printable_compactChars v
  | v :: w :: vs => by
    simp [compactItems, printable_compactChars v, printable_compactItems (w :: vs)]

theorem printable_compactMembers : ∀ members, Printable (compactMembers members)
  | [] => printable_nil
  | [(name, v)] => by simp [compactMembers, printable_quoted, printable_compactChars v]
  | (name, v) :: member :: members => by
    simp [compactMembers, printable_quoted, printable_compactChars v,
      printable_compactMembers (member :: members)]

end

end FieldPipeline.Json
