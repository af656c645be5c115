import FieldPipeline.Proofs.Json.Printed
import FieldPipeline.Proofs.Json.TextList

/-!
# Texts that break off

What a machine makes of a text that breaks off inside a token is read off token by token: the
machine waits for more at every character of the token, and behind the token it is where it is for a
text that goes on.
-/

namespace FieldPipeline.Json

variable {ρ : Type}

/-- A text that breaks off inside `cs` is refused for ending too early. -/
def Starves (read : List Char → Except ReadError ρ) (cs : List Char) : Prop :=
  ∀ p, p <+: cs → p ≠ cs → ∃ e, read p = .error e ∧ e.category = .truncated

section Starves

variable {read read' : List Char → Except ReadError ρ} {c : Char} {cs cs' : List Char}

theorem starves_nil : Starves read [] := by
  intro p hp hne
  exact absurd (List.prefix_nil.1 hp) hne

theorem Starves.cons {e : ReadError} (hend : read [] = .error e) (he : e.category = .truncated)
    (hread : ∀ rest, read (c :: rest) = read' rest) (h : Starves read' cs) :
    Starves read (c :: cs) := by
  intro p hp hne
  rcases List.prefix_cons_iff.1 hp with rfl | ⟨rest, rfl, hrest⟩
  · exact ⟨e, hend, he⟩
  · rw [hread]
    exact h rest hrest fun heq => hne (by rw [heq])

/-- A text may break off inside a token or behind it. -/
theorem Starves.append (h : Starves read cs)
    (hread : ∀ rest, rest <+: cs' → read (cs ++ rest) = read' rest) (h' : Starves read' cs') :
    Starves read (cs ++ cs') := by
  rintro p ⟨more, htext⟩ hne
  have hbehind : ∀ rest, rest <+: cs' → p = cs ++ rest →
      ∃ e, read p = .error e ∧ e.category = .truncated := by
    rintro rest hrest rfl
    rw [hread rest hrest]
    exact h' rest hrest fun heq => hne (by rw [heq])
  rcases List.append_eq_append_iff.1 htext with ⟨others, hcs, -⟩ | ⟨rest, hp, hcs'⟩
  · cases others with
    | nil => exact hbehind [] List.nil_prefix (by rw [hcs, List.append_nil, List.append_nil])
    | cons c others =>
      refine h p ⟨c :: others, hcs.symm⟩ fun heq => ?_
      rw [heq] at hcs
      exact absurd (List.self_eq_append_right.1 hcs) (List.cons_ne_nil c others)
  · exact hbehind rest ⟨more, hcs'.symm⟩ hp

/-- A reader that takes the first character in the same way breaks off in the same way behind it. -/
theorem Starves.of_cons {e : ReadError} (hend : read [] = .error e) (he : e.category = .truncated)
    (hread : ∀ rest, read (c :: rest) = read' (c :: rest)) (h : Starves read' (c :: cs)) :
    Starves read (c :: cs) := by
  intro p hp hne
  rcases List.prefix_cons_iff.1 hp with rfl | ⟨rest, rfl, -⟩
  · exact ⟨e, hend, he⟩
  · rw [hread]
    exact h (c :: rest) hp hne

theorem Starves.congr (h : Starves read' cs) (hread : ∀ p, read p = read' p) : Starves read cs := by
  rwa [funext hread]

end Starves

section Quoted

variable {next : String → List Char → Except ReadError ρ}

/-- A string, as far as a text with it goes. -/
abbrev inText (next : String → List Char → Except ReadError ρ) (q : Quoted) :
    List Char → Except ReadError ρ :=
  through (Quoted.step true) (fun _ => .endInText) next q

theorem starves_step {q : Quoted} (q' : Quoted) {c : Char} {cs : List Char}
    (hstep : q.step true c = .ok (.more q')) (h : Starves (inText next q') cs) :
    Starves (inText next q) (c :: cs) :=
  .cons rfl rfl (through_more q' hstep) h

/-- A character breaks off inside its escape. -/
theorem starves_escape (read : List Char) (c : Char) :
    Starves (inText next (.plain read)) (escape c) := by
  obtain ⟨letter, hescape, -, -⟩ | ⟨hescape, hcontrol⟩ | ⟨hescape, -, -, -⟩ := escape_cases c
  · rw [hescape]
    refine starves_step (.escape read) (by simp [Quoted.step]) ?_
    exact .cons rfl rfl (fun _ => rfl) starves_nil
  · have hhigh : c.toNat / 16 < 16 := by omega
    have hsize := utf8Size_hexDigit _ hhigh
    rw [hescape]
    refine starves_step (.escape read) (by simp [Quoted.step]) ?_
    refine starves_step (.hex read none 0 (some 0)) (by simp [Quoted.step]) ?_
    refine starves_step (.hex read none 1 (some 0)) rfl ?_
    refine starves_step (.hex read none 2 (some 0)) rfl ?_
    refine starves_step (.hex read none 3 (some (c.toNat / 16)))
      (by simp [Quoted.step, hsize, hexValue?_hexDigit _ hhigh]) ?_
    exact .cons rfl rfl (fun _ => rfl) starves_nil
  · rw [hescape]
    exact .cons rfl rfl (fun _ => rfl) starves_nil

theorem starves_escaped (cs read : List Char) :
    Starves (inText next (.plain read)) (cs.flatMap escape) := by
  induction cs generalizing read with
  | nil => exact starves_nil
  | cons c cs ih =>
    obtain ⟨read', -, hread⟩ := through_escape (fun _ => .endInText) next true read c
    rw [List.flatMap_cons]
    exact (starves_escape read c).append (fun rest _ => hread rest) (ih read')

/-- A string breaks off before its closing quote, or the text behind it does. -/
theorem starves_quoted {s : String} {cs : List Char} (h : Starves (next s) cs) :
    Starves (inText next .opened) (s.toList.flatMap escape ++ '"' :: cs) := by
  obtain ⟨read, hread, hrun⟩ := through_escaped (fun _ => .endInText) next true s.toList []
  refine (starves_escaped s.toList []).append (fun rest _ => hrun rest)
    (.cons rfl rfl (through_done s ?_) h)
  simp [Quoted.step, hread]

end Quoted

namespace TextList

variable {next : List String → List Char → Except ReadError ρ} {l : TextList} {items : List String}
  {cs : List Char}

abbrev inList (next : List String → List Char → Except ReadError ρ) (l : TextList) :
    List Char → Except ReadError ρ :=
  through TextList.step TextList.finish next l

theorem starves_item {s : String} (hstart : l.step '"' = .ok (.more (.item items .opened)))
    (hend : l.finish.category = .truncated) (h : Starves (inList next (.after (s :: items))) cs) :
    Starves (inList next l) (quoted s ++ cs) := by
  rw [quoted_append]
  refine .cons rfl hend (through_more _ hstart) ?_
  exact (starves_quoted h).congr (through_item items .opened)

/-- Items break off inside a string, behind one or behind a comma. -/
theorem starves_items {texts : List String} (hne : texts ≠ [])
    (hstart : l.step '"' = .ok (.more (.item items .opened)))
    (hend : l.finish.category = .truncated) (h : Starves (next (items.reverse ++ texts)) cs) :
    Starves (inList next l) (compactItems (texts.map .string) ++ ']' :: cs) := by
  induction texts generalizing l items with
  | nil => exact absurd rfl hne
  | cons s texts ih =>
    cases texts with
    | nil =>
      refine starves_item hstart hend (.cons rfl rfl (through_done _ rfl) ?_)
      rwa [List.reverse_cons]
    | cons t texts =>
      have htext : compactItems ((s :: t :: texts).map .string) ++ ']' :: cs =
          quoted s ++ ',' :: (compactItems ((t :: texts).map .string) ++ ']' :: cs) := by
        simp [compactItems, compactChars]
      rw [htext]
      refine starves_item hstart hend (.cons rfl rfl (through_more (.next (s :: items)) rfl) ?_)
      refine ih (List.cons_ne_nil t texts) rfl rfl ?_
      rwa [List.reverse_cons, List.append_assoc]

/-- A written list breaks off, or the text behind it does. -/
theorem starves_strings {texts : List String} (h : Starves (next texts) cs) :
    Starves (inList next .start) (compactChars (strings texts) ++ cs) := by
  have htext : compactChars (strings texts) ++ cs =
      '[' :: (compactItems (texts.map .string) ++ ']' :: cs) := by
    simp [strings, compactChars]
  rw [htext]
  refine .cons rfl rfl (through_more .first rfl) ?_
  cases texts with
  | nil => exact .cons rfl rfl (through_done [] rfl) h
  | cons s texts => exact starves_items (List.cons_ne_nil s texts) rfl rfl h

end TextList

end FieldPipeline.Json
