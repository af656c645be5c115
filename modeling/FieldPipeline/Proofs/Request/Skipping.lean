import FieldPipeline.Proofs.Request.Reading

/-!
# Skipping written values

The reader comes out of a value it skips exactly at the value's end, however deep the value is. The
open brackets of the machine are the brackets around the value, so the induction is over the writing
of the value with any brackets around it.
-/

namespace FieldPipeline.Request.Reader

open Json

/-- The reader behind a skipped value that stands in some brackets. -/
def behind (m : Members) : List Bracket → Reader
  | [] => .memberRead m
  | bracket :: outer => .skipValue m ⟨.after, bracket :: outer⟩

variable {m : Members} {brackets : List Bracket}

theorem step_skipValue_more {s : Skip} {c : Char} (s' : Skip) (h : s.step c = .ok (.more s')) :
    (skipValue m s).step c = .ok (skipValue m s') := by
  rw [step, h]
  rfl

theorem step_skipValue_close {s : Skip} {c : Char}
    (h : s.step c = .ok (Skip.close brackets)) :
    (skipValue m s).step c = .ok (behind m brackets) := by
  rw [step, h]
  cases brackets <;> rfl

theorem waits_behind : ∀ brackets, (behind m brackets).Waits
  | [] => .memberRead m
  | bracket :: outer => .skipAfter m bracket outer

theorem waits_skip {phase : SkipPhase} (hphase : phase ∈ [.value, .opened, .name, .colon]) :
    (skipValue m ⟨phase, brackets⟩).Waits :=
  .skipBefore m hphase brackets

/-- A skipped string ends with its quote, whatever it is part of. -/
theorem read_skipped_quoted (phase : Quoted → SkipPhase) (r : Reader)
    (hstep : ∀ q c, (skipValue m ⟨phase q, brackets⟩).step c =
      (q.step false c).bind (host (fun q => skipValue m ⟨phase q, brackets⟩) fun _ => .ok r))
    (hfinish : ∀ q, (skipValue m ⟨phase q, brackets⟩).finish = .error .endInText) (s : String)
    (rest : List Char) :
    (skipValue m ⟨phase .opened, brackets⟩).read (s.toList.flatMap escape ++ '"' :: rest) =
      r.read rest := by
  rw [read_host (Quoted.step false) (fun _ => .endInText)
    (fun q => skipValue m ⟨phase q, brackets⟩) (fun _ => .ok r) hstep hfinish]
  exact (through_quoted_unchecked s rest).choose_spec

theorem read_skipped_text (s : String) (rest : List Char) :
    (skipValue m ⟨.text .opened, brackets⟩).read (s.toList.flatMap escape ++ '"' :: rest) =
      (behind m brackets).read rest := by
  refine read_skipped_quoted SkipPhase.text (behind m brackets) (fun q c => ?_)
    (fun _ => rfl) s rest
  simp only [step, Skip.step]
  cases q.step false c with
  | error e => rfl
  | ok progress =>
    cases progress with
    | more q' => rfl
    | done s => cases brackets <;> rfl

theorem read_skipped_name (s : String) (rest : List Char) :
    (skipValue m ⟨.nameText .opened, brackets⟩).read (s.toList.flatMap escape ++ '"' :: rest) =
      (skipValue m ⟨.colon, brackets⟩).read rest := by
  refine read_skipped_quoted SkipPhase.nameText (skipValue m ⟨.colon, brackets⟩) (fun q c => ?_)
    (fun _ => rfl) s rest
  simp only [step, Skip.step]
  cases q.step false c with
  | error e => rfl
  | ok progress => cases progress <;> rfl

theorem read_skipped_digits {n n' : Number} {cs : List Char} (h : n.Grows cs n')
    (rest : List Char) :
    (skipValue m ⟨.number n, brackets⟩).read (cs ++ rest) =
      (skipValue m ⟨.number n', brackets⟩).read rest := by
  induction h with
  | nil => rfl
  | @cons n next _ c _ hstep _ ih =>
    have hmore : Skip.step ⟨.number n, brackets⟩ c = .ok (.more ⟨.number next, brackets⟩) := by
      simp only [Skip.step, hstep]
    rw [List.cons_append, read_of_step _ (step_skipValue_more _ hmore)]
    exact ih

/-- A whole number is over as soon as anything else comes. -/
theorem read_skipped_integral (negative : Bool) (digits : List Nat) {rest : List Char}
    (hrest : Delimited rest) :
    (skipValue m ⟨.number (.integral negative digits), brackets⟩).read rest =
      (behind m brackets).read rest := by
  cases rest with
  | nil =>
    cases brackets with
    | nil => simp [read, finish, behind, Skip.finish, Number.complete_integral]
    | cons bracket outer =>
      cases bracket <;> simp [read, finish, behind, Skip.finish, Number.complete_integral]
  | cons c rest =>
    have hc : isDelimiter c = true := hrest c rfl
    refine read_congr ?_ rest
    cases brackets with
    | nil =>
      simp only [step, Skip.step, Number.step_integral_delimiter hc]
      rfl
    | cons bracket outer =>
      simp only [step, behind, Skip.step, Number.step_integral_delimiter hc]

theorem startValue_number {c : Char} {n : Number} (h : Number.start? c = some n) :
    Skip.startValue brackets c = .ok (.more ⟨.number n, brackets⟩) := by
  have hn : c ≠ 'n' := Number.ne_of_start? h rfl
  have ht : c ≠ 't' := Number.ne_of_start? h rfl
  have hf : c ≠ 'f' := Number.ne_of_start? h rfl
  have hquote : c ≠ '"' := Number.ne_of_start? h rfl
  have hbracket : c ≠ '[' := Number.ne_of_start? h rfl
  have hbrace : c ≠ '{' := Number.ne_of_start? h rfl
  simp [Skip.startValue, hn, ht, hf, hquote, hbracket, hbrace, h]

/-- The items of an array are read in the same way behind the bracket and behind a comma. -/
theorem read_opened_items {vs : List Json} {cs : List Char} (h : WrittenItems vs cs)
    (rest : List Char) :
    (skipValue m ⟨.opened, .list :: brackets⟩).read (cs ++ rest) =
      (skipValue m ⟨.value, .list :: brackets⟩).read (cs ++ rest) := by
  refine read_begun_congr (waits_skip (by simp))
    (waits_skip (by simp)) (fun c hc => ?_) (h.begun.append rest)
  obtain ⟨hblank, -, hbracket, -⟩ := not_blank_of_not_delimiter hc
  simp [step, Skip.step, hblank, hbracket]

theorem read_opened_members {members : List (String × Json)} {cs : List Char}
    (h : WrittenMembers members cs) (rest : List Char) :
    (skipValue m ⟨.opened, .object :: brackets⟩).read (cs ++ rest) =
      (skipValue m ⟨.name, .object :: brackets⟩).read (cs ++ rest) := by
  obtain ⟨before, tail, rfl, hbefore⟩ := h.exists_blanks_append
  rw [List.append_assoc, read_blanks (waits_skip (by simp)) hbefore,
    read_blanks (waits_skip (by simp)) hbefore]
  exact read_congr rfl (tail ++ rest)

/-- A name and its colon. -/
theorem read_skipped_entry {before gap : List Char} (hbefore : Blanks before) (name : String)
    (hgap : Blanks gap) (rest : List Char) :
    (skipValue m ⟨.name, brackets⟩).read (before ++ (quoted name ++ (gap ++ ':' :: rest))) =
      (skipValue m ⟨.value, brackets⟩).read rest := by
  rw [read_blanks (waits_skip (by simp)) hbefore, quoted_append,
    read_of_step (skipValue m ⟨.nameText .opened, brackets⟩) rfl, read_skipped_name,
    read_blanks (waits_skip (by simp)) hgap,
    read_of_step (skipValue m ⟨.value, brackets⟩) rfl]

mutual

/-- From the first character of a skipped value to its last. -/
theorem read_skipped_bare {v : Json} {cs : List Char} (hv : Bare v cs) (brackets : List Bracket)
    {rest : List Char} (hrest : Delimited rest) :
    (skipValue m ⟨.value, brackets⟩).read (cs ++ rest) = (behind m brackets).read rest := by
  match hv with
  | .null => cases brackets <;> rfl
  | .yes => cases brackets <;> rfl
  | .no => cases brackets <;> rfl
  | .integer n =>
    obtain ⟨c, cs, first, digits, htext, hfirst, hgrows, -⟩ := Number.grows_integerText n
    have hc : isDelimiter c = false := Number.isDelimiter_of_start? hfirst
    obtain ⟨hblank, -, -, -⟩ := not_blank_of_not_delimiter hc
    have hstart : Skip.step ⟨.value, brackets⟩ c = .ok (.more ⟨.number first, brackets⟩) := by
      simp [Skip.step, hblank, startValue_number hfirst]
    rw [htext, List.cons_append, read_of_step _ (step_skipValue_more _ hstart),
      read_skipped_digits hgrows, read_skipped_integral _ digits hrest]
  | .string s =>
    rw [quoted_append, read_of_step (skipValue m ⟨.text .opened, brackets⟩) rfl, read_skipped_text]
  | @Bare.emptyArray inner hinner =>
    rw [enclosed_append, read_of_step (skipValue m ⟨.opened, .list :: brackets⟩) rfl,
      read_blanks (waits_skip (by simp)) hinner,
      read_of_step _ (step_skipValue_close rfl)]
  | @Bare.array items inner hinner =>
    rw [enclosed_append, read_of_step (skipValue m ⟨.opened, .list :: brackets⟩) rfl,
      read_opened_items hinner]
    exact read_skipped_items hinner brackets rest
  | @Bare.emptyObject inner hinner =>
    rw [enclosed_append, read_of_step (skipValue m ⟨.opened, .object :: brackets⟩) rfl,
      read_blanks (waits_skip (by simp)) hinner,
      read_of_step _ (step_skipValue_close rfl)]
  | @Bare.object members inner hinner =>
    rw [enclosed_append, read_of_step (skipValue m ⟨.opened, .object :: brackets⟩) rfl,
      read_opened_members hinner]
    exact read_skipped_members hinner brackets rest

theorem read_skipped {v : Json} {cs : List Char} (hv : Written v cs) (brackets : List Bracket)
    {rest : List Char} (hrest : Delimited rest) :
    (skipValue m ⟨.value, brackets⟩).read (cs ++ rest) = (behind m brackets).read rest := by
  match hv with
  | @Written.mk _ before cs after hbefore hv hafter =>
    rw [List.append_assoc, List.append_assoc, read_blanks (waits_skip (by simp)) hbefore,
      read_skipped_bare hv brackets (hrest.blanks_append hafter),
      read_blanks (waits_behind brackets) hafter]

theorem read_skipped_items {vs : List Json} {cs : List Char} (hvs : WrittenItems vs cs)
    (brackets : List Bracket) (rest : List Char) :
    (skipValue m ⟨.value, .list :: brackets⟩).read (cs ++ ']' :: rest) =
      (behind m brackets).read rest := by
  match hvs with
  | .last hv =>
    rw [read_skipped hv _ (delimited_cons rfl rest), behind,
      read_of_step _ (step_skipValue_close rfl)]
  | @WrittenItems.more v cs vs more hv hvs =>
    rw [List.append_assoc, List.cons_append, read_skipped hv _ (delimited_cons rfl _), behind,
      read_of_step (skipValue m ⟨.value, .list :: brackets⟩) rfl]
    exact read_skipped_items hvs brackets rest

theorem read_skipped_members {members : List (String × Json)} {cs : List Char}
    (hmembers : WrittenMembers members cs) (brackets : List Bracket) (rest : List Char) :
    (skipValue m ⟨.name, .object :: brackets⟩).read (cs ++ '}' :: rest) =
      (behind m brackets).read rest := by
  match hmembers with
  | @WrittenMembers.last name v before gap cs hbefore hgap hv =>
    rw [entry_append, read_skipped_entry hbefore name hgap,
      read_skipped hv _ (delimited_cons rfl rest), behind,
      read_of_step _ (step_skipValue_close rfl)]
  | @WrittenMembers.more name v before gap cs members more hbefore hgap hv hmembers =>
    rw [entry_append, List.append_assoc, List.cons_append, read_skipped_entry hbefore name hgap,
      read_skipped hv _ (delimited_cons rfl _), behind,
      read_of_step (skipValue m ⟨.name, .object :: brackets⟩) rfl]
    exact read_skipped_members hmembers brackets rest

end

end FieldPipeline.Request.Reader
