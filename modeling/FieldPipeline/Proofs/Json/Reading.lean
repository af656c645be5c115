import FieldPipeline.Json.Quoted
import FieldPipeline.Json.Text
import FieldPipeline.Proofs.Json.Written

/-!
# Running a machine to its end

A machine takes characters until it is done; then its result and the rest of the text go to whoever
asked for it. What a machine makes of a text is stated for every rest and every continuation, so
that a machine inside another one is read off without looking at the outer one.
-/

namespace FieldPipeline.Json

variable {σ τ α β γ ρ : Type}

/-- Runs a machine until it is done, and goes on with its result and the rest of the text. -/
def through (step : σ → Char → Except ReadError (Progress σ α)) (finish : σ → ReadError)
    (next : α → List Char → Except ReadError ρ) : σ → List Char → Except ReadError ρ
  | s, [] => .error (finish s)
  | s, c :: rest =>
    match step s c with
    | .ok (.more s) => through step finish next s rest
    | .ok (.done a) => next a rest
    | .error e => .error e

def Progress.resume (step : σ → Char → Except ReadError (Progress σ α)) (finish : σ → ReadError)
    (next : α → List Char → Except ReadError ρ) : Progress σ α → List Char → Except ReadError ρ
  | .more s, rest => through step finish next s rest
  | .done a, rest => next a rest

def Progress.embed (f : τ → σ) (g : β → Progress σ α) : Progress τ β → Progress σ α
  | .more t => .more (f t)
  | .done b => g b

section Through

variable {step : σ → Char → Except ReadError (Progress σ α)} {finish : σ → ReadError}
  {next : α → List Char → Except ReadError ρ} {s : σ} {c : Char}

theorem through_more (s' : σ) (h : step s c = .ok (.more s')) (rest : List Char) :
    through step finish next s (c :: rest) = through step finish next s' rest := by
  rw [through, h]

theorem through_done (a : α) (h : step s c = .ok (.done a)) (rest : List Char) :
    through step finish next s (c :: rest) = next a rest := by
  rw [through, h]

/-- A state that waits at blanks waits at any number of them. -/
theorem through_blanks (h : ∀ c, isBlank c = true → step s c = .ok (.more s)) {blanks : List Char}
    (hblanks : Blanks blanks) (rest : List Char) :
    through step finish next s (blanks ++ rest) = through step finish next s rest := by
  induction blanks with
  | nil => rfl
  | cons c blanks ih =>
    have hc : isBlank c = true := hblanks c List.mem_cons_self
    rw [List.cons_append, through_more s (h c hc)]
    exact ih fun d hd => hblanks d (List.mem_cons_of_mem c hd)

/-- A machine inside another one runs to its own end first. -/
theorem through_inner (inner : τ → Char → Except ReadError (Progress τ β))
    (innerFinish : τ → ReadError) (f : τ → σ) (g : β → Progress σ α)
    (hstep : ∀ t c, step (f t) c = (inner t c).map (Progress.embed f g))
    (hfinish : ∀ t, finish (f t) = innerFinish t) (t : τ) (cs : List Char) :
    through step finish next (f t) cs =
      through inner innerFinish (fun b rest => (g b).resume step finish next rest) t cs := by
  induction cs generalizing t with
  | nil => rw [through, through, hfinish]
  | cons c cs ih =>
    rw [through, through, hstep]
    cases hinner : inner t c with
    | error e => rfl
    | ok progress =>
      cases progress with
      | more t' => exact ih t'
      | done b => cases hg : g b <;> simp [Except.map, Progress.embed, Progress.resume, hg]

end Through

/-- The outcome goes on with what was found, or is an error of shape if nothing was. -/
inductive Judged (next : α → Except ReadError ρ) : Option α → Except ReadError ρ → Prop where
  | found (a : α) : Judged next (some a) (next a)
  | refused {e : ReadError} (h : e.category = .data) : Judged next none (.error e)

theorem Judged.bind {next : α → Except ReadError ρ} {next' : β → Except ReadError ρ}
    {found : Option α} {outcome : Except ReadError ρ} {f : α → Option β}
    (h : Judged next found outcome) (hnext : ∀ a, Judged next' (f a) (next a)) :
    Judged next' (found.bind f) outcome := by
  cases h with
  | found a => exact hnext a
  | refused h => exact .refused h

theorem Judged.map {next : α → Except ReadError ρ} {next' : β → Except ReadError ρ}
    {found : Option α} {outcome : Except ReadError ρ} {f : α → β} (h : Judged next found outcome)
    (hnext : ∀ a, next a = next' (f a)) : Judged next' (found.map f) outcome := by
  cases h with
  | found a =>
    rw [hnext a]
    exact .found (f a)
  | refused h => exact .refused h

theorem Judged.congr {next next' : α → Except ReadError ρ} {found : Option α}
    {outcome : Except ReadError ρ} (h : Judged next found outcome)
    (hnext : ∀ a, next a = next' a) : Judged next' found outcome := by
  rw [← funext hnext]
  exact h

theorem Judged.eq_of_some {next : α → Except ReadError ρ} {a : α} {outcome : Except ReadError ρ}
    (h : Judged next (some a) outcome) : outcome = next a := by
  cases h with
  | found => rfl

theorem Judged.eq_ok_iff {found : Option α} {outcome : Except ReadError α}
    (h : Judged Except.ok found outcome) {a : α} : outcome = .ok a ↔ found = some a := by
  cases h with
  | found b => simp
  | refused h => simp

theorem Judged.exists_error {next : α → Except ReadError ρ} {outcome : Except ReadError ρ}
    (h : Judged next none outcome) : ∃ e, outcome = .error e ∧ e.category = .data := by
  cases h with
  | refused h => exact ⟨_, rfl, h⟩

/-- Blanks around a value make no difference to a machine that waits before the value and goes on
waiting behind it. -/
theorem judged_written {step : σ → Char → Except ReadError (Progress σ α)} {finish : σ → ReadError}
    {next : α → List Char → Except ReadError ρ} {next' : β → List Char → Except ReadError ρ}
    {start : σ} {v : Json} {cs : List Char} {found : Option β} (hv : Written v cs)
    (hstart : ∀ c, isBlank c = true → step start c = .ok (.more start))
    (hnext : ∀ b {blanks rest}, Blanks blanks → next' b (blanks ++ rest) = next' b rest)
    (hbare : ∀ {cs rest}, Bare v cs → Delimited rest →
      Judged (fun b => next' b rest) found (through step finish next start (cs ++ rest)))
    {rest : List Char} (hrest : Delimited rest) :
    Judged (fun b => next' b rest) found (through step finish next start (cs ++ rest)) := by
  cases hv with
  | @mk _ before cs after hbefore hv hafter =>
    rw [List.append_assoc, List.append_assoc, through_blanks hstart hbefore]
    exact (hbare hv (hrest.blanks_append hafter)).congr fun b => hnext b hafter

section Quoted

variable {finish : Quoted → ReadError} {next : String → List Char → Except ReadError ρ}

theorem hexValue?_hexDigit : ∀ d, d < 16 → Text.hexValue? (Text.hexDigit d) = some d := by
  decide

theorem utf8Size_hexDigit : ∀ d, d < 16 → (Text.hexDigit d).utf8Size = 1 := by
  decide

theorem through_raw (checked : Bool) (read : List Char) {c : Char} (hquote : c ≠ '"')
    (hslash : c ≠ '\\') (hcontrol : ¬ c.toNat < 0x20) (rest : List Char) :
    through (Quoted.step checked) finish next (.plain read) (c :: rest) =
      through (Quoted.step checked) finish next (.plain (c :: read)) rest :=
  through_more _ (by simp [Quoted.step, hquote, hslash, hcontrol]) rest

theorem through_shortEscape (checked : Bool) (read : List Char) {letter c : Char}
    (h : shortEscape? letter = some c) (rest : List Char) :
    through (Quoted.step checked) finish next (.plain read) ('\\' :: letter :: rest) =
      through (Quoted.step checked) finish next (.plain (c :: read)) rest := by
  have hu : letter ≠ 'u' := by
    rintro rfl
    cases h
  rw [through_more (.escape read) (by simp [Quoted.step])]
  exact through_more _ (by simp [Quoted.step, hu, h]) rest

theorem through_codeEscape (checked : Bool) (read rest : List Char) :
    through (Quoted.step checked) finish next (.plain read) ('\\' :: 'u' :: rest) =
      through (Quoted.step checked) finish next (.hex read none 0 (some 0)) rest := by
  rw [through_more (.escape read) (by simp [Quoted.step])]
  exact through_more _ (by simp [Quoted.step]) rest

theorem toNat_cases (c : Char) : c.toNat < 0xD800 ∨ 0xDFFF < c.toNat ∧ c.toNat < 0x110000 :=
  c.valid

/-- The code of a character is half of no pair. -/
theorem closeHex_toNat (read : List Char) (c : Char) :
    Quoted.closeHex true read none c.toNat = .ok (.plain (c :: read)) := by
  have hcode := toNat_cases c
  have htrailing : isTrailing c.toNat = false := by simp [isTrailing]; omega
  have hleading : isLeading c.toNat = false := by simp [isLeading]; omega
  simp [Quoted.closeHex, htrailing, hleading]

/-- A block of four hexadecimal digits is judged by its value. -/
theorem through_hexBlock (checked : Bool) (read : List Char) (lead : Option Nat)
    {a b c d : Char} {i j k l : Nat} (ha : Text.hexValue? a = some i)
    (hb : Text.hexValue? b = some j) (hc : Text.hexValue? c = some k)
    (hd : Text.hexValue? d = some l) (hsizes : ∀ e ∈ [a, b, c, d], e.utf8Size = 1) {q : Quoted}
    (hclose : Quoted.closeHex checked read lead (16 * (16 * (16 * i + j) + k) + l) = .ok q)
    (rest : List Char) :
    through (Quoted.step checked) finish next (.hex read lead 0 (some 0))
        (a :: b :: c :: d :: rest) =
      through (Quoted.step checked) finish next q rest := by
  have hsa : a.utf8Size = 1 := hsizes a (by simp)
  have hsb : b.utf8Size = 1 := hsizes b (by simp)
  have hsc : c.utf8Size = 1 := hsizes c (by simp)
  have hsd : d.utf8Size = 1 := hsizes d (by simp)
  rw [through_more (.hex read lead 1 (some i)) (by simp [Quoted.step, ha, hsa]),
    through_more (.hex read lead 2 (some (16 * i + j))) (by simp [Quoted.step, hb, hsb]),
    through_more (.hex read lead 3 (some (16 * (16 * i + j) + k)))
      (by simp [Quoted.step, hc, hsc])]
  exact through_more _ (by simp [Quoted.step, hd, hsd, hclose, Except.map]) rest

/-- A character is written as itself, or by a backslash and a letter, or by its code. -/
theorem escape_cases (c : Char) :
    (∃ letter, escape c = ['\\', letter] ∧ shortEscape? letter = some c ∧ 0x20 ≤ letter.toNat) ∨
      (escape c = ['\\', 'u', '0', '0', Text.hexDigit (c.toNat / 16),
        Text.hexDigit (c.toNat % 16)] ∧ c.toNat < 0x20) ∨
      (escape c = [c] ∧ c ≠ '"' ∧ c ≠ '\\' ∧ 0x20 ≤ c.toNat) := by
  by_cases hquote : c = '"'
  · exact .inl ⟨'"', by simp [hquote, escape], by simp [hquote, shortEscape?], by decide⟩
  by_cases hslash : c = '\\'
  · exact .inl ⟨'\\', by simp [hslash, escape], by simp [hslash, shortEscape?], by decide⟩
  by_cases hn : c = '\n'
  · exact .inl ⟨'n', by simp [hn, escape], by simp [hn, shortEscape?], by decide⟩
  by_cases hr : c = '\r'
  · exact .inl ⟨'r', by simp [hr, escape], by simp [hr, shortEscape?], by decide⟩
  by_cases ht : c = '\t'
  · exact .inl ⟨'t', by simp [ht, escape], by simp [ht, shortEscape?], by decide⟩
  by_cases hb : c = '\x08'
  · exact .inl ⟨'b', by simp [hb, escape], by simp [hb, shortEscape?], by decide⟩
  by_cases hf : c = '\x0c'
  · exact .inl ⟨'f', by simp [hf, escape], by simp [hf, shortEscape?], by decide⟩
  by_cases hcontrol : c.toNat < 0x20
  · refine .inr (.inl ⟨?_, hcontrol⟩)
    simp [escape, hquote, hslash, hn, hr, ht, hb, hf, hcontrol]
  · refine .inr (.inr ⟨?_, hquote, hslash, by omega⟩)
    simp [escape, hquote, hslash, hn, hr, ht, hb, hf, hcontrol]

variable (finish next) in
/-- A written character is read in one piece; an unchecked machine may forget it. -/
theorem through_escape (checked : Bool) (read : List Char) (c : Char) :
    ∃ read', (checked = true → read' = c :: read) ∧ ∀ rest,
      through (Quoted.step checked) finish next (.plain read) (escape c ++ rest) =
        through (Quoted.step checked) finish next (.plain read') rest := by
  obtain ⟨letter, hescape, hletter, -⟩ | ⟨hescape, hcontrol⟩ | ⟨hescape, hquote, hslash, hraw⟩ :=
    escape_cases c
  · refine ⟨c :: read, fun _ => rfl, fun rest => ?_⟩
    rw [hescape]
    exact through_shortEscape checked read hletter rest
  · have hhigh : c.toNat / 16 < 16 := by omega
    have hlow : c.toNat % 16 < 16 := by omega
    have hzero : Text.hexValue? '0' = some 0 := by decide
    have hcode : 16 * (16 * (16 * 0 + 0) + c.toNat / 16) + c.toNat % 16 = c.toNat := by omega
    have hclose : Quoted.closeHex checked read none c.toNat =
        .ok (.plain (if checked then c :: read else read)) := by
      cases checked with
      | false => rfl
      | true => exact closeHex_toNat read c
    have hsizes : ∀ e ∈ ['0', '0', Text.hexDigit (c.toNat / 16), Text.hexDigit (c.toNat % 16)],
        e.utf8Size = 1 := by
      simp [utf8Size_hexDigit _ hhigh, utf8Size_hexDigit _ hlow]
      decide
    refine ⟨if checked then c :: read else read, fun h => if_pos h, fun rest => ?_⟩
    rw [hescape, List.cons_append, List.cons_append, through_codeEscape]
    exact through_hexBlock checked read none hzero hzero (hexValue?_hexDigit _ hhigh)
      (hexValue?_hexDigit _ hlow) hsizes (by rw [hcode, hclose]) rest
  · refine ⟨c :: read, fun _ => rfl, fun rest => ?_⟩
    rw [hescape]
    exact through_raw checked read hquote hslash (by omega) rest

variable (finish next) in
theorem through_escaped (checked : Bool) (cs read : List Char) :
    ∃ read', (checked = true → read' = cs.reverse ++ read) ∧ ∀ rest,
      through (Quoted.step checked) finish next (.plain read) (cs.flatMap escape ++ rest) =
        through (Quoted.step checked) finish next (.plain read') rest := by
  induction cs generalizing read with
  | nil => exact ⟨read, fun _ => rfl, fun _ => rfl⟩
  | cons c cs ih =>
    obtain ⟨read₁, hread₁, hstep⟩ := through_escape finish next checked read c
    obtain ⟨read₂, hread₂, hrun⟩ := ih read₁
    refine ⟨read₂, fun h => ?_, fun rest => ?_⟩
    · rw [hread₂ h, hread₁ h, List.reverse_cons, List.append_assoc, List.singleton_append]
    · rw [List.flatMap_cons, List.append_assoc, hstep, hrun]

/-- A written string reads back. -/
theorem through_quoted (s : String) (rest : List Char) :
    through (Quoted.step true) finish next .opened (s.toList.flatMap escape ++ '"' :: rest) =
      next s rest := by
  obtain ⟨read, hread, hrun⟩ :=
    through_escaped finish next true s.toList []
  rw [Quoted.opened, hrun, hread rfl]
  exact through_done _ (by simp [Quoted.step]) rest

/-- A written string that is skipped ends where it ends. -/
theorem through_quoted_unchecked (s : String) (rest : List Char) :
    ∃ read, through (Quoted.step false) finish next .opened
      (s.toList.flatMap escape ++ '"' :: rest) = next read rest := by
  obtain ⟨read, -, hrun⟩ := through_escaped finish next false s.toList []
  refine ⟨String.ofList read.reverse, ?_⟩
  rw [Quoted.opened, hrun]
  exact through_done _ (by simp [Quoted.step]) rest

end Quoted

end FieldPipeline.Json
