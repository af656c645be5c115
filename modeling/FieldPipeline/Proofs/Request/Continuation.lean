import FieldPipeline.Proofs.Request.Object
import Mathlib.Data.List.Nodup

/-!
# Texts that go on

The reader looks at a text once, so an error at a character stays whatever comes behind it. Only an
error that the end of the text brings can go away. Most of these say that the text is too short.
A number that may be over says what it is, and two places are judged before their time: a skipped
number without the digits it needs, and a comma behind the fields of an array.
-/

namespace FieldPipeline

namespace Json

theorem map_eq_ok_iff {ε α β : Type} {f : α → β} {x : Except ε α} {b : β} :
    x.map f = .ok b ↔ ∃ a, x = .ok a ∧ f a = b := by
  cases x <;> simp [Except.map]

namespace Number

theorem digit?_eq_none {c : Char} (hc : c.isDigit = false) : digit? c = none := by
  rw [digit?, hc]
  rfl

/-- Only a digit completes a number. -/
theorem complete_start? {c : Char} (hc : c.isDigit = false) {n : Number} (h : start? c = some n) :
    n.complete = false := by
  rw [start?, digit?_eq_none hc] at h
  split at h
  · cases h
    rfl
  · cases h

theorem complete_afterWhole {n n' : Number} {c : Char} (h : n.afterWhole c = some n') :
    n'.complete = false := by
  rw [afterWhole] at h
  split at h
  · cases h
    rfl
  · split at h
    · cases h
      rfl
    · cases h

theorem complete_step {c : Char} (hc : c.isDigit = false) {n n' : Number}
    (h : n.step c = .ok (some n')) : n'.complete = false := by
  rw [step, digit?_eq_none hc] at h
  cases hphase : n.phase with
  | zero | whole =>
    rw [hphase] at h
    exact complete_afterWhole (Except.ok.inj h)
  | fraction =>
    rw [hphase] at h
    dsimp only at h
    split at h
    · cases h
      rfl
    · cases h
  | mark =>
    rw [hphase] at h
    dsimp only at h
    split at h
    · cases h
      rfl
    · split at h
      · cases h
        rfl
      · cases h
  | sign | point | markSign | exponent =>
    rw [hphase] at h
    cases h

/-- A number that lacks digits takes one. -/
theorem step_zero_of_incomplete {n : Number} (h : n.complete = false) :
    ∃ n', n.step '0' = .ok (some n') ∧ n'.complete = true := by
  have hdigit : digit? '0' = some 0 := rfl
  rw [step, hdigit]
  cases hphase : n.phase with
  | sign | point | mark | markSign => exact ⟨_, rfl, rfl⟩
  | zero | whole | fraction | exponent => simp [complete, hphase] at h

end Number

namespace Unwanted

def afterNumber : Unwanted → Bool
  | .number n => n.complete
  | _ => false

variable {wanted : Wanted}

theorem afterNumber_start {c : Char} (hc : c.isDigit = false) {u : Unwanted}
    (h : start wanted c = .ok u) : u.afterNumber = false := by
  rw [start] at h
  split at h; · cases h; rfl
  split at h; · cases h; rfl
  split at h; · cases h; rfl
  split at h; · cases h; rfl
  split at h; · cases h
  split at h; · cases h
  cases hn : Number.start? c with
  | none =>
    rw [hn] at h
    cases h
  | some n =>
    rw [hn] at h
    cases h
    exact Number.complete_start? hc hn

theorem afterNumber_step {c : Char} (hc : c.isDigit = false) {u u' : Unwanted}
    (h : u.step wanted c = .ok u') : u'.afterNumber = false := by
  cases u with
  | word rest found =>
    rcases rest with _ | ⟨expected, _ | ⟨next, rest⟩⟩
    · cases h
    · cases h
    · rw [step] at h
      · split at h
        · cases h
          rfl
        · cases h
      · exact List.cons_ne_nil next rest
  | number n =>
    rw [step] at h
    split at h
    · rename_i n' hn
      cases h
      exact Number.complete_step hc hn
    · cases h
    · cases h
  | text q =>
    rw [step] at h
    split at h
    · cases h
      rfl
    · cases h
    · cases h

theorem category_finish {u : Unwanted} (h : u.afterNumber = false) :
    (u.finish wanted).category = .truncated := by
  cases u with
  | word _ _ | text _ => rfl
  | number n =>
    have hn : n.complete = false := h
    rw [finish, hn]
    rfl

end Unwanted

namespace TextList

def afterNumber : TextList → Bool
  | .refused _ u => u.afterNumber
  | _ => false

theorem afterNumber_startItem {items : List String} {c : Char} (hc : c.isDigit = false)
    {l : TextList} (h : startItem items c = .ok l) : l.afterNumber = false := by
  rw [startItem] at h
  split at h
  · cases h
    rfl
  · obtain ⟨u, hu, rfl⟩ := map_eq_ok_iff.1 h
    exact Unwanted.afterNumber_start hc hu

theorem afterNumber_step {c : Char} (hc : c.isDigit = false) {l l' : TextList}
    (h : l.step c = .ok (.more l')) : l'.afterNumber = false := by
  cases l with
  | start =>
    rw [step] at h
    split at h; · cases h; rfl
    split at h; · cases h; rfl
    obtain ⟨u, hu, heq⟩ := map_eq_ok_iff.1 h
    cases heq
    exact Unwanted.afterNumber_start hc hu
  | refused wanted u =>
    obtain ⟨u', hu, heq⟩ := map_eq_ok_iff.1 h
    cases heq
    exact Unwanted.afterNumber_step hc hu
  | first =>
    rw [step] at h
    split at h; · cases h; rfl
    split at h; · cases h
    obtain ⟨l', hl, heq⟩ := map_eq_ok_iff.1 h
    cases heq
    exact afterNumber_startItem hc hl
  | next items =>
    rw [step] at h
    split at h; · cases h; rfl
    split at h; · cases h
    obtain ⟨l', hl, heq⟩ := map_eq_ok_iff.1 h
    cases heq
    exact afterNumber_startItem hc hl
  | item items q =>
    obtain ⟨progress, -, heq⟩ := map_eq_ok_iff.1 h
    cases progress <;> cases heq <;> rfl
  | after items =>
    rw [step] at h
    split at h; · cases h; rfl
    split at h; · cases h; rfl
    split at h <;> cases h

theorem category_finish {l : TextList} (h : l.afterNumber = false) :
    l.finish.category = .truncated := by
  cases l with
  | refused wanted u => exact Unwanted.category_finish h
  | _ => rfl

end TextList

end Json

namespace Request

open Json

namespace KeyReader

def afterNumber : KeyReader → Bool
  | .refused u => u.afterNumber
  | _ => false

theorem afterNumber_step {c : Char} (hc : c.isDigit = false) {k k' : KeyReader}
    (h : k.step c = .ok (.more k')) : k'.afterNumber = false := by
  cases k with
  | start =>
    rw [step] at h
    split at h; · cases h; rfl
    split at h; · cases h; rfl
    split at h; · cases h; rfl
    obtain ⟨u, hu, heq⟩ := map_eq_ok_iff.1 h
    cases heq
    exact Unwanted.afterNumber_start hc hu
  | word rest =>
    rcases rest with _ | ⟨expected, _ | ⟨next, rest⟩⟩
    · cases h
    · rw [step] at h
      split at h <;> cases h
    · rw [step] at h
      · split at h
        · cases h
          rfl
        · cases h
      · exact List.cons_ne_nil next rest
  | text q =>
    obtain ⟨progress, -, heq⟩ := map_eq_ok_iff.1 h
    cases progress <;> cases heq
    rfl
  | refused u =>
    obtain ⟨u', hu, heq⟩ := map_eq_ok_iff.1 h
    cases heq
    exact Unwanted.afterNumber_step hc hu

theorem category_finish {k : KeyReader} (h : k.afterNumber = false) :
    k.finish.category = .truncated := by
  cases k with
  | refused u => exact Unwanted.category_finish h
  | _ => rfl

end KeyReader

namespace Reader

def afterNumber : Reader → Bool
  | .refused u => u.afterNumber
  | .listKey k | .keyValue _ k => k.afterNumber
  | .listFields _ l | .fieldsValue _ l => l.afterNumber
  | _ => false

theorem afterNumber_stepListKey {c : Char} (hc : c.isDigit = false) {k : KeyReader} {r : Reader}
    (h : stepListKey k c = .ok r) : r.afterNumber = false := by
  obtain ⟨progress, hk, rfl⟩ := map_eq_ok_iff.1 h
  cases progress with
  | more k' => exact KeyReader.afterNumber_step hc hk
  | done key => rfl

theorem afterNumber_stepListFields {c : Char} (hc : c.isDigit = false) {key : Option String}
    {l : TextList} {r : Reader} (h : stepListFields key l c = .ok r) : r.afterNumber = false := by
  obtain ⟨progress, hl, rfl⟩ := map_eq_ok_iff.1 h
  cases progress with
  | more l' => exact TextList.afterNumber_step hc hl
  | done fields => rfl

theorem afterNumber_close {m : Members} {r : Reader} (h : close m = .ok r) :
    r.afterNumber = false := by
  rw [close] at h
  split at h <;> cases h
  rfl

theorem afterNumber_afterMember {m : Members} {c : Char} {r : Reader}
    (h : afterMember m c = .ok r) : r.afterNumber = false := by
  rw [afterMember] at h
  split at h; · cases h; rfl
  split at h; · cases h; rfl
  split at h
  · exact afterNumber_close h
  · cases h

theorem afterNumber_startMember (m : Members) (name : String) :
    (startMember m name).afterNumber = false := by
  rw [startMember]
  split
  · rfl
  · split <;> rfl

/-- What is not a digit does not complete a number. -/
theorem afterNumber_step {c : Char} (hc : c.isDigit = false) {r r' : Reader}
    (h : r.step c = .ok r') : r'.afterNumber = false := by
  cases r with
  | start =>
    rw [step] at h
    split at h; · cases h; rfl
    split at h; · cases h; rfl
    split at h; · cases h; rfl
    obtain ⟨u, hu, rfl⟩ := map_eq_ok_iff.1 h
    exact Unwanted.afterNumber_start hc hu
  | refused u =>
    obtain ⟨u', hu, rfl⟩ := map_eq_ok_iff.1 h
    exact Unwanted.afterNumber_step hc hu
  | listOpened =>
    rw [step] at h
    split at h; · cases h; rfl
    split at h; · cases h
    exact afterNumber_stepListKey hc h
  | listKey k => exact afterNumber_stepListKey hc h
  | listComma key =>
    rw [step] at h
    split at h; · cases h; rfl
    split at h; · cases h
    exact afterNumber_stepListFields hc h
  | listFields key l => exact afterNumber_stepListFields hc h
  | objectOpened =>
    rw [step] at h
    split at h; · cases h; rfl
    split at h; · cases h; rfl
    split at h
    · exact afterNumber_close h
    · cases h
  | nameText m q =>
    rw [step] at h
    cases hq : q.step true c with
    | error e =>
      rw [hq] at h
      cases h
    | ok progress =>
      rw [hq] at h
      cases progress with
      | more q' =>
        cases h
        rfl
      | done name =>
        rcases startColon_eq m name with hstart | hstart
        · cases hstart.symm.trans h
        · cases hstart.symm.trans h
          rfl
  | colon m name =>
    rw [step] at h
    split at h; · cases h; rfl
    split at h
    · cases h
      exact afterNumber_startMember m name
    · cases h
  | keyValue m k =>
    obtain ⟨progress, hk, rfl⟩ := map_eq_ok_iff.1 h
    cases progress with
    | more k' => exact KeyReader.afterNumber_step hc hk
    | done key => rfl
  | fieldsValue m l =>
    obtain ⟨progress, hl, rfl⟩ := map_eq_ok_iff.1 h
    cases progress with
    | more l' => exact TextList.afterNumber_step hc hl
    | done fields => rfl
  | skipValue m s =>
    rw [step] at h
    cases hs : s.step c with
    | error e =>
      rw [hs] at h
      cases h
    | ok progress =>
      rw [hs] at h
      cases progress with
      | more s' =>
        cases h
        rfl
      | done =>
        cases h
        rfl
      | before => exact afterNumber_afterMember h
  | memberRead m => exact afterNumber_afterMember h
  | listKeyRead | listFieldsRead | listSurplus | nameStart | complete =>
    simp only [step] at h
    repeat' split at h
    all_goals cases h
    all_goals rfl

/-- The text is refused as bad JSON if it ends here, although it may go on: a number that is skipped
lacks digits, or a comma stands behind the fields of an array. -/
inductive Premature : Reader → Prop where
  | number (m : Members) {n : Number} (brackets : List Bracket) (h : n.complete = false) :
      Premature (.skipValue m ⟨.number n, brackets⟩)
  | surplus : Premature .listSurplus

theorem category_finish_skip (m : Members) {s : Skip} {e : ReadError}
    (h : (skipValue m s).finish = .error e) :
    e.category = .truncated ∨ (skipValue m s).Premature := by
  obtain ⟨phase, brackets⟩ := s
  cases h
  cases phase with
  | number n =>
    cases hn : n.complete with
    | false => exact .inr (.number m brackets hn)
    | true =>
      left
      rw [Skip.finish]
      simp only [hn, if_true]
      cases brackets with
      | nil => rfl
      | cons bracket outer => cases bracket <;> rfl
  | opened | after =>
    left
    cases brackets with
    | nil => rfl
    | cons bracket outer => cases bracket <;> rfl
  | value | word | text | name | nameText | colon => exact .inl rfl

/-- A text that ends too early says so, unless its end is taken for the end of a number or judged
before its time. -/
theorem finish_cases {r : Reader} {e : ReadError} (h : r.finish = .error e) :
    e.category = .truncated ∨ r.afterNumber = true ∨ r.Premature := by
  cases hnumber : r.afterNumber with
  | true => exact .inr (.inl rfl)
  | false =>
    cases r with
    | refused u =>
      cases h
      exact .inl (Unwanted.category_finish hnumber)
    | listKey k | keyValue _ k =>
      cases h
      exact .inl (KeyReader.category_finish hnumber)
    | listFields _ l | fieldsValue _ l =>
      cases h
      exact .inl (TextList.category_finish hnumber)
    | skipValue m s =>
      rcases category_finish_skip m h with htruncated | hpremature
      · exact .inl htruncated
      · exact .inr (.inr hpremature)
    | listSurplus => exact .inr (.inr .surplus)
    | complete r => cases h
    | start | listOpened | listKeyRead | listComma | listFieldsRead | objectOpened | nameStart
      | nameText | colon | memberRead =>
      cases h
      exact .inl rfl

/-- What is judged before its time is judged otherwise once the text goes on. -/
theorem Premature.exists_read_ne {r : Reader} (h : r.Premature) : ∃ cs, r.read cs ≠ r.finish := by
  cases h with
  | @number m n brackets hn =>
    refine ⟨['0'], fun hread => ?_⟩
    obtain ⟨n', hstep, hn'⟩ := Number.step_zero_of_incomplete hn
    have hmore : Skip.step ⟨.number n, brackets⟩ '0' = .ok (.more ⟨.number n', brackets⟩) := by
      simp only [Skip.step, hstep]
    rw [read_of_step _ (step_skipValue_more _ hmore), read] at hread
    have hbad : (skipValue m ⟨.number n, brackets⟩).finish = .error .badNumber := by
      simp [finish, Skip.finish, hn]
    rcases category_finish_skip m (hread.trans hbad) with hcategory | hpremature
    · cases hcategory
    · cases hpremature with
      | number _ _ hincomplete =>
        rw [hn'] at hincomplete
        cases hincomplete
  | surplus =>
    refine ⟨[']'], ?_⟩
    rw [read_of_step_error (e := .trailingComma) rfl]
    intro heq
    cases heq

theorem read_listSurplus_eq (cs : List Char) :
    listSurplus.read cs = .error
      (if (cs.dropWhile isBlank).head? = some ']' then .trailingComma else .trailingCharacters) := by
  induction cs with
  | nil => rfl
  | cons c cs ih =>
    cases hc : isBlank c with
    | true =>
      rw [read_of_step listSurplus (Waits.listSurplus.step_blank hc), List.dropWhile_cons_of_pos hc]
      exact ih
    | false =>
      rw [List.dropWhile_cons_of_neg (by simp [hc]), List.head?_cons]
      refine read_of_step_error ?_ cs
      by_cases hbracket : c = ']'
      · subst hbracket
        rfl
      · simp [step, hc, hbracket]

theorem read_complete_eq (r : Request) (cs : List Char) :
    (complete r).read cs = if Blanks cs then .ok r else .error .trailingCharacters := by
  induction cs with
  | nil => rfl
  | cons c cs ih =>
    cases hc : isBlank c with
    | true =>
      have hblanks : Blanks (c :: cs) ↔ Blanks cs := by simp [Blanks, hc]
      rw [read_of_step (complete r) ((Waits.complete r).step_blank hc), ih]
      simp only [hblanks]
    | false =>
      have hblanks : ¬ Blanks (c :: cs) := by simp [Blanks, hc]
      rw [if_neg hblanks]
      exact read_of_step_error (by simp [step, hc]) cs

/-- Where the reader stands behind a text, if no character of it is an error. -/
def afterText (text : String) : Except ReadError Reader :=
  text.toList.foldlM step .start

theorem afterNumber_afterText {text : String}
    (hlast : ∀ c ∈ text.toList.getLast?, c.isDigit = false) {r : Reader}
    (h : afterText text = .ok r) : r.afterNumber = false := by
  rw [afterText] at h
  rcases List.eq_nil_or_concat text.toList with hnil | ⟨cs, c, hconcat⟩
  · rw [hnil] at h
    cases h
    rfl
  · rw [hconcat, List.concat_eq_append, List.getLast?_concat] at hlast
    rw [hconcat, List.concat_eq_append, List.foldlM_append] at h
    cases hbefore : cs.foldlM step start with
    | error e =>
      rw [hbefore] at h
      cases h
    | ok before =>
      have hlaststep : before.step c >>= pure = Except.ok r := by
        rw [hbefore] at h
        exact h
      rw [bind_pure] at hlaststep
      exact afterNumber_step (hlast c rfl) hlaststep

end Reader

section Append

variable {text : String}

theorem ofJsonText_append (text more : String) :
    ofJsonText (text ++ more) = (do (← Reader.afterText text).read more.toList) := by
  rw [ofJsonText, String.toList_append, List.foldlM_append, bind_assoc]
  simp only [Reader.foldlM_step_finish]
  rfl

theorem ofJsonText_eq_finish {r : Reader} (h : Reader.afterText text = .ok r) :
    ofJsonText text = r.finish := by
  rw [ofJsonText, ← Reader.afterText, h]
  rfl

theorem ofJsonText_append_eq_read {r : Reader} (h : Reader.afterText text = .ok r)
    (more : String) : ofJsonText (text ++ more) = r.read more.toList := by
  rw [ofJsonText_append, h]
  rfl

/-- An error at a character stays. -/
theorem ofJsonText_append_of_error {e : ReadError} (h : Reader.afterText text = .error e)
    (more : String) : ofJsonText (text ++ more) = .error e := by
  rw [ofJsonText_append, h]
  rfl

/-- An error at the end of a text stays if it is none of those that may go away. -/
theorem ofJsonText_append_iff {e : ReadError} (h : ofJsonText text = .error e)
    (hcategory : e.category ≠ .truncated)
    (hlast : ∀ c ∈ text.toList.getLast?, c.isDigit = false) :
    (∀ more, ofJsonText (text ++ more) = .error e) ↔
      ∀ r, Reader.afterText text = .ok r → ¬ r.Premature := by
  cases hstate : Reader.afterText text with
  | error e' =>
    have hsame : e' = e := by
      rw [ofJsonText, ← Reader.afterText, hstate] at h
      exact Except.error.inj h
    subst hsame
    refine ⟨fun _ r hr => ?_, fun _ more => ofJsonText_append_of_error hstate more⟩
    cases hr
  | ok r =>
    rw [ofJsonText_eq_finish hstate] at h
    constructor
    · rintro hkept _ ⟨⟩ hpremature
      obtain ⟨cs, hread⟩ := hpremature.exists_read_ne
      have hsame := hkept (String.ofList cs)
      rw [ofJsonText_append_eq_read hstate, String.toList_ofList] at hsame
      exact hread (hsame.trans h.symm)
    · intro hsettled
      have hnumber := Reader.afterNumber_afterText hlast hstate
      rcases Reader.finish_cases h with htruncated | hafter | hpremature
      · exact absurd htruncated hcategory
      · rw [hnumber] at hafter
        cases hafter
      · exact absurd hpremature (hsettled r rfl)

theorem ofJsonText_append_of_ok {r : Request} (h : ofJsonText text = .ok r) (more : String) :
    ofJsonText (text ++ more) =
      if Blanks more.toList then .ok r else .error .trailingCharacters := by
  cases hstate : Reader.afterText text with
  | error e =>
    rw [ofJsonText, ← Reader.afterText, hstate] at h
    cases h
  | ok state =>
    rw [ofJsonText_eq_finish hstate] at h
    have hcomplete : state = .complete r := by
      cases state <;> cases h
      rfl
    rw [ofJsonText_append_eq_read hstate, hcomplete, Reader.read_complete_eq]

end Append

/-- A text that is refused, other than for ending too early, and does not end in a digit is refused
in the same way whatever is written behind it, unless its end was judged before its time. Behind a
comma after the fields of an array, only a bracket changes the wording. Behind an accepted text,
only blanks are accepted. -/
theorem ofJsonText_append_settled (text : String) :
    (∀ e, ofJsonText text = .error e → e.category ≠ .truncated →
      (∀ c ∈ text.toList.getLast?, c.isDigit = false) →
        ((∀ more, ofJsonText (text ++ more) = .error e) ↔
          ∀ r, Reader.afterText text = .ok r → ¬ r.Premature)) ∧
      (Reader.afterText text = .ok .listSurplus → ∀ more, ofJsonText (text ++ more) = .error
        (if (more.toList.dropWhile isBlank).head? = some ']' then .trailingComma
          else .trailingCharacters)) ∧
      ∀ r, ofJsonText text = .ok r → ∀ more,
        (Blanks more.toList → ofJsonText (text ++ more) = .ok r) ∧
          (¬ Blanks more.toList → ofJsonText (text ++ more) = .error .trailingCharacters) := by
  refine ⟨fun e h hcategory hlast => ofJsonText_append_iff h hcategory hlast,
    fun h more => ?_, fun r h more => ?_⟩
  · rw [ofJsonText_append_eq_read h, Reader.read_listSurplus_eq]
  · have hread := ofJsonText_append_of_ok h more
    constructor
    · intro hblanks
      rw [hread, if_pos hblanks]
    · intro hblanks
      rw [hread, if_neg hblanks]

/-- A `null` among the fields, a surplus comma, and an accepted text. -/
theorem ofJsonText_append_settled_three_texts :
    (ofJsonText "\x7b\"fields\":[null" = .error (.wrongType .null .text) ∧
      (ReadError.wrongType .null .text).category ≠ .truncated ∧
      ∀ more, ofJsonText ("\x7b\"fields\":[null" ++ more) = .error (.wrongType .null .text)) ∧
    (Reader.afterText "[null,[\"a\"]," = .ok .listSurplus ∧
      ofJsonText ("[null,[\"a\"]," ++ " ]") = .error .trailingComma) ∧
    ofJsonText "\x7b\"fields\":[\"a\"]\x7d" = .ok ⟨none, ["a"]⟩ ∧
      ofJsonText ("\x7b\"fields\":[\"a\"]\x7d" ++ "\n") = .ok ⟨none, ["a"]⟩ ∧
      ofJsonText ("\x7b\"fields\":[\"a\"]\x7d" ++ " 0") = .error .trailingCharacters := by
  have hnull : ofJsonText "\x7b\"fields\":[null" = .error (.wrongType .null .text) := by
    decide +kernel
  have hcategory : (ReadError.wrongType .null .text).category ≠ .truncated := by decide
  have hend : "\x7b\"fields\":[null".toList.getLast? = some 'l' := by decide +kernel
  have hlast : ∀ c ∈ "\x7b\"fields\":[null".toList.getLast?, c.isDigit = false := by
    rw [hend]
    rintro c ⟨⟩
    decide
  have hstate : Reader.afterText "\x7b\"fields\":[null" = .error (.wrongType .null .text) := by
    decide +kernel
  have hsurplus : Reader.afterText "[null,[\"a\"]," = .ok .listSurplus := by decide +kernel
  have hread : ofJsonText "\x7b\"fields\":[\"a\"]\x7d" = .ok ⟨none, ["a"]⟩ := by
    decide +kernel
  refine ⟨⟨hnull, hcategory, ?_⟩, ⟨hsurplus, ?_⟩, hread, ?_, ?_⟩
  · refine ((ofJsonText_append_settled _).1 _ hnull hcategory hlast).2 fun r hr => ?_
    rw [hstate] at hr
    cases hr
  · rw [(ofJsonText_append_settled _).2.1 hsurplus]
    decide +kernel
  · exact ((ofJsonText_append_settled _).2.2 _ hread "\n").1 (by decide)
  · exact ((ofJsonText_append_settled _).2.2 _ hread " 0").2 (by decide)

/-- A number whose minus sign is the end of the text, and a bracket after a surplus comma. -/
theorem ofJsonText_append_unsettled :
    (ofJsonText "\x7b\"x\":-" = .error .badNumber ∧ ReadError.badNumber.category = .grammar ∧
      '-'.isDigit = false ∧
      ofJsonText ("\x7b\"x\":-" ++ "1,\"fields\":[\"a\"]\x7d") = .ok ⟨none, ["a"]⟩) ∧
    (ofJsonText "[null,[\"a\"]," = .error .trailingCharacters ∧
      ReadError.trailingCharacters.category = .grammar ∧ ','.isDigit = false ∧
      ofJsonText ("[null,[\"a\"]," ++ "]") = .error .trailingComma ∧
      ReadError.trailingComma.message ≠ ReadError.trailingCharacters.message) := by
  decide +kernel

end Request
end FieldPipeline
