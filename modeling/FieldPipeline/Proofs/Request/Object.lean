import FieldPipeline.Proofs.Request.Represented
import FieldPipeline.Proofs.Request.Skipping

/-!
# Reading written objects

The value of each member is read as its name says: as the key, as the fields, or as something to
skip. Member by member, the reader takes what the request is computed from.
-/

namespace FieldPipeline.Request

open Json

namespace KeyReader

variable {ρ : Type} {next : Option String → List Char → Except ReadError ρ}

theorem step_start_blank (c : Char) (hc : isBlank c = true) :
    step .start c = .ok (.more .start) := by
  simp [step, hc]

theorem through_text (q : Quoted) (cs : List Char) :
    through step finish next (.text q) cs =
      through (Quoted.step true) (fun _ => .endInText) (fun s => next (some s)) q cs := by
  refine through_inner (Quoted.step true) (fun _ => .endInText) KeyReader.text
    (fun s => .done (some s)) (fun q c => ?_) (fun _ => rfl) q cs
  rw [step]
  congr 1
  funext progress
  cases progress <;> rfl

theorem judged_key {v : Json} {cs : List Char} (hv : Bare v cs) (hsized : v.Sized)
    {rest : List Char} (hrest : Delimited rest) :
    Judged (fun key => next key rest) (key? v) (through step finish next .start (cs ++ rest)) := by
  obtain ⟨c, tail, hcs, hc, hnull, hquote, -, -⟩ := hv.exists_cons
  obtain ⟨hblank, -, -, -⟩ := not_blank_of_not_delimiter hc
  cases v with
  | null =>
    cases hv
    exact .found none
  | string s =>
    cases hv
    rw [quoted_append, through_more (.text .opened) rfl, through_text, through_quoted]
    exact .found (some s)
  | _ =>
    have hn : c ≠ 'n' := by
      intro h
      cases hnull.1 h
    have hq : c ≠ '"' := by
      intro h
      obtain ⟨s, hs⟩ := hquote.1 h
      cases hs
    have hstart : step .start c = (Unwanted.start .text c).map fun u => .more (.refused u) := by
      simp only [step, hblank, hn, hq, if_false, Bool.false_eq_true]
    rw [hcs] at hv ⊢
    rw [through_unwanted KeyReader.refused (fun _ _ => rfl) (fun _ => rfl) hstart hv hsized hrest]
    exact .refused rfl

end KeyReader

namespace Reader

theorem startColon_eq (m : Members) (name : String) :
    startColon m name = .error (.duplicate name) ∨ startColon m name = .ok (colon m name) := by
  unfold startColon
  split
  · exact .inl rfl
  · exact .inr rfl

/-- A place is taken once, by a value that fits. -/
theorem judged_fill {α : Type} {value? : Json → Option α} {place : Option α}
    {put : Option α → Members} {v : Json} {rest : List Char} {outcome : Except ReadError Request}
    (name : String) (htaken : place.isSome → outcome = .error (.duplicate name))
    (hfree : place = none →
      Judged (fun a => (memberRead (put (some a))).read rest) (value? v) outcome) :
    Judged (fun m => (memberRead m).read rest) ((fill? value? place v).map put) outcome := by
  cases place with
  | some a =>
    rw [htaken rfl]
    exact .refused rfl
  | none =>
    rw [fill?, Option.map_map]
    exact (hfree rfl).map fun _ => rfl

/-- The value of a member is read as its name says. -/
theorem judged_value (m : Members) (name : String) {v : Json} {cs : List Char} (hv : Written v cs)
    (hsized : v.Sized) {rest : List Char} (hrest : Delimited rest) :
    Judged (fun m => (memberRead m).read rest) (m.take? (name, v))
      (do (← startColon m name).read (':' :: (cs ++ rest))) := by
  by_cases hkey : name = "session_key"
  · subst hkey
    rw [Members.take?, if_pos rfl]
    refine judged_fill "session_key" (fun hplace => ?_) (fun hplace => ?_)
    · have hstart : startColon m "session_key" = .error (.duplicate "session_key") := by
        simp [startColon, hplace]
      rw [hstart]
      rfl
    · have hstart : startColon m "session_key" = .ok (colon m "session_key") := by
        simp [startColon, hplace]
      have hread : (do (← startColon m "session_key").read (':' :: (cs ++ rest))) =
          (keyValue m .start).read (cs ++ rest) := by
        rw [hstart]
        rfl
      rw [hread, read_keyValue]
      exact judged_written hv KeyReader.step_start_blank
        (fun key _ rest hblanks =>
          read_blanks (.memberRead { m with sessionKey := some key }) hblanks rest)
        (fun hv => KeyReader.judged_key hv hsized) hrest
  by_cases hfields : name = "fields"
  · subst hfields
    rw [Members.take?, if_neg hkey, if_pos rfl]
    refine judged_fill "fields" (fun hplace => ?_) (fun hplace => ?_)
    · have hstart : startColon m "fields" = .error (.duplicate "fields") := by
        simp [startColon, hplace]
      rw [hstart]
      rfl
    · have hstart : startColon m "fields" = .ok (colon m "fields") := by
        simp [startColon, hplace]
      have hread : (do (← startColon m "fields").read (':' :: (cs ++ rest))) =
          (fieldsValue m .start).read (cs ++ rest) := by
        rw [hstart]
        rfl
      rw [hread, read_fieldsValue]
      exact judged_written hv TextList.Waits.start.step_blank
        (fun fields _ rest hblanks =>
          read_blanks (.memberRead { m with fields := some fields }) hblanks rest)
        (fun hv => TextList.judged_texts hv hsized) hrest
  have hstart : startColon m name = .ok (colon m name) := by
    simp [startColon, hkey, hfields]
  have hskip : (colon m name).step ':' = .ok (skipValue m .start) := by
    simp [step, isBlank, startMember, hkey, hfields]
  have hread : (do (← startColon m name).read (':' :: (cs ++ rest))) =
      (memberRead m).read rest := by
    rw [hstart]
    exact (read_of_step _ hskip _).trans (read_skipped hv [] hrest)
  rw [hread, Members.take?, if_neg hkey, if_neg hfields]
  exact .found m

/-- A member, from the blanks before its name on. -/
theorem judged_member (m : Members) {name : String} {v : Json} {before gap cs : List Char}
    (hbefore : Blanks before) (hgap : Blanks gap) (hv : Written v cs) (hsized : v.Sized)
    {rest : List Char} (hrest : Delimited rest) :
    Judged (fun m => (memberRead m).read rest) (m.take? (name, v))
      ((nameStart m).read (before ++ (quoted name ++ (gap ++ ':' :: (cs ++ rest))))) := by
  have hvalue := judged_value m name hv hsized hrest
  rw [read_blanks (.nameStart m) hbefore, quoted_append,
    read_of_step (nameText m .opened) rfl, read_nameText]
  rcases startColon_eq m name with hstart | hstart
  · rw [hstart] at hvalue ⊢
    exact hvalue
  · rw [hstart] at hvalue ⊢
    change Judged _ _ ((colon m name).read (gap ++ ':' :: (cs ++ rest)))
    rw [read_blanks (.colon m name) hgap]
    exact hvalue

/-- The members of an object, to its closing brace. -/
theorem judged_members {members : List (String × Json)} {cs : List Char}
    (h : WrittenMembers members cs) (hsized : ∀ member ∈ members, member.2.Sized) (m : Members)
    (rest : List Char) :
    Judged (fun m => do (← close m).read rest) (members.foldlM Members.take? m)
      ((nameStart m).read (cs ++ '}' :: rest)) := by
  match h with
  | @WrittenMembers.last name v before gap cs hbefore hgap hv =>
    rw [entry_append, List.foldlM_cons]
    exact (judged_member m hbefore hgap hv (hsized _ List.mem_cons_self)
      (delimited_cons rfl rest)).bind fun m => .found m
  | @WrittenMembers.more name v before gap cs members more hbefore hgap hv hmembers =>
    rw [entry_append, List.append_assoc, List.cons_append, List.foldlM_cons]
    refine (judged_member m hbefore hgap hv (hsized _ List.mem_cons_self)
      (delimited_cons rfl _)).bind fun m => ?_
    rw [read_of_step (nameStart m) rfl]
    exact judged_members hmembers (fun member hmember => hsized member (.tail _ hmember)) m rest

theorem read_objectOpened {members : List (String × Json)} {cs : List Char}
    (h : WrittenMembers members cs) (rest : List Char) :
    objectOpened.read (cs ++ rest) = (nameStart {}).read (cs ++ rest) := by
  obtain ⟨before, tail, rfl, hbefore⟩ := h.exists_blanks_append
  rw [List.append_assoc, read_blanks .objectOpened hbefore,
    read_blanks (.nameStart {}) hbefore]
  exact read_congr rfl (tail ++ rest)

theorem read_complete (r : Request) {blanks : List Char} (hblanks : Blanks blanks) :
    (complete r).read blanks = .ok r := by
  have hread := read_blanks (.complete r) hblanks []
  rw [List.append_nil] at hread
  exact hread

theorem judged_close (m : Members) {blanks : List Char} (hblanks : Blanks blanks) :
    Judged Except.ok (m.fields.map fun fields => ⟨m.sessionKey.join, fields⟩)
      (do (← close m).read blanks) := by
  cases hfields : m.fields with
  | none =>
    have hclose : close m = .error (.missing "fields") := by rw [close, hfields]
    rw [hclose]
    exact .refused rfl
  | some fields =>
    have hclose : close m = .ok (complete ⟨m.sessionKey.join, fields⟩) := by rw [close, hfields]
    have hread : (do (← close m).read blanks) = .ok ⟨m.sessionKey.join, fields⟩ := by
      rw [hclose]
      exact read_complete _ hblanks
    rw [hread]
    exact .found _

end Reader

end FieldPipeline.Request
