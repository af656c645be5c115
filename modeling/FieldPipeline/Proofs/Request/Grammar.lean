import FieldPipeline.Proofs.Json.Printed
import FieldPipeline.Proofs.Request.Object

/-!
# The grammar of requests

The reader decides from one character to the next what the relation between values and requests says
about a value as a whole. Each part of a written request is judged for every rest of the text: it
is taken for what it stands for, or refused for its shape.
-/

namespace FieldPipeline.Request

open Json

namespace Reader

theorem judged_listKey {v : Json} {cs : List Char} (hv : Written v cs) (hsized : v.Sized)
    {rest : List Char} (hrest : Delimited rest) :
    Judged (fun key => (listKeyRead key).read rest) (key? v) (listOpened.read (cs ++ rest)) := by
  have hopened : listOpened.read (cs ++ rest) = (listKey .start).read (cs ++ rest) := by
    refine read_begun_congr .listOpened .listKey (fun c hc => ?_) (hv.begun.append rest)
    obtain ⟨hblank, -, hbracket, -⟩ := not_blank_of_not_delimiter hc
    simp [step, hblank, hbracket]
  rw [hopened, read_listKey]
  exact judged_written hv KeyReader.step_start_blank
    (fun key _ rest hblanks => read_blanks (.listKeyRead key) hblanks rest)
    (fun hv => KeyReader.judged_key hv hsized) hrest

theorem judged_listFields (key : Option String) {v : Json} {cs : List Char} (hv : Written v cs)
    (hsized : v.Sized) {rest : List Char} (hrest : Delimited rest) :
    Judged (fun fields => (listFieldsRead ⟨key, fields⟩).read rest) (texts? v)
      ((listComma key).read (cs ++ rest)) := by
  have hopened : (listComma key).read (cs ++ rest) =
      (listFields key .start).read (cs ++ rest) := by
    refine read_begun_congr (.listComma key) (.listFields key) (fun c hc => ?_)
      (hv.begun.append rest)
    obtain ⟨hblank, -, hbracket, -⟩ := not_blank_of_not_delimiter hc
    simp [step, hblank, hbracket]
  rw [hopened, read_listFields]
  exact judged_written hv TextList.Waits.start.step_blank
    (fun fields _ rest hblanks =>
      read_blanks (.listFieldsRead ⟨key, fields⟩) hblanks rest)
    (fun hv => TextList.judged_texts hv hsized) hrest

theorem judged_pair {v w : Json} {cs cs' : List Char} (hv : Written v cs) (hw : Written w cs')
    (hvsized : v.Sized) (hwsized : w.Sized) {rest : List Char} (hrest : Delimited rest) :
    Judged (fun r => (listFieldsRead r).read rest) (request? (.array [v, w]))
      (listOpened.read (cs ++ ',' :: (cs' ++ rest))) := by
  refine (judged_listKey hv hvsized (delimited_cons rfl _)).bind fun key => ?_
  rw [read_of_step (listComma key) rfl]
  exact (judged_listFields key hw hwsized hrest).map fun fields => rfl

/-- Nothing may follow the fields in an array. -/
theorem read_listSurplus {cs : List Char} (h : Begun cs) :
    listSurplus.read cs = .error .trailingCharacters := by
  obtain ⟨blanks, c, rest, rfl, hblanks, hc⟩ := h
  obtain ⟨hblank, -, hbracket, -⟩ := not_blank_of_not_delimiter hc
  rw [read_blanks .listSurplus hblanks]
  exact read_of_step_error (by simp [step, hblank, hbracket]) rest

/-- The items of an array after its bracket, if they are not too many. -/
theorem judged_list {items : List Json} {cs : List Char} (h : WrittenItems items cs)
    (hsized : ∀ v ∈ items, v.Sized) (hshort : ¬ Overlong (.array items)) {blanks : List Char}
    (hblanks : Blanks blanks) :
    Judged Except.ok (request? (.array items)) (listOpened.read (cs ++ ']' :: blanks)) := by
  cases h with
  | @last v cs hv =>
    have hkey := judged_listKey hv (hsized v List.mem_cons_self)
      (delimited_cons (c := ']') rfl blanks)
    have hnone : request? (.array [v]) = (key? v).bind fun _ => none := by
      rw [Option.bind_fun_none]
      rfl
    rw [hnone]
    exact hkey.bind fun key => .refused rfl
  | @more v cs vs more hv hvs =>
    have hvsized : v.Sized := hsized v List.mem_cons_self
    cases hvs with
    | @last w cs' hw =>
      have hwsized : w.Sized := hsized w (by simp)
      have hpair := judged_pair hv hw hvsized hwsized (delimited_cons (c := ']') rfl blanks)
      rw [List.append_assoc, List.cons_append]
      refine hpair.congr fun r => ?_
      rw [read_of_step (complete r) rfl]
      exact read_complete r hblanks
    | @more w cs' vs more hw hvs =>
      have hwsized : w.Sized := hsized w (by simp)
      have htext : cs ++ ',' :: (cs' ++ ',' :: more) ++ ']' :: blanks =
          cs ++ ',' :: (cs' ++ ',' :: (more ++ ']' :: blanks)) := by simp
      have hpair := judged_pair hv hw hvsized hwsized
        (delimited_cons (c := ',') rfl (more ++ ']' :: blanks))
      obtain ⟨extra, vs, rfl⟩ := hvs.exists_cons
      rw [htext]
      cases hfound : request? (.array [v, w]) with
      | none =>
        rw [hfound] at hpair
        generalize listOpened.read _ = outcome at hpair ⊢
        cases hpair with
        | refused h => exact .refused h
      | some r =>
        cases request?_eq_some_iff.1 hfound with
        | list hkey fields => exact absurd (.mk hkey fields extra vs) hshort

/-- The items of an array after its bracket, if they are too many. -/
theorem read_overlong_list {items : List Json} {cs : List Char} (h : WrittenItems items cs)
    (hsized : ∀ v ∈ items, v.Sized) (hlong : Overlong (.array items)) (rest : List Char) :
    listOpened.read (cs ++ ']' :: rest) = .error .trailingCharacters := by
  cases hlong with
  | @mk v key hkey fields extra items =>
    cases h with
    | @more _ cs _ more hv hvs =>
      cases hvs with
      | @more _ cs' _ more hw hvs =>
        have hvsized : v.Sized := hsized v (by simp)
        have hwsized : (strings fields).Sized := hsized (strings fields) (by simp)
        have htext : cs ++ ',' :: (cs' ++ ',' :: more) ++ ']' :: rest =
            cs ++ ',' :: (cs' ++ ',' :: (more ++ ']' :: rest)) := by simp
        have hpair := judged_pair hv hw hvsized hwsized
          (delimited_cons (c := ',') rfl (more ++ ']' :: rest))
        rw [request?_eq_some_iff.2 (.list hkey fields)] at hpair
        rw [htext, hpair.eq_of_some, read_of_step listSurplus rfl]
        exact read_listSurplus (hvs.begun.append _)

variable {v : Json} {cs blanks : List Char}

theorem read_unwanted (hv : Bare v cs) (hsized : v.Sized) (hlist : ∀ items, v ≠ .array items)
    (hobject : ∀ members, v ≠ .object members) {rest : List Char} (hrest : Delimited rest) :
    start.read (cs ++ rest) = .error (.wrongType v.kind .request) := by
  rw [← Unwanted.refusal_bare hv hsized hrest]
  obtain ⟨c, tail, rfl, hc, -, -, hbracket, hbrace⟩ := hv.exists_cons
  obtain ⟨hblank, -, -, -⟩ := not_blank_of_not_delimiter hc
  have hnlist : c ≠ '[' := fun h => (hbracket.1 h).elim hlist
  have hnobject : c ≠ '{' := fun h => (hbrace.1 h).elim hobject
  rw [List.cons_append, Unwanted.refusal, read]
  simp only [step, hblank, hnlist, hnobject, if_false, Bool.false_eq_true]
  cases Unwanted.start .request c with
  | error e => rfl
  | ok u => exact read_refused u (tail ++ rest)

/-- A written value is read as the request it stands for or refused for its shape, unless it is an
array with too many items. -/
theorem judged_bare (hv : Bare v cs) (hsized : v.Sized) (hshort : ¬ Overlong v)
    (hblanks : Blanks blanks) :
    Judged Except.ok (request? v) (start.read (cs ++ blanks)) := by
  have hrest : Delimited blanks := by
    have h := delimited_nil.blanks_append hblanks
    rwa [List.append_nil] at h
  cases v with
  | array items =>
    cases hv with
    | @emptyArray inner hinner =>
      rw [enclosed_append, read_of_step listOpened rfl,
        read_blanks .listOpened hinner]
      exact .refused rfl
    | @array _ inner hinner =>
      cases hsized with
      | array hitems =>
        rw [enclosed_append, read_of_step listOpened rfl]
        exact judged_list hinner hitems hshort hblanks
  | object members =>
    cases hv with
    | @emptyObject inner hinner =>
      rw [enclosed_append, read_of_step objectOpened rfl,
        read_blanks .objectOpened hinner]
      exact .refused rfl
    | @object _ inner hinner =>
      cases hsized with
      | object hmembers =>
        rw [enclosed_append, read_of_step objectOpened rfl, read_objectOpened hinner]
        exact (judged_members hinner hmembers {} blanks).bind fun m => judged_close m hblanks
  | _ =>
    rw [read_unwanted hv hsized (fun _ => nofun) (fun _ => nofun) hrest]
    exact .refused rfl

theorem read_overlong (hv : Bare v cs) (hsized : v.Sized) (hlong : Overlong v) (rest : List Char) :
    start.read (cs ++ rest) = .error .trailingCharacters := by
  cases hv with
  | @array items inner hinner =>
    cases hsized with
    | array hitems =>
      rw [enclosed_append, read_of_step listOpened rfl]
      exact read_overlong_list hinner hitems hlong rest
  | _ => cases hlong

end Reader

/-- The reader accepts exactly the values that stand for a request, each as that request, however
they are written. Every other value is refused for its shape, but an array that goes on behind a
key and fields is refused as bad JSON. -/
theorem ofJsonText_of_written {v : Json} {text : String} (hsized : v.Sized)
    (hv : Written v text.toList) :
    (∀ r, ofJsonText text = .ok r ↔ Represented v r) ∧
      (Overlong v → ofJsonText text = .error .trailingCharacters ∧
        ReadError.trailingCharacters.category = .grammar) ∧
      ((∀ r, ¬ Represented v r) → ¬ Overlong v →
        ∃ e, ofJsonText text = .error e ∧ e.category = .data) := by
  rw [ofJsonText_eq_read]
  generalize text.toList = cs at hv
  cases hv with
  | @mk _ before cs after hbefore hv hafter =>
    rw [Reader.read_blanks .start hbefore]
    by_cases hlong : Overlong v
    · have hread := Reader.read_overlong hv hsized hlong after
      refine ⟨fun r => ?_, fun _ => ⟨hread, rfl⟩, fun _ h => absurd hlong h⟩
      rw [hread]
      constructor
      · intro h
        cases h
      · intro h
        exact absurd h (hlong.not_represented r)
    · have hjudged := Reader.judged_bare hv hsized hlong hafter
      refine ⟨fun r => ?_, fun h => absurd h hlong, fun hnone _ => ?_⟩
      · rw [← request?_eq_some_iff]
        exact hjudged.eq_ok_iff
      · have hfound : request? v = none :=
          Option.eq_none_iff_forall_ne_some.2 fun r h => hnone r (request?_eq_some_iff.1 h)
        rw [hfound] at hjudged
        exact hjudged.exists_error

theorem ofJsonText_of_written_unknown_member :
    Sized (.object [("x", .array [.integer (-1)]), ("fields", strings ["a.b"])]) ∧
      Written (.object [("x", .array [.integer (-1)]), ("fields", strings ["a.b"])])
        "\t\x7b\"x\":[-1],\"fields\":[\"a.b\"]\x7d\n".toList ∧
      ofJsonText "\t\x7b\"x\":[-1],\"fields\":[\"a.b\"]\x7d\n" = .ok ⟨none, ["a.b"]⟩ := by
  have hsized : Sized (.object [("x", .array [.integer (-1)]), ("fields", strings ["a.b"])]) := by
    refine .object fun member hmember => ?_
    simp only [List.mem_cons, List.not_mem_nil, or_false] at hmember
    rcases hmember with rfl | rfl
    · refine .array fun v hv => ?_
      rw [List.mem_singleton.1 hv]
      exact .integer (by decide) (by decide)
    · refine .array fun v hv => ?_
      rw [List.mem_singleton.1 hv]
      exact .string "a.b"
  have htext : "\t\x7b\"x\":[-1],\"fields\":[\"a.b\"]\x7d\n".toList =
      ['\t'] ++
        compactChars (.object [("x", .array [.integer (-1)]), ("fields", strings ["a.b"])]) ++
          ['\n'] := by
    decide +kernel
  have hwritten : Written (.object [("x", .array [.integer (-1)]), ("fields", strings ["a.b"])])
      "\t\x7b\"x\":[-1],\"fields\":[\"a.b\"]\x7d\n".toList := by
    rw [htext]
    exact (bare_compactChars _).written (by decide) (by decide)
  have hread := (ofJsonText_of_written hsized hwritten).1 ⟨none, ["a.b"]⟩
  exact ⟨hsized, hwritten, hread.2 (.object rfl .absent)⟩

end FieldPipeline.Request
