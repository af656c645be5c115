import FieldPipeline.Path.Json
import FieldPipeline.Proofs.Json.Position
import FieldPipeline.Proofs.Json.Printed
import FieldPipeline.Proofs.Json.Spelling
import FieldPipeline.Proofs.Path.Check

/-!
# Paths through JSON and back

Reading the text of a list of strings is checking that list: the escapes undo themselves, whichever
of them are used, and a refusal is the refusal of the check. Its wording passes unchanged unless the
path itself ends in the words of a position.
-/

namespace FieldPipeline.FieldPath

open Json

namespace Reader

/-- What the reader makes of a complete array and the text behind it. -/
def settle (segments : List String) (rest : List Char) : Except ReadError FieldPath :=
  match FieldPath.ofSegments segments with
  | .ok p => if Blanks rest then .ok p else .error .trailingCharacters
  | .error fault => .error (.badPath fault)

theorem settle_blanks (segments : List String) {rest : List Char} (h : Blanks rest) :
    settle segments rest = (FieldPath.ofSegments segments).mapError .badPath := by
  rw [settle]
  cases FieldPath.ofSegments segments with
  | ok p => exact if_pos h
  | error fault => rfl

theorem foldlM_complete (p : FieldPath) (cs : List Char) :
    (do (← cs.foldlM step (.complete p)).finish) =
      if Blanks cs then .ok p else .error .trailingCharacters := by
  induction cs with
  | nil =>
    rw [if_pos blanks_nil]
    rfl
  | cons c cs ih =>
    rw [List.foldlM_cons]
    cases hc : isBlank c with
    | true =>
      have hstep : step (.complete p) c = .ok (.complete p) := by simp [step, hc]
      have hblanks : Blanks (c :: cs) ↔ Blanks cs := by simp [Blanks, hc]
      rw [hstep]
      simp only [hblanks]
      exact ih
    | false =>
      have hstep : step (.complete p) c = .error .trailingCharacters := by simp [step, hc]
      have hblanks : ¬ Blanks (c :: cs) := by simp [Blanks, hc]
      rw [hstep, if_neg hblanks]
      rfl

/-- The reader runs the machine for lists of strings and settles what it finds. -/
theorem foldlM_reading (l : TextList) (cs : List Char) :
    (do (← cs.foldlM step (.reading l)).finish) =
      through TextList.step TextList.finish settle l cs := by
  induction cs generalizing l with
  | nil => rfl
  | cons c cs ih =>
    rw [List.foldlM_cons, through]
    cases hl : l.step c with
    | error e =>
      have hstep : step (.reading l) c = .error e := by rw [step, hl]; rfl
      rw [hstep]
      rfl
    | ok progress =>
      cases progress with
      | more l' =>
        have hstep : step (.reading l) c = .ok (.reading l') := by rw [step, hl]; rfl
        rw [hstep]
        exact ih l'
      | done segments =>
        dsimp only
        rw [settle]
        cases hcheck : FieldPath.ofSegments segments with
        | ok p =>
          have hstep : step (.reading l) c = .ok (.complete p) := by
            rw [step, hl]
            simp [bind, Except.bind, hcheck, pure, Except.pure]
          rw [hstep]
          exact foldlM_complete p cs
        | error fault =>
          have hstep : step (.reading l) c = .error (.badPath fault) := by
            rw [step, hl]
            simp [bind, Except.bind, hcheck, throw, throwThe, MonadExceptOf.throw]
          rw [hstep]
          rfl

end Reader

theorem ofJsonText_eq_through (text : String) :
    ofJsonText text =
      through TextList.step TextList.finish Reader.settle .start text.toList :=
  Reader.foldlM_reading .start text.toList

/-- The compact text of a list of strings is read as the check of the list decides. -/
theorem ofJsonText_compact_strings (segments : List String) :
    ofJsonText (strings segments).compact = (ofSegments segments).mapError .badPath := by
  have hjudged : Judged (fun texts => Reader.settle texts []) (texts? (strings segments))
      (through TextList.step TextList.finish Reader.settle .start
        (compactChars (strings segments) ++ [])) :=
    TextList.judged_texts (bare_compactChars (strings segments)) (sized_strings segments)
      delimited_nil
  rw [texts?_eq_some_iff.2 rfl, List.append_nil] at hjudged
  rw [ofJsonText_eq_through, compact, String.toList_ofList, hjudged.eq_of_some,
    Reader.settle_blanks segments blanks_nil]

theorem dotted_or_empty {segments : List String} (h : "" ∈ segments) :
    Dots.join segments = "" ∨ '.' ∈ (Dots.join segments).toList := by
  cases segments with
  | nil => cases h
  | cons s rest =>
    cases rest with
    | nil =>
      obtain rfl := List.mem_singleton.1 h
      exact .inl rfl
    | cons next rest =>
      rw [Dots.toList_join_cons_cons]
      exact .inr (List.mem_append_right _ List.mem_cons_self)

theorem toList_message (text : String) (position : Nat) :
    ∃ front, (Fault.emptyAt text position).message.toList = front ++ ' ' :: text.toList := by
  have hblank : " in field path: " = " in field path:" ++ " " := by decide
  have hmessage : (Fault.emptyAt text position).message =
      "empty segment at position " ++ toString position ++ (" in field path:" ++ " ") ++ text :=
    congrArg (fun words => "empty segment at position " ++ toString position ++ words ++ text) hblank
  have happend (first number second : String) :
      (first ++ number ++ (second ++ " ") ++ text).toList =
        (first ++ number ++ second).toList ++ ' ' :: text.toList := by simp
  exact ⟨_, (congrArg String.toList hmessage).trans
    (happend "empty segment at position " (toString position) " in field path:")⟩

/-- The message of an empty segment ends in a position only if the path in it does. -/
theorem endsInPosition_of_message {text : String} {position : Nat}
    (htext : text = "" ∨ '.' ∈ text.toList)
    (h : EndsInPosition (Fault.emptyAt text position).message) : EndsInPosition text := by
  obtain ⟨front, hfront⟩ := toList_message text position
  rcases htext with rfl | hdot
  · obtain ⟨c, hlast, hdigit⟩ := h.exists_last_digit
    rw [hfront, String.toList_empty, List.getLast?_concat] at hlast
    obtain rfl := Option.some.inj hlast
    exact absurd hdigit (by decide)
  · -- A position has no dot, so it stands behind the last dot of the path.
    obtain ⟨before, line, column, hline, hcolumn, hmessage⟩ := h
    obtain ⟨init, back, hpath⟩ := List.mem_iff_append.1 hdot
    have hwords : (front ++ ' ' :: init) ++ '.' :: back = before ++ positionWords line column := by
      rw [← hmessage, hfront, hpath, List.append_assoc]
      rfl
    obtain ⟨middle, hback⟩ := exists_eq_append_of_notMem hwords
      (notMem_positionWords (by decide) (by decide) (by decide) hline hcolumn)
    refine ⟨init ++ '.' :: middle, line, column, hline, hcolumn, ?_⟩
    rw [hpath, hback, List.append_assoc, List.cons_append]

/-- The wording of a refusal passes through the reader. -/
theorem message_badPath {segments : List String} {fault : Fault}
    (h : ofSegments segments = .error fault) (hend : ¬ EndsInPosition (Dots.join segments)) :
    (ReadError.badPath fault).message = fault.message := by
  rcases ofSegments_eq_error_iff.1 h with ⟨-, rfl⟩ | ⟨hempty, rfl⟩
  · rfl
  · exact withoutPosition_eq_self fun hposition =>
      hend (endsInPosition_of_message (dotted_or_empty hempty) hposition)

/-- Reading the written list of any strings gives what the check of the list gives: its path, or an
error of shape with the wording of its refusal. So a path without an empty segment reads back from
its own text, and any other path is refused at its first empty segment. -/
theorem ofJsonText_compact :
    (∀ segments : List String,
      ofJsonText (strings segments).compact = (ofSegments segments).mapError .badPath ∧
        ∀ fault, ofSegments segments = .error fault →
          (ReadError.badPath fault).category = .data ∧
            (¬ EndsInPosition (Dots.join segments) →
              (ReadError.badPath fault).message = fault.message)) ∧
      (∀ p : FieldPath, "" ∉ p.segments → ofJsonText p.toJson.compact = .ok p) ∧
      ∀ p : FieldPath, "" ∈ p.segments → ofJsonText p.toJson.compact =
        .error (.badPath (.emptyAt p.dotted (p.segments.idxOf ""))) := by
  refine ⟨fun segments => ⟨ofJsonText_compact_strings segments, fun fault h => ?_⟩,
    fun p h => ?_, fun p h => ?_⟩
  · exact ⟨rfl, message_badPath h⟩
  · have hread := ofJsonText_compact_strings p.segments
    rw [ofSegments_segments h] at hread
    exact hread
  · have hread := ofJsonText_compact_strings p.segments
    rw [ofSegments_of_mem_empty h] at hread
    exact hread

/-- Segments with a dot, a quote, a zero character and a character beyond 16 bits, and a list with
two empty segments. -/
theorem ofJsonText_compact_two_empty :
    ofSegments ["a.b", "", "\"", ""] = .error (.emptyAt "a.b..\"." 1) ∧
      ¬ EndsInPosition (Dots.join ["a.b", "", "\"", ""]) ∧
      (ReadError.badPath (.emptyAt "a.b..\"." 1)).message =
        (Fault.emptyAt "a.b..\"." 1).message ∧
      ofJsonText (FieldPath.mk "a.b" ["", "\"", ""]).toJson.compact =
        .error (.badPath (.emptyAt "a.b..\"." 1)) ∧
      ofJsonText (FieldPath.mk "a.b" ["\"\x00", "😀"]).toJson.compact =
        .ok ⟨"a.b", ["\"\x00", "😀"]⟩ := by
  have hrefused : ofSegments ["a.b", "", "\"", ""] = .error (.emptyAt "a.b..\"." 1) := by decide
  have hend : ¬ EndsInPosition (Dots.join ["a.b", "", "\"", ""]) := by
    intro h
    obtain ⟨c, hlast, hdigit⟩ := h.exists_last_digit
    have hdot : c = '.' := (Option.some.inj hlast).symm
    rw [hdot] at hdigit
    exact absurd hdigit (by decide)
  exact ⟨hrefused, hend, ((ofJsonText_compact.1 _).2 _ hrefused).2 hend,
    ofJsonText_compact.2.2 ⟨"a.b", ["", "\"", ""]⟩ (by decide),
    ofJsonText_compact.2.1 ⟨"a.b", ["\"\x00", "😀"]⟩ (by decide)⟩

/-- The text of an array of strings is read as the check of the list decides, however the strings
are spelled. -/
theorem ofJsonText_spelled_array {segments : List String} {before cs after : List Char}
    (hbefore : Blanks before) (h : SpelledArray segments cs) (hafter : Blanks after) :
    ofJsonText (String.ofList (before ++ (cs ++ after))) =
      (ofSegments segments).mapError .badPath := by
  rw [ofJsonText_eq_through, String.toList_ofList,
    through_blanks TextList.Waits.start.step_blank hbefore, TextList.through_spelledArray h,
    Reader.settle_blanks segments hafter]

/-- Strings that are not empty are read as the path with exactly these segments, in whatever way
each of their characters is written and with any blanks between tokens. Only where there is no
string at all is there no path, and the text is refused. -/
theorem ofJsonText_spelled {segments : List String} {before cs after : List Char}
    (hbefore : Blanks before) (h : SpelledArray segments cs) (hafter : Blanks after)
    (hfilled : ∀ s ∈ segments, s ≠ "") :
    (segments ≠ [] → ∃ p : FieldPath, p.segments = segments ∧
      ofJsonText (String.ofList (before ++ (cs ++ after))) = .ok p) ∧
      (segments = [] → ∃ e, ofJsonText (String.ofList (before ++ (cs ++ after))) = .error e ∧
        e.category = .data ∧ e.message = "field path must not be empty") := by
  have hread := ofJsonText_spelled_array hbefore h hafter
  have hmem : "" ∉ segments := fun hempty => hfilled "" hempty rfl
  constructor
  · intro hne
    obtain ⟨head, tail, rfl⟩ := List.exists_cons_of_ne_nil hne
    have hok : ofSegments (head :: tail) = .ok ⟨head, tail⟩ := ofSegments_eq_ok_iff.2 ⟨rfl, hmem⟩
    rw [hok] at hread
    exact ⟨⟨head, tail⟩, rfl, hread⟩
  · rintro rfl
    exact ⟨.badPath .noSegment, hread, rfl, rfl⟩

/-- A letter by its code, a slash and a line break behind a backslash, and a surrogate pair with
digits of both cases. -/
theorem ofJsonText_spelled_each_way :
    (∀ s ∈ ["a/", "\n😀"], s ≠ "") ∧
      ∃ cs, SpelledArray ["a/", "\n😀"] cs ∧
        String.ofList ([' '] ++ (cs ++ [])) = " [\"\\u0061\\/\" ,\"\\n\\uD83d\\uDE00\"]" ∧
        ∃ p : FieldPath, p.segments = ["a/", "\n😀"] ∧
          ofJsonText " [\"\\u0061\\/\" ,\"\\n\\uD83d\\uDE00\"]" = .ok p := by
  have hfirst : Spelled "a/".toList ('\\' :: 'u' :: ['0', '0', '6', '1'] ++ (['\\', '/'] ++ [])) :=
    .cons (.code (by decide)) (.cons (.short (by decide)) .nil)
  have hpair : Spelling '😀'
      ('\\' :: 'u' :: (['D', '8', '3', 'd'] ++ '\\' :: 'u' :: ['D', 'E', '0', '0'])) :=
    .pair (by decide) (by decide) (by decide)
  have hsecond : Spelled "\n😀".toList (['\\', 'n'] ++
      ('\\' :: 'u' :: (['D', '8', '3', 'd'] ++ '\\' :: 'u' :: ['D', 'E', '0', '0']) ++ [])) :=
    .cons (.short (by decide)) (.cons hpair .nil)
  have hblank : Blanks [' '] := by decide
  have harray :=
    SpelledArray.items (.more blanks_nil hfirst hblank (.last blanks_nil hsecond blanks_nil))
  have hfilled : ∀ s ∈ ["a/", "\n😀"], s ≠ "" := by decide
  exact ⟨hfilled, _, harray, rfl,
    (ofJsonText_spelled hblank harray blanks_nil hfilled).1 (List.cons_ne_nil _ _)⟩

/-- The array of no string is refused, so not every list without empty strings is read as a path. -/
theorem ofJsonText_spelled_no_string :
    SpelledArray [] ['[', ']'] ∧ ofJsonText "[]" = .error (.badPath .noSegment) ∧
      ¬ ∀ (segments : List String) (cs : List Char), SpelledArray segments cs →
        (∀ s ∈ segments, s ≠ "") →
          ∃ p : FieldPath, p.segments = segments ∧ ofJsonText (String.ofList cs) = .ok p := by
  have hempty : SpelledArray [] ['[', ']'] := .empty blanks_nil
  have hrefused : ofJsonText "[]" = .error (.badPath .noSegment) := rfl
  refine ⟨hempty, hrefused, fun h => ?_⟩
  obtain ⟨p, -, hread⟩ := h [] ['[', ']'] hempty (by simp)
  have hok : ofJsonText "[]" = .ok p := hread
  rw [hrefused] at hok
  cases hok

end FieldPipeline.FieldPath
