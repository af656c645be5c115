import FieldPipeline.Proofs.Path.Check

/-!
# Dotted text and paths

Reading a dotted text and showing a path undo each other up to the dots inside segments: those are
read as further segments. Reading goes through a dot, and so do the positions that it reports. A
list of segments is taken as its dotted text is read, as long as no segment has a dot and the text
is not empty.
-/

namespace FieldPipeline.FieldPath

theorem split_dotted_eq_flatMap (p : FieldPath) :
    Dots.split p.dotted = p.segments.flatMap Dots.split :=
  Dots.split_join p.segments_ne_nil

theorem dotted_eq_empty_iff {p : FieldPath} : p.dotted = "" ↔ p = single "" := by
  constructor
  · intro h
    obtain ⟨head, tail⟩ := p
    cases tail with
    | nil =>
      have hhead : head = "" := by simpa [dotted, Dots.join] using h
      rw [hhead, single]
    | cons next rest =>
      have hdot : '.' ∈ (dotted ⟨head, next :: rest⟩).toList := by
        rw [dotted, segments_mk, Dots.toList_join_cons_cons]
        simp
      rw [h] at hdot
      cases hdot
  · rintro rfl
    rfl

theorem ofText_injective : Function.Injective ofText := by
  intro text other h
  cases htext : ofText text with
  | ok p => rw [← dotted_of_ofText htext, dotted_of_ofText (h ▸ htext)]
  | error fault =>
    rcases ofText_eq_error_iff.1 htext with ⟨rfl, rfl⟩ | ⟨-, -, rfl⟩ <;>
      rcases ofText_eq_error_iff.1 (h ▸ htext) with ⟨rfl, hfault⟩ | ⟨-, -, hfault⟩
    · rfl
    · cases hfault
    · cases hfault
    · exact (Fault.emptyAt.inj hfault).1

theorem ofText_dotted_eq_ok_iff {p : FieldPath} :
    ofText p.dotted = .ok p ↔ ∀ s ∈ p.segments, s ≠ "" ∧ Dots.Dotless s := by
  rw [ofText_eq_ok_iff]
  constructor
  · rintro ⟨hsegments, hempty⟩ s hs
    rw [hsegments] at hs
    exact ⟨fun h => hempty (h ▸ hs), Dots.dotless_of_mem_split hs⟩
  · intro h
    have hsplit : Dots.split p.dotted = p.segments :=
      Dots.split_join_of_dotless p.segments_ne_nil fun s hs => (h s hs).2
    rw [hsplit]
    exact ⟨rfl, fun hmem => (h "" hmem).1 rfl⟩

/-- A text can be read exactly if it is not empty, has no dot at either end and no two dots side by
side. What is read has no dots in its segments and is shown as the text, and no two texts are read
alike. A path is shown as a text whose segments are those of the path, each split at its dots: these
are read if none is empty; otherwise the first empty one is reported, or the lack of any segment if
there is no text at all. So reading gives a path back exactly if no segment is empty or has a
dot. -/
theorem ofText_reads_dotted :
    (∀ text : String,
      ((∃ p, ofText text = .ok p) ↔
        text ≠ "" ∧ ¬ ['.'] <+: text.toList ∧ ¬ ['.'] <:+ text.toList ∧
          ¬ ['.', '.'] <:+: text.toList) ∧
      ∀ p, ofText text = .ok p → (∀ s ∈ p.segments, Dots.Dotless s) ∧ p.dotted = text) ∧
    Function.Injective ofText ∧
    ∀ p : FieldPath,
      Dots.split p.dotted = p.segments.flatMap Dots.split ∧
      ("" ∉ p.segments.flatMap Dots.split →
        ∃ q, ofText p.dotted = .ok q ∧ q.segments = p.segments.flatMap Dots.split) ∧
      (p = single "" → ofText p.dotted = .error .noSegment) ∧
      (p ≠ single "" → "" ∈ p.segments.flatMap Dots.split →
        ofText p.dotted =
          .error (.emptyAt p.dotted ((p.segments.flatMap Dots.split).idxOf ""))) ∧
      (ofText p.dotted = .ok p ↔ ∀ s ∈ p.segments, s ≠ "" ∧ Dots.Dotless s) := by
  refine ⟨fun text => ⟨?_, fun p hp => ⟨?_, dotted_of_ofText hp⟩⟩, ofText_injective, fun p => ?_⟩
  · rw [exists_ofText_iff, Dots.empty_mem_split_iff, not_or, not_or, not_or]
  · rw [(ofText_eq_ok_iff.1 hp).1]
    exact fun s hs => Dots.dotless_of_mem_split hs
  · rw [← split_dotted_eq_flatMap]
    refine ⟨rfl, exists_ofText_of_not_mem, ?_, ?_, ofText_dotted_eq_ok_iff⟩
    · rintro rfl
      rfl
    · intro hne hmem
      exact ofText_of_mem_empty (mt dotted_eq_empty_iff.1 hne) hmem

/-- Segments with dots in them, without and with an empty piece among the pieces. -/
theorem ofText_reads_dotted_inner_dots :
    ofText "a.b" = .ok ⟨"a", ["b"]⟩ ∧
      ((∀ s ∈ ["a", "b"], Dots.Dotless s) ∧ dotted ⟨"a", ["b"]⟩ = "a.b") ∧
      "" ∉ ["a.b", "c"].flatMap Dots.split ∧
      (∃ q, ofText (dotted ⟨"a.b", ["c"]⟩) = .ok q ∧
        q.segments = ["a.b", "c"].flatMap Dots.split) ∧
      ofText (dotted (single "")) = .error .noSegment ∧
      (⟨".a", [""]⟩ : FieldPath) ≠ single "" ∧
      "" ∈ [".a", ""].flatMap Dots.split ∧
      ofText (dotted ⟨".a", [""]⟩) = .error (.emptyAt ".a." 0) := by
  have hread : ofText "a.b" = .ok ⟨"a", ["b"]⟩ := rfl
  have hfull : "" ∉ ["a.b", "c"].flatMap Dots.split := by decide
  have hne : (⟨".a", [""]⟩ : FieldPath) ≠ single "" := by decide
  have hempty : "" ∈ [".a", ""].flatMap Dots.split := by decide
  obtain ⟨htext, -, hpath⟩ := ofText_reads_dotted
  refine ⟨hread, (htext "a.b").2 _ hread, hfull, ?_, ?_, hne, hempty, ?_⟩
  · exact (hpath ⟨"a.b", ["c"]⟩).2.1 hfull
  · exact (hpath (single "")).2.2.1 rfl
  · exact (hpath ⟨".a", [""]⟩).2.2.2.1 hne hempty

/-- The position that a fault reports; a path without a segment lacks its first one. -/
def Fault.position : Fault → Nat
  | .noSegment => 0
  | .emptyAt _ position => position

theorem idxOf_split_of_ofText {text : String} {fault : Fault} (h : ofText text = .error fault) :
    "" ∈ Dots.split text ∧ (Dots.split text).idxOf "" = fault.position := by
  rcases ofText_eq_error_iff.1 h with ⟨rfl, rfl⟩ | ⟨-, hmem, rfl⟩
  · decide
  · exact ⟨hmem, rfl⟩

/-- Two texts with a dot in between are read exactly if both are, one after the other. Otherwise
the whole text is refused at the position where the first of them is, or, if only the second one
is, at its position behind the segments of the first. -/
theorem ofText_across_dot (before after : String) :
    ((∃ r, ofText (before ++ "." ++ after) = .ok r) ↔
      (∃ p, ofText before = .ok p) ∧ ∃ q, ofText after = .ok q) ∧
    (∀ p q, ofText before = .ok p → ofText after = .ok q →
      ∃ r, ofText (before ++ "." ++ after) = .ok r ∧ r.segments = p.segments ++ q.segments) ∧
    (∀ fault, ofText before = .error fault →
      ofText (before ++ "." ++ after) =
        .error (.emptyAt (before ++ "." ++ after) fault.position)) ∧
    ∀ p fault, ofText before = .ok p → ofText after = .error fault →
      ofText (before ++ "." ++ after) =
        .error (.emptyAt (before ++ "." ++ after) (p.segments.length + fault.position)) := by
  have hsplit := Dots.split_append_dot before after
  have hne : before ++ "." ++ after ≠ "" := by
    intro h
    have hlength := congrArg String.length h
    simp at hlength
  refine ⟨?_, ?_, ?_, ?_⟩
  · rw [exists_ofText_iff, exists_ofText_iff, exists_ofText_iff, hsplit, List.mem_append, not_or]
  · intro p q hp hq
    obtain ⟨hp, hpempty⟩ := ofText_eq_ok_iff.1 hp
    obtain ⟨hq, hqempty⟩ := ofText_eq_ok_iff.1 hq
    rw [hp, hq, ← hsplit]
    apply exists_ofText_of_not_mem
    rw [hsplit, List.mem_append]
    exact not_or.2 ⟨hpempty, hqempty⟩
  · intro fault hfault
    obtain ⟨hmem, hposition⟩ := idxOf_split_of_ofText hfault
    have hwhole : "" ∈ Dots.split (before ++ "." ++ after) :=
      hsplit ▸ List.mem_append_left _ hmem
    rw [ofText_of_mem_empty hne hwhole, hsplit, List.idxOf_append, if_pos hmem, hposition]
  · intro p fault hp hfault
    obtain ⟨hp, hpempty⟩ := ofText_eq_ok_iff.1 hp
    obtain ⟨hmem, hposition⟩ := idxOf_split_of_ofText hfault
    have hwhole : "" ∈ Dots.split (before ++ "." ++ after) :=
      hsplit ▸ List.mem_append_right _ hmem
    rw [ofText_of_mem_empty hne hwhole, hsplit, List.idxOf_append, if_neg hpempty, hposition, hp,
      Nat.add_comm]

/-- Both sides in order, an empty text in front, and a doubled dot behind two segments. -/
theorem ofText_across_dot_each_side :
    ofText "a.b" = .ok ⟨"a", ["b"]⟩ ∧ ofText "c" = .ok ⟨"c", []⟩ ∧
      (∃ r, ofText ("a.b" ++ "." ++ "c") = .ok r ∧ r.segments = ["a", "b", "c"]) ∧
      ofText "" = .error .noSegment ∧
      ofText ("" ++ "." ++ "c") = .error (.emptyAt ".c" 0) ∧
      ofText "c..d" = .error (.emptyAt "c..d" 1) ∧
      ofText ("a.b" ++ "." ++ "c..d") = .error (.emptyAt "a.b.c..d" 3) := by
  have hab : ofText "a.b" = .ok ⟨"a", ["b"]⟩ := rfl
  have hc : ofText "c" = .ok ⟨"c", []⟩ := rfl
  have hnone : ofText "" = .error .noSegment := rfl
  have hdoubled : ofText "c..d" = .error (.emptyAt "c..d" 1) := rfl
  refine ⟨hab, hc, ?_, hnone, ?_, hdoubled, ?_⟩
  · exact (ofText_across_dot "a.b" "c").2.1 _ _ hab hc
  · exact (ofText_across_dot "" "c").2.2.1 _ hnone
  · exact (ofText_across_dot "a.b" "c..d").2.2.2 _ _ hab hdoubled

theorem join_eq_empty_iff {segments : List String} :
    Dots.join segments = "" ↔ segments = [] ∨ segments = [""] := by
  cases segments with
  | nil => simp [Dots.join]
  | cons head tail =>
    have hdotted : Dots.join (head :: tail) = dotted ⟨head, tail⟩ := rfl
    rw [hdotted, dotted_eq_empty_iff, single, FieldPath.mk.injEq]
    simp

/-- The text of a list of dotless segments is judged by the same check as the list. -/
theorem ofText_join_of_dotless {segments : List String} (hdots : ∀ s ∈ segments, Dots.Dotless s)
    (hne : segments ≠ [""]) : ofText (Dots.join segments) = ofSegments segments := by
  by_cases hnil : segments = []
  · subst hnil
    rfl
  · have htext : Dots.join segments ≠ "" := by
      rw [Ne, join_eq_empty_iff]
      exact not_or.2 ⟨hnil, hne⟩
    rw [ofText, if_neg (by simpa using htext), Dots.split_join_of_dotless hnil hdots, ofSegments]

/-- What can be read as a text can be taken as a list; the text may fall into more segments. -/
theorem exists_ofSegments_of_ofText {segments : List String} {p : FieldPath}
    (h : ofText (Dots.join segments) = .ok p) : ∃ q, ofSegments segments = .ok q := by
  have hempty := (ofText_eq_ok_iff.1 h).2
  have hne : segments ≠ [] := by
    rintro rfl
    cases h
  rw [Dots.split_join hne] at hempty
  have hfull : "" ∉ segments := fun hmem =>
    hempty (List.mem_flatMap.2 ⟨"", hmem, List.mem_singleton_self ""⟩)
  obtain ⟨head, tail, rfl⟩ := List.exists_cons_of_ne_nil hne
  exact ⟨⟨head, tail⟩, ofSegments_eq_ok_iff.2 ⟨rfl, hfull⟩⟩

theorem dotted_of_ofSegments {segments : List String} {p : FieldPath}
    (h : ofSegments segments = .ok p) : p.dotted = Dots.join segments := by
  rw [dotted, (ofSegments_eq_ok_iff.1 h).1]

/-- A list of dotless segments and its dotted text come to the same outcome, path or fault, unless
the list has nothing but one empty segment: that is an empty segment as a list and no segment as a
text. Of any list, the segments can be taken if the text can be read, and both paths are shown as
that text. -/
theorem constructors_agree :
    (∀ segments, (∀ s ∈ segments, Dots.Dotless s) →
      (ofSegments segments = ofText (Dots.join segments) ↔ segments ≠ [""])) ∧
    ∀ (segments : List String) (p : FieldPath), ofText (Dots.join segments) = .ok p →
      (∃ q, ofSegments segments = .ok q) ∧
      ∀ q, ofSegments segments = .ok q → p.dotted = q.dotted := by
  refine ⟨fun segments hdots => ⟨?_, fun hne => (ofText_join_of_dotless hdots hne).symm⟩,
    fun segments p hp => ⟨exists_ofSegments_of_ofText hp, fun q hq => ?_⟩⟩
  · rintro h rfl
    cases h
  · rw [dotted_of_ofText hp, dotted_of_ofSegments hq]

/-- An empty segment in the middle, and a list whose text falls into more segments. -/
theorem constructors_agree_empty_middle :
    (∀ s ∈ ["a", "", "b"], Dots.Dotless s) ∧
      ofSegments ["a", "", "b"] = ofText (Dots.join ["a", "", "b"]) ∧
      ofText (Dots.join ["a.b", "c"]) = .ok ⟨"a", ["b", "c"]⟩ ∧
      (∃ q, ofSegments ["a.b", "c"] = .ok q) ∧
      ofSegments ["a.b", "c"] = .ok ⟨"a.b", ["c"]⟩ ∧
      dotted ⟨"a", ["b", "c"]⟩ = dotted ⟨"a.b", ["c"]⟩ := by
  have hdots : ∀ s ∈ ["a", "", "b"], Dots.Dotless s := by decide
  have hread : ofText (Dots.join ["a.b", "c"]) = .ok ⟨"a", ["b", "c"]⟩ := rfl
  have htaken : ofSegments ["a.b", "c"] = .ok ⟨"a.b", ["c"]⟩ := rfl
  obtain ⟨hexists, hshown⟩ := constructors_agree.2 _ _ hread
  exact ⟨hdots, (constructors_agree.1 _ hdots).2 (by decide), hread, hexists, htaken,
    hshown _ htaken⟩

end FieldPipeline.FieldPath
