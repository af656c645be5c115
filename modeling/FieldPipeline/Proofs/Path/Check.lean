import FieldPipeline.Path.Basic
import FieldPipeline.Proofs.Dots

/-!
# Checked paths, exactly

Both constructors give the path of the segments if none of them is empty. A refusal points at the
first empty segment.
-/

namespace FieldPipeline.FieldPath

theorem forall_not_isEmpty_iff {segments : List String} :
    (∀ s ∈ segments, s.isEmpty = false) ↔ "" ∉ segments := by
  simp only [String.isEmpty_eq_false_iff]
  constructor
  · intro h hmem
    exact h "" hmem rfl
  · intro h s hs hempty
    exact h (hempty ▸ hs)

theorem findIdx?_isEmpty {segments : List String} (h : "" ∈ segments) :
    segments.findIdx? String.isEmpty = some (segments.idxOf "") := by
  obtain ⟨before, after, rfl, hbefore⟩ := List.eq_append_cons_of_mem h
  have hnone : before.findIdx? String.isEmpty = none :=
    List.findIdx?_eq_none_iff.2 (forall_not_isEmpty_iff.2 hbefore)
  rw [List.findIdx?_append, hnone, List.findIdx?_cons, List.idxOf_append, if_neg hbefore,
    List.idxOf_cons_self]
  simp

theorem check_of_mem_empty (text : String) {segments : List String} (h : "" ∈ segments) :
    check text segments = .error (.emptyAt text (segments.idxOf "")) := by
  have hfound := findIdx?_isEmpty h
  cases segments with
  | nil => cases h
  | cons head tail => rw [check, hfound]

theorem ofSegments_eq_ok_iff {segments : List String} {p : FieldPath} :
    ofSegments segments = .ok p ↔ p.segments = segments ∧ "" ∉ segments := by
  rw [ofSegments, check_eq_ok_iff, forall_not_isEmpty_iff]

/-- A path that has no empty segment passes its own check. -/
theorem ofSegments_segments {p : FieldPath} (h : "" ∉ p.segments) : ofSegments p.segments = .ok p :=
  ofSegments_eq_ok_iff.2 ⟨rfl, h⟩

theorem ofSegments_of_mem_empty {segments : List String} (h : "" ∈ segments) :
    ofSegments segments = .error (.emptyAt (Dots.join segments) (segments.idxOf "")) :=
  check_of_mem_empty _ h

/-- A list of segments is refused if there is no segment at all or an empty one among them. -/
theorem ofSegments_eq_error_iff {segments : List String} {fault : Fault} :
    ofSegments segments = .error fault ↔
      segments = [] ∧ fault = .noSegment ∨
        "" ∈ segments ∧ fault = .emptyAt (Dots.join segments) (segments.idxOf "") := by
  constructor
  · intro h
    by_cases hmem : "" ∈ segments
    · rw [ofSegments_of_mem_empty hmem] at h
      exact .inr ⟨hmem, (Except.error.inj h).symm⟩
    · cases segments with
      | nil => exact .inl ⟨rfl, (Except.error.inj h).symm⟩
      | cons head tail =>
        have hok : ofSegments (head :: tail) = .ok ⟨head, tail⟩ :=
          ofSegments_eq_ok_iff.2 ⟨rfl, hmem⟩
        rw [hok] at h
        cases h
  · rintro (⟨rfl, rfl⟩ | ⟨hmem, rfl⟩)
    · rfl
    · exact ofSegments_of_mem_empty hmem

theorem ofText_eq_ok_iff {text : String} {p : FieldPath} :
    ofText text = .ok p ↔ p.segments = Dots.split text ∧ "" ∉ Dots.split text := by
  rw [ofText]
  by_cases h : text = ""
  · subst h
    have hmem : "" ∈ Dots.split "" := by decide
    simp [hmem]
  · rw [if_neg (by simpa using h), check_eq_ok_iff, forall_not_isEmpty_iff]

theorem exists_ofText_of_not_mem {text : String} (h : "" ∉ Dots.split text) :
    ∃ p, ofText text = .ok p ∧ p.segments = Dots.split text := by
  obtain ⟨head, tail, hsplit⟩ := List.exists_cons_of_ne_nil (Dots.split_ne_nil text)
  exact ⟨⟨head, tail⟩, ofText_eq_ok_iff.2 ⟨hsplit.symm, h⟩, hsplit.symm⟩

theorem exists_ofText_iff {text : String} : (∃ p, ofText text = .ok p) ↔ "" ∉ Dots.split text := by
  constructor
  · rintro ⟨p, hp⟩
    exact (ofText_eq_ok_iff.1 hp).2
  · intro h
    obtain ⟨p, hp, -⟩ := exists_ofText_of_not_mem h
    exact ⟨p, hp⟩

theorem ofText_of_mem_empty {text : String} (hne : text ≠ "") (h : "" ∈ Dots.split text) :
    ofText text = .error (.emptyAt text ((Dots.split text).idxOf "")) := by
  rw [ofText, if_neg (by simpa using hne), check_of_mem_empty text h]

/-- A text is refused if it is empty or has an empty segment. -/
theorem ofText_eq_error_iff {text : String} {fault : Fault} :
    ofText text = .error fault ↔
      text = "" ∧ fault = .noSegment ∨
        text ≠ "" ∧ "" ∈ Dots.split text ∧
          fault = .emptyAt text ((Dots.split text).idxOf "") := by
  constructor
  · intro h
    by_cases htext : text = ""
    · subst htext
      exact .inl ⟨rfl, (Except.error.inj h).symm⟩
    · by_cases hmem : "" ∈ Dots.split text
      · rw [ofText_of_mem_empty htext hmem] at h
        exact .inr ⟨htext, hmem, (Except.error.inj h).symm⟩
      · obtain ⟨p, hp, -⟩ := exists_ofText_of_not_mem hmem
        rw [hp] at h
        cases h
  · rintro (⟨rfl, rfl⟩ | ⟨hne, hmem, rfl⟩)
    · rfl
    · exact ofText_of_mem_empty hne hmem

/-- A path that was read is shown as the text it was read from. -/
theorem dotted_of_ofText {text : String} {p : FieldPath} (h : ofText text = .ok p) :
    p.dotted = text := by
  rw [dotted, (ofText_eq_ok_iff.1 h).1, Dots.join_split]

end FieldPipeline.FieldPath
