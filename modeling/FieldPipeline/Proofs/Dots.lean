import FieldPipeline.Text.Basic

/-!
# Splitting joined text

Splitting at the separator goes through a join piece by piece. A text is joined from one list of
dotless segments only, so for those splitting undoes joining. An empty piece stands where the text
starts or ends with a separator or has two of them side by side.
-/

namespace FieldPipeline

namespace Text

variable {sep : Char}

/-- A separator inside a text separates its pieces. -/
theorem pieces_append_sep (before after : List Char) :
    pieces sep (before ++ sep :: after) = pieces sep before ++ pieces sep after := by
  induction before with
  | nil => simp
  | cons c before ih =>
    by_cases h : c = sep
    · subst h
      rw [List.cons_append, pieces_sep, pieces_sep, ih, List.cons_append]
    · obtain ⟨piece, others, hp, hc⟩ := pieces_cons_of_ne h before
      rw [hp] at ih
      rw [hc, List.cons_append, pieces, if_neg h, ih]
      rfl

theorem pieces_eq_singleton {text : List Char} (h : sep ∉ text) : pieces sep text = [text] := by
  induction text with
  | nil => rfl
  | cons c rest ih =>
    have hc : c ≠ sep := fun hcs => h (hcs ▸ List.mem_cons_self)
    have hrest : sep ∉ rest := fun hmem => h (List.mem_cons_of_mem c hmem)
    rw [pieces, if_neg hc, ih hrest]

/-- The last piece stands behind the last separator. -/
theorem getLast?_pieces (before : List Char) {after : List Char} (h : sep ∉ after) :
    (pieces sep (before ++ sep :: after)).getLast? = some after := by
  rw [pieces_append_sep, pieces_eq_singleton h, List.getLast?_concat]

theorem not_mem_of_mem_pieces {text piece : List Char} (h : piece ∈ pieces sep text) :
    sep ∉ piece := by
  induction text generalizing piece with
  | nil => simp_all
  | cons c rest ih =>
    by_cases hc : c = sep
    · subst hc
      rw [pieces_sep] at h
      rcases List.mem_cons.1 h with rfl | hrest
      · exact List.not_mem_nil
      · exact ih hrest
    · obtain ⟨first, others, hp, hpieces⟩ := pieces_cons_of_ne hc rest
      rw [hpieces] at h
      rcases List.mem_cons.1 h with rfl | hothers
      · have hfirst : sep ∉ first := ih (hp ▸ List.mem_cons_self)
        simpa [Ne.symm hc] using hfirst
      · exact ih (hp ▸ List.mem_cons_of_mem first hothers)

theorem intercalate_cons_of_ne_nil (piece : List Char) {others : List (List Char)}
    (h : others ≠ []) :
    [sep].intercalate (piece :: others) = piece ++ sep :: [sep].intercalate others := by
  obtain ⟨next, rest, rfl⟩ := List.exists_cons_of_ne_nil h
  simp [List.intercalate_cons_cons]

theorem intercalate_append {before after : List (List Char)} (hbefore : before ≠ [])
    (hafter : after ≠ []) :
    [sep].intercalate (before ++ after) =
      [sep].intercalate before ++ sep :: [sep].intercalate after := by
  induction before with
  | nil => exact absurd rfl hbefore
  | cons piece before ih =>
    cases before with
    | nil =>
      rw [List.singleton_append, intercalate_cons_of_ne_nil piece hafter, List.intercalate_singleton]
    | cons next before =>
      rw [List.cons_append, intercalate_cons_of_ne_nil piece (by simp),
        ih (List.cons_ne_nil _ _), intercalate_cons_of_ne_nil piece (List.cons_ne_nil _ _),
        List.append_assoc, List.cons_append]

theorem nil_mem_pieces_iff {text : List Char} :
    [] ∈ pieces sep text ↔
      text = [] ∨ [sep] <+: text ∨ [sep] <:+ text ∨ [sep, sep] <:+: text := by
  constructor
  · intro h
    obtain ⟨before, after, hpieces⟩ := List.append_of_mem h
    have htext : text = [sep].intercalate (before ++ [] :: after) := by
      rw [← hpieces, intercalate_pieces]
    rw [htext]
    by_cases hbefore : before = [] <;> by_cases hafter : after = []
    · subst hbefore hafter
      exact .inl rfl
    · subst hbefore
      refine .inr (.inl ⟨[sep].intercalate after, ?_⟩)
      rw [List.nil_append, intercalate_cons_of_ne_nil [] hafter]
      rfl
    · subst hafter
      refine .inr (.inr (.inl ⟨[sep].intercalate before, ?_⟩))
      rw [intercalate_append hbefore (List.cons_ne_nil _ _)]
      rfl
    · refine .inr (.inr (.inr ⟨[sep].intercalate before, [sep].intercalate after, ?_⟩))
      rw [intercalate_append hbefore (List.cons_ne_nil _ _), intercalate_cons_of_ne_nil [] hafter]
      simp
  · rintro (rfl | ⟨after, rfl⟩ | ⟨before, rfl⟩ | ⟨before, after, rfl⟩)
    · exact List.mem_singleton_self []
    · rw [List.singleton_append, pieces_sep]
      exact List.mem_cons_self
    · rw [pieces_append_sep]
      exact List.mem_append_right _ (List.mem_singleton_self [])
    · rw [List.append_assoc, List.cons_append, List.singleton_append, pieces_append_sep, pieces_sep]
      exact List.mem_append_right _ List.mem_cons_self

end Text

namespace Dots

def Dotless (s : String) : Prop :=
  '.' ∉ s.toList

instance (s : String) : Decidable (Dotless s) :=
  inferInstanceAs (Decidable ('.' ∉ s.toList))

theorem split_eq_singleton {s : String} (h : Dotless s) : split s = [s] := by
  rw [split, Text.pieces_eq_singleton h]
  simp

theorem dotless_of_mem_split {s text : String} (h : s ∈ split text) : Dotless s := by
  obtain ⟨piece, hpiece, rfl⟩ := List.mem_map.1 h
  rw [Dotless, String.toList_ofList]
  exact Text.not_mem_of_mem_pieces hpiece

theorem toList_join_cons_cons (s next : String) (rest : List String) :
    (join (s :: next :: rest)).toList = s.toList ++ '.' :: (join (next :: rest)).toList := by
  simp [List.intercalate_cons_cons]

/-- A dot inside a text separates its segments. -/
theorem split_append_dot (before after : String) :
    split (before ++ "." ++ after) = split before ++ split after := by
  have htext : (before ++ "." ++ after).toList = before.toList ++ '.' :: after.toList := by simp
  rw [split, htext, Text.pieces_append_sep, List.map_append, ← split, ← split]

theorem empty_mem_split_iff {text : String} :
    "" ∈ split text ↔
      text = "" ∨ ['.'] <+: text.toList ∨ ['.'] <:+ text.toList ∨ ['.', '.'] <:+: text.toList := by
  have hmem : "" ∈ split text ↔ [] ∈ Text.pieces '.' text.toList := by
    simp [split]
  rw [hmem, Text.nil_mem_pieces_iff, String.toList_eq_nil_iff]

/-- Joined segments are split one by one. -/
theorem split_join {segments : List String} (h : segments ≠ []) :
    split (join segments) = segments.flatMap split := by
  induction segments with
  | nil => exact absurd rfl h
  | cons s rest ih =>
    cases rest with
    | nil => simp [join]
    | cons next rest =>
      have hjoin : join (s :: next :: rest) = s ++ "." ++ join (next :: rest) := by
        apply String.toList_inj.1
        rw [toList_join_cons_cons]
        simp
      rw [hjoin, split_append_dot, ih (List.cons_ne_nil _ _)]
      rfl

/-- Splitting undoes joining for dotless segments. -/
theorem split_join_of_dotless {segments : List String} (h : segments ≠ [])
    (hdots : ∀ s ∈ segments, Dotless s) : split (join segments) = segments := by
  rw [split_join h]
  have hpieces : segments.map split = segments.map fun s => [s] :=
    List.map_congr_left fun s hs => split_eq_singleton (hdots s hs)
  rw [List.flatMap_def, hpieces, ← List.flatMap_def, List.flatMap_singleton']

end Dots

end FieldPipeline
