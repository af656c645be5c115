import FieldPipeline.Json.TextList
import FieldPipeline.Proofs.Json.Unwanted

/-!
# Reading written lists of strings

The machine for lists of strings takes every written value: an array of strings for what it holds,
and anything else for an error of shape, whatever comes behind it.
-/

namespace FieldPipeline.Json

def text? : Json → Option String
  | .string s => some s
  | _ => none

def texts? : Json → Option (List String)
  | .array items => items.mapM text?
  | _ => none

def strings (texts : List String) : Json :=
  .array (texts.map .string)

theorem sized_strings (texts : List String) : (strings texts).Sized := by
  refine .array fun v hv => ?_
  obtain ⟨s, -, rfl⟩ := List.mem_map.1 hv
  exact .string s

theorem text?_eq_some_iff {v : Json} {s : String} : text? v = some s ↔ v = .string s := by
  cases v <;> simp [text?]

theorem mapM_text?_cons (v : Json) (vs : List Json) :
    (v :: vs).mapM text? = (text? v).bind fun s => (vs.mapM text?).map (s :: ·) := by
  rw [List.mapM_cons]
  cases text? v with
  | none => rfl
  | some s => cases vs.mapM text? <;> rfl

theorem mapM_text?_eq_some_iff {vs : List Json} {texts : List String} :
    vs.mapM text? = some texts ↔ vs = texts.map .string := by
  induction vs generalizing texts with
  | nil => cases texts <;> simp
  | cons v vs ih =>
    rw [mapM_text?_cons, Option.bind_eq_some_iff]
    constructor
    · rintro ⟨s, hs, hmap⟩
      obtain ⟨rest, hrest, rfl⟩ := Option.map_eq_some_iff.1 hmap
      rw [text?_eq_some_iff.1 hs, ih.1 hrest, List.map_cons]
    · intro h
      cases texts with
      | nil => cases h
      | cons s rest =>
        obtain ⟨rfl, hvs⟩ := List.cons.inj h
        exact ⟨s, rfl, by rw [ih.2 hvs, Option.map_some]⟩

theorem texts?_eq_some_iff {v : Json} {texts : List String} :
    texts? v = some texts ↔ v = strings texts := by
  cases v with
  | array items => simp [texts?, strings, mapM_text?_eq_some_iff]
  | _ => simp [texts?, strings]

namespace TextList

variable {ρ : Type} {next : List String → List Char → Except ReadError ρ}

/-- The states that blanks leave as they are. -/
inductive Waits : TextList → Prop where
  | start : Waits .start
  | first : Waits .first
  | next (items : List String) : Waits (.next items)
  | after (items : List String) : Waits (.after items)

theorem Waits.step_blank {l : TextList} (h : l.Waits) (c : Char) (hc : isBlank c = true) :
    step l c = .ok (.more l) := by
  cases h <;> simp [step, hc]

theorem through_item (items : List String) (q : Quoted) (cs : List Char) :
    through step finish next (.item items q) cs =
      through (Quoted.step true) (fun _ => .endInText)
        (fun s rest => through step finish next (.after (s :: items)) rest) q cs := by
  refine through_inner (Quoted.step true) (fun _ => .endInText) (TextList.item items)
    (fun s => .more (.after (s :: items))) (fun q c => ?_) (fun _ => rfl) q cs
  rw [step]
  congr 1
  funext progress
  cases progress <;> rfl

variable (next) in
theorem judged_item {v : Json} {cs : List Char} (hv : Bare v cs) (hsized : v.Sized)
    (items : List String) {rest : List Char} (hrest : Delimited rest) :
    Judged (fun s => through step finish next (.after (s :: items)) rest) (text? v)
      (through step finish next (.next items) (cs ++ rest)) := by
  obtain ⟨c, tail, hcs, hc, -, hquote, -, -⟩ := hv.exists_cons
  obtain ⟨hblank, -, hbracket, -⟩ := not_blank_of_not_delimiter hc
  cases v with
  | string s =>
    cases hv
    rw [quoted_append, through_more (.item items .opened) rfl, through_item, through_quoted]
    exact .found s
  | _ =>
    have hq : c ≠ '"' := fun h => nomatch hquote.1 h
    have hstart : step (.next items) c =
        (Unwanted.start .text c).map fun u => .more (.refused .text u) := by
      simp only [step, hblank, hbracket, startItem, hq, if_false, Bool.false_eq_true]
      cases Unwanted.start .text c <;> rfl
    rw [hcs] at hv ⊢
    rw [through_unwanted (TextList.refused .text) (fun _ _ => rfl) (fun _ => rfl) hstart hv hsized
      hrest]
    exact .refused rfl

theorem judged_slot {v : Json} {cs : List Char} (hv : Written v cs) (hsized : v.Sized)
    (items : List String) {rest : List Char} (hrest : Delimited rest) :
    Judged (fun s => through step finish next (.after (s :: items)) rest) (text? v)
      (through step finish next (.next items) (cs ++ rest)) :=
  judged_written hv (Waits.next items).step_blank
    (fun s _ rest hblanks => through_blanks (Waits.after (s :: items)).step_blank hblanks rest)
    (fun hv => judged_item next hv hsized items) hrest

/-- Items that are written in full, behind the items already read. -/
theorem judged_items {vs : List Json} {cs : List Char} (h : WrittenItems vs cs)
    (hsized : ∀ v ∈ vs, v.Sized) (items : List String) (rest : List Char) :
    Judged (fun texts => next (items.reverse ++ texts) rest) (vs.mapM text?)
      (through step finish next (.next items) (cs ++ ']' :: rest)) := by
  cases h with
  | @last v cs hv =>
    rw [mapM_text?_cons]
    refine (judged_slot hv (hsized v List.mem_cons_self) items (delimited_cons rfl rest)).bind
      fun s => ?_
    rw [through_done (s :: items).reverse rfl, List.reverse_cons]
    exact .found [s]
  | @more v cs vs more hv hvs =>
    rw [mapM_text?_cons, List.append_assoc, List.cons_append]
    refine (judged_slot hv (hsized v List.mem_cons_self) items (delimited_cons rfl _)).bind
      fun s => ?_
    rw [through_more (.next (s :: items)) rfl]
    have hothers := judged_items hvs (fun v hv => hsized v (List.mem_cons_of_mem _ hv))
      (s :: items) rest
    refine hothers.map fun texts => ?_
    rw [List.reverse_cons, List.append_assoc, List.singleton_append]

/-- The first item is read like any other one. -/
theorem through_first {cs : List Char} (h : Begun cs) (rest : List Char) :
    through step finish next .first (cs ++ rest) =
      through step finish next (.next []) (cs ++ rest) := by
  obtain ⟨before, c, tail, rfl, hbefore, hc⟩ := h
  obtain ⟨hblank, -, hbracket, -⟩ := not_blank_of_not_delimiter hc
  rw [List.append_assoc, through_blanks Waits.first.step_blank hbefore,
    through_blanks (Waits.next []).step_blank hbefore, List.cons_append, through, through]
  simp [step, hblank, hbracket]

/-- A written value, from its first character on. -/
theorem judged_texts {v : Json} {cs : List Char} (hv : Bare v cs) (hsized : v.Sized)
    {rest : List Char} (hrest : Delimited rest) :
    Judged (fun texts => next texts rest) (texts? v)
      (through step finish next .start (cs ++ rest)) := by
  obtain ⟨c, tail, hcs, hc, -, -, hbracket, -⟩ := hv.exists_cons
  obtain ⟨hblank, -, -, -⟩ := not_blank_of_not_delimiter hc
  cases v with
  | array items =>
    cases hv with
    | @emptyArray inner hinner =>
      rw [enclosed_append, through_more .first rfl,
        through_blanks Waits.first.step_blank hinner, through_done [] rfl]
      exact .found []
    | @array items inner hinner =>
      rw [enclosed_append, through_more .first rfl, through_first hinner.begun]
      cases hsized with
      | array hitems => exact judged_items hinner hitems [] rest
  | _ =>
    have hb : c ≠ '[' := fun h => nomatch hbracket.1 h
    have hstart : step .start c =
        (Unwanted.start .sequence c).map fun u => .more (.refused .sequence u) := by
      simp only [step, hblank, hb, if_false, Bool.false_eq_true]
    rw [hcs] at hv ⊢
    rw [through_unwanted (TextList.refused .sequence) (fun _ _ => rfl) (fun _ => rfl) hstart hv
      hsized hrest]
    exact .refused rfl

end TextList

end FieldPipeline.Json
