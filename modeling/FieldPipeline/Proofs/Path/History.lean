import FieldPipeline.Path.History
import FieldPipeline.Proofs.Focus
import FieldPipeline.Proofs.Path.Check
import Mathlib.Data.List.Nodup

/-!
# Which paths of a history have an empty segment

Checked and unchecked paths feed each other freely, and both are kept. Every path has a segment;
whether it has an empty one is told by the steps that it goes back to, however long the history is.
A run is followed in a log, each path beside the step that made it, so the earlier paths that a step
used are the earlier entries of the log.
-/

namespace FieldPipeline.FieldPath

namespace Step

/-- What the steps of a run make, each path beside its step. -/
def made (history : List FieldPath) : List Step → List (Step × FieldPath)
  | [] => []
  | step :: steps =>
    match step.outcome history with
    | some (.ok p) => (step, p) :: made (step.extend history) steps
    | _ => made history steps

theorem extend_of_ok {step : Step} {history : List FieldPath} {p : FieldPath}
    (h : step.outcome history = some (.ok p)) : step.extend history = history ++ [p] := by
  rw [extend, h]

theorem made_cons_of_ok {step : Step} {history : List FieldPath} {p : FieldPath}
    (h : step.outcome history = some (.ok p)) (steps : List Step) :
    made history (step :: steps) = (step, p) :: made (history ++ [p]) steps := by
  rw [made, h, ← extend_of_ok h]

/-- A step that makes no path leaves no trace. -/
theorem extend_made_of_not_ok {step : Step} {history : List FieldPath}
    (h : ∀ p, step.outcome history ≠ some (.ok p)) (steps : List Step) :
    step.extend history = history ∧ made history (step :: steps) = made history steps := by
  constructor
  · rw [extend]
    split
    · exact absurd ‹_› (h _)
    · rfl
  · rw [made]
    split
    · exact absurd ‹_› (h _)
    · rfl

theorem run_cons (history : List FieldPath) (step : Step) (steps : List Step) :
    run history (step :: steps) = run (step.extend history) steps := rfl

theorem run_append (history : List FieldPath) (before after : List Step) :
    run history (before ++ after) = run (run history before) after :=
  List.foldl_append

/-- A run keeps what is there and adds what its steps make. -/
theorem run_eq_append_made (history : List FieldPath) (steps : List Step) :
    run history steps = history ++ (made history steps).map Prod.snd := by
  induction steps generalizing history with
  | nil => exact (List.append_nil history).symm
  | cons step steps ih =>
    rw [run_cons]
    by_cases h : ∃ p, step.outcome history = some (.ok p)
    · obtain ⟨p, hp⟩ := h
      rw [ih, extend_of_ok hp, made_cons_of_ok hp, List.append_assoc, List.map_cons]
      rfl
    · obtain ⟨hextend, hmade⟩ := extend_made_of_not_ok (not_exists.1 h) steps
      rw [hextend, ih, hmade]

theorem run_isPrefix (history : List FieldPath) (steps : List Step) :
    history <+: run history steps :=
  ⟨_, (run_eq_append_made history steps).symm⟩

/-- An entry of the log is what its step makes of the paths before it. -/
theorem outcome_of_made {history : List FieldPath} {steps : List Step} {i : Nat} {step : Step}
    {p : FieldPath} (h : (made history steps)[i]? = some (step, p)) :
    step.outcome (history ++ ((made history steps).take i).map Prod.snd) = some (.ok p) := by
  induction steps generalizing history i with
  | nil => cases h
  | cons first steps ih =>
    by_cases hfirst : ∃ q, first.outcome history = some (.ok q)
    · obtain ⟨q, hq⟩ := hfirst
      rw [made_cons_of_ok hq] at h ⊢
      cases i with
      | zero =>
        obtain ⟨rfl, rfl⟩ := Prod.mk.inj (Option.some.inj h)
        simpa using hq
      | succ i =>
        have := ih h
        rwa [List.append_assoc] at this
    · obtain ⟨-, hmade⟩ := extend_made_of_not_ok (not_exists.1 hfirst) steps
      rw [hmade] at h ⊢
      exact ih h

theorem outcome_of_mem_made {history : List FieldPath} {steps : List Step} {step : Step}
    {p : FieldPath} (h : (step, p) ∈ made history steps) :
    ∃ earlier, step.outcome earlier = some (.ok p) := by
  obtain ⟨i, hi⟩ := List.mem_iff_getElem?.1 h
  exact ⟨_, outcome_of_made hi⟩

end Step

/-- The path at this position of a log goes back to checked paths and segments that are not empty:
what was put in front after the last check, or since the beginning if there was none. -/
inductive Filled (log : List (Step × FieldPath)) : Nat → Prop where
  | single {i name p} : log[i]? = some (.single name, p) → name ≠ "" → Filled log i
  | ofText {i text p} : log[i]? = some (.ofText text, p) → Filled log i
  | ofSegments {i segments p} : log[i]? = some (.ofSegments segments, p) → Filled log i
  | recheck {i source p} : log[i]? = some (.recheck source, p) → Filled log i
  | under {i source segment p} : log[i]? = some (.under source segment, p) → segment ≠ "" →
      Filled log source → Filled log i
  | locate {i source focus p} : log[i]? = some (.locate source focus, p) → focus.key? ≠ some "" →
      Filled log source → Filled log i
  | recall {i source p} : log[i]? = some (.recall source, p) → Filled log source → Filled log i

namespace Step

/-- A path that a log entry was made from is an earlier entry. -/
theorem exists_source {log : List (Step × FieldPath)} {i source : Nat} {p : FieldPath}
    {f : FieldPath → Except Fault FieldPath}
    (h : ((log.take i).map Prod.snd)[source]?.map f = some (.ok p)) :
    source < i ∧ ∃ step q, log[source]? = some (step, q) ∧ f q = .ok p := by
  obtain ⟨q, hq, hf⟩ := Option.map_eq_some_iff.1 h
  rw [List.getElem?_map] at hq
  obtain ⟨⟨step, q⟩, hentry, rfl⟩ := Option.map_eq_some_iff.1 hq
  rw [List.getElem?_take] at hentry
  split at hentry
  · exact ⟨‹_›, step, q, hentry, hf⟩
  · cases hentry

theorem mem_segments_locate {focus : Focus} {p : FieldPath} :
    "" ∈ (focus.locate p).segments ↔ focus.key? = some "" ∨ "" ∈ p.segments := by
  cases focus with
  | whole => simp [Focus.key?]
  | field key => simp [Focus.key?, eq_comm]

variable {steps : List Step} {i : Nat} {step : Step} {p : FieldPath}

theorem outcome_of_made_nil (h : (made [] steps)[i]? = some (step, p)) :
    step.outcome (((made [] steps).take i).map Prod.snd) = some (.ok p) :=
  outcome_of_made h

theorem filled_of_not_mem (h : (made [] steps)[i]? = some (step, p)) (hp : "" ∉ p.segments) :
    Filled (made [] steps) i := by
  induction i using Nat.strongRecOn generalizing step p with
  | ind i ih =>
    have houtcome := outcome_of_made_nil h
    cases step with
    | single name =>
      cases houtcome
      exact .single h (by simpa [eq_comm] using hp)
    | ofText text => exact .ofText h
    | ofSegments segments => exact .ofSegments h
    | recheck source => exact .recheck h
    | under source segment =>
      obtain ⟨hlt, earlier, q, hq, heq⟩ := exists_source houtcome
      cases heq
      obtain ⟨hsegment, hmem⟩ := not_or.1 (mt List.mem_cons.2 hp)
      exact .under h (Ne.symm hsegment) (ih source hlt hq hmem)
    | locate source focus =>
      obtain ⟨hlt, earlier, q, hq, heq⟩ := exists_source houtcome
      cases heq
      obtain ⟨hkey, hmem⟩ := not_or.1 (mt mem_segments_locate.2 hp)
      exact .locate h hkey (ih source hlt hq hmem)
    | «recall» source =>
      obtain ⟨hlt, earlier, q, hq, heq⟩ := exists_source houtcome
      cases heq
      exact .recall h (ih source hlt hq hp)

theorem not_mem_of_filled (hfilled : Filled (made [] steps) i)
    (h : (made [] steps)[i]? = some (step, p)) : "" ∉ p.segments := by
  induction hfilled generalizing step p with
  | single hentry hname =>
    cases hentry.symm.trans h
    cases outcome_of_made_nil h
    simpa [eq_comm] using hname
  | ofText hentry =>
    cases hentry.symm.trans h
    obtain ⟨hsegments, hempty⟩ := ofText_eq_ok_iff.1 (Option.some.inj (outcome_of_made_nil h))
    rwa [hsegments]
  | ofSegments hentry =>
    cases hentry.symm.trans h
    obtain ⟨hsegments, hempty⟩ := ofSegments_eq_ok_iff.1 (Option.some.inj (outcome_of_made_nil h))
    rwa [hsegments]
  | recheck hentry =>
    cases hentry.symm.trans h
    obtain ⟨-, earlier, q, -, heq⟩ := exists_source (outcome_of_made_nil h)
    obtain ⟨hsegments, hempty⟩ := ofSegments_eq_ok_iff.1 heq
    rwa [hsegments]
  | under hentry hsegment _ ih =>
    cases hentry.symm.trans h
    obtain ⟨-, earlier, q, hq, heq⟩ := exists_source (outcome_of_made_nil h)
    cases heq
    exact mt List.mem_cons.1 (not_or.2 ⟨Ne.symm hsegment, ih hq⟩)
  | locate hentry hkey _ ih =>
    cases hentry.symm.trans h
    obtain ⟨-, earlier, q, hq, heq⟩ := exists_source (outcome_of_made_nil h)
    cases heq
    exact mt mem_segments_locate.1 (not_or.2 ⟨hkey, ih hq⟩)
  | «recall» hentry _ ih =>
    cases hentry.symm.trans h
    obtain ⟨-, earlier, q, hq, heq⟩ := exists_source (outcome_of_made_nil h)
    cases heq
    exact ih hq

/-- Checking the segments of a path again gives the path itself or reports its first empty
segment. -/
theorem outcome_recheck {history : List FieldPath} {source : Nat}
    (h : history[source]? = some p) :
    (∀ q, outcome history (.recheck source) = some (.ok q) ↔ q = p ∧ "" ∉ p.segments) ∧
      ("" ∈ p.segments →
        outcome history (.recheck source) =
            some (.error (.emptyAt p.dotted (p.segments.idxOf ""))) ∧
          extend history (.recheck source) = history) := by
  have houtcome : outcome history (.recheck source) = some (FieldPath.ofSegments p.segments) := by
    rw [outcome, h]
    rfl
  refine ⟨fun q => ?_, fun hempty => ?_⟩
  · rw [houtcome, Option.some_inj, ofSegments_eq_ok_iff, segments_inj]
  · rw [extend, houtcome, ofSegments_of_mem_empty hempty]
    exact ⟨rfl, rfl⟩

/-- What a run makes is what its log says, and it stays. Every path has a segment. It has no empty
one exactly if it goes back to checked paths and segments that are not empty. Text is split at its
dots, a list of segments is taken as it is. Checking a path again gives the path itself exactly if
it has no empty segment; otherwise it reports the first one and makes nothing. -/
theorem run_fills (steps : List Step) :
    run [] steps = (made [] steps).map Prod.snd ∧
      (∀ p ∈ run [] steps, p.segments ≠ []) ∧
      (∀ i step p, (made [] steps)[i]? = some (step, p) →
        ("" ∉ p.segments ↔ Filled (made [] steps) i)) ∧
      (∀ text p, (.ofText text, p) ∈ made [] steps →
        p.segments = Dots.split text ∧ ∀ s ∈ p.segments, s ≠ "" ∧ Dots.Dotless s) ∧
      (∀ segments p, (.ofSegments segments, p) ∈ made [] steps →
        p.segments = segments ∧ "" ∉ segments) ∧
      (∀ source p, (run [] steps)[source]? = some p →
        (∀ q, outcome (run [] steps) (.recheck source) = some (.ok q) ↔
          q = p ∧ "" ∉ p.segments) ∧
        ("" ∈ p.segments →
          outcome (run [] steps) (.recheck source) =
              some (.error (.emptyAt p.dotted (p.segments.idxOf ""))) ∧
            extend (run [] steps) (.recheck source) = run [] steps)) ∧
      ∀ more, run [] steps <+: run [] (steps ++ more) := by
  refine ⟨run_eq_append_made [] steps, fun p _ => p.segments_ne_nil, ?_, ?_, ?_, ?_, ?_⟩
  · intro i step p h
    exact ⟨filled_of_not_mem h, fun hfilled => not_mem_of_filled hfilled h⟩
  · intro text p h
    obtain ⟨earlier, houtcome⟩ := outcome_of_mem_made h
    obtain ⟨hsegments, hempty⟩ := ofText_eq_ok_iff.1 (Option.some.inj houtcome)
    rw [hsegments]
    exact ⟨rfl, fun s hs => ⟨fun heq => hempty (heq ▸ hs), Dots.dotless_of_mem_split hs⟩⟩
  · intro segments p h
    obtain ⟨earlier, houtcome⟩ := outcome_of_mem_made h
    exact ofSegments_eq_ok_iff.1 (Option.some.inj houtcome)
  · intro source p h
    exact outcome_recheck h
  · intro more
    rw [run_append]
    exact run_isPrefix _ more

/-- Checked and unchecked paths under further segments, two of them with an empty segment. -/
theorem run_fills_mixed :
    (made [] [.single "", .ofText "a.b", .under 1 "c", .under 0 "x", .ofSegments ["d.e"]])[2]? =
        some (.under 1 "c", ⟨"c", ["a", "b"]⟩) ∧
      Filled (made [] [.single "", .ofText "a.b", .under 1 "c", .under 0 "x",
        .ofSegments ["d.e"]]) 2 ∧
      ¬ Filled (made [] [.single "", .ofText "a.b", .under 1 "c", .under 0 "x",
        .ofSegments ["d.e"]]) 3 ∧
      (∀ s ∈ ["a", "b"], s ≠ "" ∧ Dots.Dotless s) ∧
      "" ∉ ["d.e"] ∧
      (run [] [.single "", .ofText "a.b", .under 1 "c", .under 0 "x", .ofSegments ["d.e"]])[3]? =
        some ⟨"x", [""]⟩ ∧
      "" ∈ ["x", ""] ∧
      outcome (run [] [.single "", .ofText "a.b", .under 1 "c", .under 0 "x",
        .ofSegments ["d.e"]]) (.recheck 3) = some (.error (.emptyAt "x." 1)) := by
  obtain ⟨-, -, hfilled, htext, hlist, hrecheck, -⟩ :=
    run_fills [.single "", .ofText "a.b", .under 1 "c", .under 0 "x", .ofSegments ["d.e"]]
  have hunder : (made [] [.single "", .ofText "a.b", .under 1 "c", .under 0 "x",
      .ofSegments ["d.e"]])[2]? = some (.under 1 "c", ⟨"c", ["a", "b"]⟩) := rfl
  have hempty : "" ∈ ["x", ""] := by decide
  refine ⟨hunder, (hfilled 2 _ _ hunder).1 (by decide), ?_, ?_, ?_, rfl, hempty, ?_⟩
  · exact fun h => (hfilled 3 _ ⟨"x", [""]⟩ rfl).2 h hempty
  · exact (htext "a.b" ⟨"a", ["b"]⟩ (List.mem_of_getElem? (i := 1) rfl)).2
  · exact (hlist ["d.e"] ⟨"d.e", []⟩ (List.mem_of_getElem? (i := 4) rfl)).2
  · exact ((hrecheck 3 ⟨"x", [""]⟩ rfl).2 hempty).1

end Step

end FieldPipeline.FieldPath
