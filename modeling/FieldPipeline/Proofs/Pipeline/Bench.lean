import FieldPipeline.Pipeline.Bench
import Mathlib.Data.List.Induction

/-!
# Drafts side by side

What lies on a bench under a number is told by the steps on that number alone, in whatever order
they come between steps on other numbers. A draft goes back to the step that began it last and has
the fields that were read for it since; a finished pipeline goes back to the last step that found a
draft to seal.
-/

namespace FieldPipeline.Bench

variable {σ : Type}

namespace Step

def number : Step → Nat
  | .begin number _ => number
  | .narrow number _ => number
  | .read number _ => number
  | .seal number => number

def renews (number : Nat) : Step → Bool
  | .begin other _ => other = number
  | .seal other => other = number
  | .narrow .. => false
  | .read .. => false

/-- The field that a step has for the draft with this number; a text that cannot be read has
none. -/
def fieldFor? (number : Nat) : Step → Option FieldPath
  | .narrow other field => if other = number then some field else none
  | .read other text => if other = number then (FieldPath.ofText text).toOption else none
  | .begin .. => none
  | .seal .. => none

theorem fieldFor?_of_ne {step : Step} {number : Nat} (h : step.number ≠ number) :
    step.fieldFor? number = none := by
  cases step with
  | begin => rfl
  | narrow other field => exact if_neg h
  | read other text => exact if_neg h
  | «seal» => rfl

end Step

/-- After these steps the draft with this number is in work: it was begun last on this key, and has
been given these fields since. -/
def InWork (steps : List Step) (number : Nat) (key : String) (fields : List FieldPath) : Prop :=
  ∃ before after, steps = before ++ .begin number key :: after ∧
    (∀ step ∈ after, step.renews number = false) ∧
    fields = after.filterMap (Step.fieldFor? number)

/-- These steps sealed a draft with this number, with this key and these fields, and no draft with
the number since. -/
def Sealed (steps : List Step) (number : Nat) (key : String) (fields : List FieldPath) : Prop :=
  ∃ before after, steps = before ++ .seal number :: after ∧ InWork before number key fields ∧
    ∀ between rest, after = between ++ .seal number :: rest →
      ∀ key fields, ¬ InWork (before ++ .seal number :: between) number key fields

theorem run_append (form : StageForm σ) (bench : Bench σ) (before after : List Step) :
    run form bench (before ++ after) = run form (run form bench before) after :=
  List.foldl_append

theorem run_cons (form : StageForm σ) (bench : Bench σ) (step : Step) (steps : List Step) :
    run form bench (step :: steps) = run form (bench.step form step) steps := rfl

theorem run_concat (form : StageForm σ) (bench : Bench σ) (steps : List Step) (step : Step) :
    run form bench (steps ++ [step]) = (run form bench steps).step form step :=
  run_append form bench steps [step]

/-! ### One step -/

section OneStep

variable {form : StageForm σ} {number : Nat}

theorem get?_drafts_narrow (bench : Bench σ) (number : Nat) (field : FieldPath) :
    Record.get? (bench.narrow form number field).drafts number =
      (Record.get? bench.drafts number).map fun draft => draft.narrow form field := by
  cases h : Record.get? bench.drafts number with
  | none => rw [narrow, h, h]; rfl
  | some draft => rw [narrow, h, Record.get?_put_self]; rfl

theorem get?_drafts_narrow_of_ne (bench : Bench σ) {other : Nat} (h : other ≠ number)
    (field : FieldPath) :
    Record.get? (bench.narrow form other field).drafts number =
      Record.get? bench.drafts number := by
  rw [narrow]
  split
  · exact Record.get?_put_of_ne _ _ h
  · rfl

@[simp] theorem finished_narrow (bench : Bench σ) (number : Nat) (field : FieldPath) :
    (bench.narrow form number field).finished = bench.finished := by
  rw [narrow]
  split <;> rfl

theorem step_read_of_error (bench : Bench σ) {text : String} {fault : FieldPath.Fault}
    (h : FieldPath.ofText text = .error fault) : bench.step form (.read number text) = bench := by
  rw [step, h]

theorem step_read_of_ok (bench : Bench σ) {text : String} {field : FieldPath}
    (h : FieldPath.ofText text = .ok field) :
    bench.step form (.read number text) = bench.narrow form number field := by
  rw [step, h]

theorem step_seal_of_none {bench : Bench σ} (h : Record.get? bench.drafts number = none) :
    bench.step form (.seal number) = bench := by
  rw [step, h]

theorem step_seal_of_some {bench : Bench σ} {draft : Draft σ}
    (h : Record.get? bench.drafts number = some draft) :
    bench.step form (.seal number) =
      ⟨Record.erase bench.drafts number, Record.put bench.finished number draft.toPipeline⟩ := by
  rw [step, h]

/-- A step on one number leaves alone what lies under another. -/
theorem get?_step_of_ne (bench : Bench σ) {step : Step} (h : step.number ≠ number) :
    Record.get? (bench.step form step).drafts number = Record.get? bench.drafts number ∧
      Record.get? (bench.step form step).finished number =
        Record.get? bench.finished number := by
  cases step with
  | begin other key => exact ⟨Record.get?_put_of_ne _ _ h, rfl⟩
  | narrow other field => exact ⟨get?_drafts_narrow_of_ne bench h field, by rw [step, finished_narrow]⟩
  | read other text =>
    cases htext : FieldPath.ofText text with
    | error fault => rw [step_read_of_error bench htext]; exact ⟨rfl, rfl⟩
    | ok field =>
      rw [step_read_of_ok bench htext, finished_narrow]
      exact ⟨get?_drafts_narrow_of_ne bench h field, rfl⟩
  | «seal» other =>
    cases hdraft : Record.get? bench.drafts other with
    | none => rw [step_seal_of_none hdraft]; exact ⟨rfl, rfl⟩
    | some draft =>
      rw [step_seal_of_some hdraft]
      exact ⟨Record.get?_erase_of_ne _ h, Record.get?_put_of_ne _ _ h⟩

/-- A step that neither begins nor seals the draft narrows it to the field that it has for it. -/
theorem get?_drafts_step (bench : Bench σ) {step : Step} (h : step.renews number = false) :
    Record.get? (bench.step form step).drafts number =
      (Record.get? bench.drafts number).map fun draft =>
        draft.narrowAll form (step.fieldFor? number).toList := by
  by_cases hnumber : step.number = number
  · subst hnumber
    cases step with
    | begin other key => simp [Step.renews, Step.number] at h
    | narrow other field =>
      rw [Bench.step, Step.number, get?_drafts_narrow, Step.fieldFor?, if_pos rfl]
      rfl
    | read other text =>
      rw [Step.number, Step.fieldFor?, if_pos rfl]
      cases htext : FieldPath.ofText text with
      | error fault =>
        rw [step_read_of_error bench htext]
        exact Option.map_id'.symm
      | ok field =>
        rw [step_read_of_ok bench htext, get?_drafts_narrow]
        rfl
    | «seal» other => simp [Step.renews, Step.number] at h
  · rw [(get?_step_of_ne bench hnumber).1, Step.fieldFor?_of_ne hnumber]
    exact Option.map_id'.symm

theorem get?_finished_step (bench : Bench σ) {step : Step} (h : step ≠ .seal number) :
    Record.get? (bench.step form step).finished number = Record.get? bench.finished number := by
  by_cases hnumber : step.number = number
  · subst hnumber
    cases step with
    | begin other key => rfl
    | narrow other field => rw [Bench.step, finished_narrow]
    | read other text =>
      cases htext : FieldPath.ofText text with
      | error fault => rw [step_read_of_error bench htext]
      | ok field => rw [step_read_of_ok bench htext, finished_narrow]
    | «seal» other => exact absurd rfl h
  · exact (get?_step_of_ne bench hnumber).2

end OneStep

/-! ### Runs -/

section Run

variable (form : StageForm σ) {steps : List Step} {number : Nat} {key : String}
  {fields : List FieldPath}

theorem get?_drafts_run {after : List Step} (h : ∀ step ∈ after, step.renews number = false)
    (bench : Bench σ) :
    Record.get? (run form bench after).drafts number =
      (Record.get? bench.drafts number).map fun draft =>
        draft.narrowAll form (after.filterMap (Step.fieldFor? number)) := by
  induction after generalizing bench with
  | nil => exact Option.map_id'.symm
  | cons step after ih =>
    obtain ⟨hstep, hafter⟩ := List.forall_mem_cons.1 h
    rw [run_cons, ih hafter, get?_drafts_step bench hstep, Option.map_map]
    congr 1
    funext draft
    cases hfield : step.fieldFor? number with
    | none => rw [List.filterMap_cons_none hfield]; rfl
    | some field => rw [List.filterMap_cons_some hfield]; rfl

theorem get?_drafts_of_inWork (h : InWork steps number key fields) :
    Record.get? (run form {} steps).drafts number =
      some ((Draft.begin form key).narrowAll form fields) := by
  obtain ⟨before, after, rfl, hafter, rfl⟩ := h
  have hbegun : Record.get? ((run form {} before).step form (.begin number key)).drafts number =
      some (Draft.begin form key) :=
    Record.get?_put_self _ _ _
  rw [run_append, run_cons, get?_drafts_run form hafter, hbegun, Option.map_some]

theorem InWork.concat (h : InWork steps number key fields) {step : Step}
    (hstep : step.renews number = false) :
    InWork (steps ++ [step]) number key (fields ++ (step.fieldFor? number).toList) := by
  obtain ⟨before, after, rfl, hafter, rfl⟩ := h
  refine ⟨before, after ++ [step], by simp, ?_, ?_⟩
  · rw [List.forall_mem_append]
    exact ⟨hafter, List.forall_mem_singleton.2 hstep⟩
  · rw [List.filterMap_append]
    cases hfield : step.fieldFor? number <;> simp [hfield]

theorem exists_inWork {draft : Draft σ}
    (h : Record.get? (run form {} steps).drafts number = some draft) :
    ∃ key fields, InWork steps number key fields ∧
      draft = (Draft.begin form key).narrowAll form fields := by
  induction steps using List.reverseRecOn generalizing draft with
  | nil => cases h
  | append_singleton steps step ih =>
    rw [run_concat] at h
    cases hrenews : step.renews number with
    | true =>
      cases step with
      | begin other key =>
        obtain rfl : other = number := by simpa [Step.renews] using hrenews
        rw [Bench.step, Record.get?_put_self] at h
        exact ⟨key, [], ⟨steps, [], rfl, List.forall_mem_nil _, rfl⟩, (Option.some.inj h).symm⟩
      | narrow | read => cases hrenews
      | «seal» other =>
        obtain rfl : other = number := by simpa [Step.renews] using hrenews
        cases hdraft : Record.get? (run form {} steps).drafts other with
        | none => rw [step_seal_of_none hdraft, hdraft] at h; cases h
        | some earlier => rw [step_seal_of_some hdraft, Record.get?_erase_self] at h; cases h
    | false =>
      rw [get?_drafts_step _ hrenews] at h
      obtain ⟨earlier, hearlier, rfl⟩ := Option.map_eq_some_iff.1 h
      obtain ⟨key, fields, hwork, rfl⟩ := ih hearlier
      refine ⟨key, _, hwork.concat hrenews, ?_⟩
      rw [Draft.narrowAll, Draft.narrowAll, Draft.narrowAll, List.foldl_append]

theorem get?_drafts_eq_none_iff :
    Record.get? (run form {} steps).drafts number = none ↔
      ∀ key fields, ¬ InWork steps number key fields := by
  constructor
  · intro h key fields hwork
    rw [get?_drafts_of_inWork form hwork] at h
    cases h
  · intro h
    cases hdraft : Record.get? (run form {} steps).drafts number with
    | none => rfl
    | some draft =>
      obtain ⟨key, fields, hwork, -⟩ := exists_inWork form hdraft
      exact absurd hwork (h key fields)

theorem finished_seal_of_inWork {before : List Step} (h : InWork before number key fields) :
    Record.get? (run form {} (before ++ [.seal number])).finished number =
      some (Pipeline.ofFields form key fields) := by
  rw [run_concat, step_seal_of_some (get?_drafts_of_inWork form h), Record.get?_put_self,
    Pipeline.ofFields]

/-- A sealed pipeline stays unless a draft is found to seal. -/
theorem get?_finished_concat {step : Step}
    (h : step = .seal number → ∀ key fields, ¬ InWork steps number key fields) :
    Record.get? (run form {} (steps ++ [step])).finished number =
      Record.get? (run form {} steps).finished number := by
  rw [run_concat]
  by_cases hseal : step = .seal number
  · rw [hseal, step_seal_of_none ((get?_drafts_eq_none_iff form).2 (h hseal))]
  · exact get?_finished_step _ hseal

theorem Sealed.concat (h : Sealed steps number key fields) {step : Step}
    (hstep : step = .seal number → ∀ key fields, ¬ InWork steps number key fields) :
    Sealed (steps ++ [step]) number key fields := by
  obtain ⟨before, after, rfl, hwork, hlast⟩ := h
  refine ⟨before, after ++ [step], by simp, hwork, fun between rest hafter => ?_⟩
  rcases List.eq_nil_or_concat rest with rfl | ⟨rest, last, rfl⟩
  · obtain ⟨rfl, hseal⟩ := List.append_inj' hafter rfl
    exact hstep (List.singleton_inj.1 hseal)
  · have hafter : after ++ [step] = (between ++ .seal number :: rest) ++ [last] := by
      simpa using hafter
    exact hlast between rest (List.append_inj' hafter rfl).1

theorem get?_finished_of_sealed (h : Sealed steps number key fields) :
    Record.get? (run form {} steps).finished number =
      some (Pipeline.ofFields form key fields) := by
  obtain ⟨before, after, rfl, hwork, hlast⟩ := h
  induction after using List.reverseRecOn with
  | nil => exact finished_seal_of_inWork form hwork
  | append_singleton after step ih =>
    have hkept : step = .seal number →
        ∀ key fields, ¬ InWork (before ++ .seal number :: after) number key fields := by
      rintro rfl
      exact hlast after [] rfl
    rw [← List.cons_append, ← List.append_assoc, get?_finished_concat form hkept]
    exact ih fun between rest hafter => hlast between (rest ++ [step]) (by simp [hafter])

theorem exists_sealed {pipeline : Pipeline σ}
    (h : Record.get? (run form {} steps).finished number = some pipeline) :
    ∃ key fields, Sealed steps number key fields ∧
      pipeline = Pipeline.ofFields form key fields := by
  induction steps using List.reverseRecOn with
  | nil => cases h
  | append_singleton steps step ih =>
    by_cases hfound : step = .seal number ∧ ∃ key fields, InWork steps number key fields
    · obtain ⟨rfl, key, fields, hwork⟩ := hfound
      rw [finished_seal_of_inWork form hwork] at h
      refine ⟨key, fields, ⟨steps, [], rfl, hwork, fun between rest hafter => ?_⟩,
        (Option.some.inj h).symm⟩
      simp at hafter
    · have hkept : step = .seal number → ∀ key fields, ¬ InWork steps number key fields :=
        fun hseal key fields hwork => hfound ⟨hseal, key, fields, hwork⟩
      rw [get?_finished_concat form hkept] at h
      obtain ⟨key, fields, hsealed, hpipeline⟩ := ih h
      exact ⟨key, fields, hsealed.concat hkept, hpipeline⟩

end Run

/-- At every point of a run, the draft under a number is what the steps on that number say: the
opening stage of its key and three stages for each field read for it since it was begun. The
pipeline under a number is what the last step that found a draft to seal made of it. A step on one
number changes nothing under another, a text that cannot be read changes nothing at all, and only
sealing changes what is finished. -/
theorem run_keeps_apart (form : StageForm σ) :
    (∀ steps number draft, Record.get? (run form {} steps).drafts number = some draft ↔
      ∃ key fields, InWork steps number key fields ∧
        draft = ⟨key, openingStage form key :: fields.flatMap (narrowingStages form key)⟩) ∧
    (∀ steps number draft key fields, Record.get? (run form {} steps).drafts number = some draft →
      InWork steps number key fields → draft.stages.length = 1 + 3 * fields.length) ∧
    (∀ steps number pipeline, Record.get? (run form {} steps).finished number = some pipeline ↔
      ∃ key fields, Sealed steps number key fields ∧
        pipeline = ⟨openingStage form key :: fields.flatMap (narrowingStages form key),
          .field key⟩) ∧
    (∀ (bench : Bench σ) step number, step.number ≠ number →
      Record.get? (bench.step form step).drafts number = Record.get? bench.drafts number ∧
        Record.get? (bench.step form step).finished number =
          Record.get? bench.finished number) ∧
    (∀ (bench : Bench σ) number text fault, FieldPath.ofText text = .error fault →
      bench.step form (.read number text) = bench) ∧
    ∀ (bench : Bench σ) step number, step ≠ .seal number →
      Record.get? (bench.step form step).finished number = Record.get? bench.finished number := by
  refine ⟨fun steps number draft => ?_, ?_, fun steps number pipeline => ?_, ?_, ?_, ?_⟩
  · simp only [← Draft.narrowAll_begin]
    constructor
    · exact exists_inWork form
    · rintro ⟨key, fields, hwork, rfl⟩
      exact get?_drafts_of_inWork form hwork
  · intro steps number draft key fields hdraft hwork
    rw [get?_drafts_of_inWork form hwork] at hdraft
    obtain rfl := Option.some.inj hdraft
    rw [Draft.narrowAll_begin, List.length_cons, length_flatMap_narrowingStages, Nat.add_comm]
  · simp only [← Pipeline.ofFields_eq]
    constructor
    · exact exists_sealed form
    · rintro ⟨key, fields, hsealed, rfl⟩
      exact get?_finished_of_sealed form hsealed
  · exact fun bench step number h => get?_step_of_ne bench h
  · exact fun bench number text fault h => step_read_of_error bench h
  · exact fun bench step number h => get?_finished_step bench h

/-- Two drafts on one key, with a text that cannot be read, and a number that is begun again after
its draft was sealed. -/
theorem run_keeps_apart_shared_key :
    Record.get? (run .plain {} [.begin 1 "k", .begin 2 "k", .read 1 "a.b", .read 2 "a..b",
        .narrow 2 (.single "x"), .seal 1, .begin 1 "j", .read 2 "y"]).drafts 2 =
      some ⟨"k", openingStage .plain "k" ::
        [.single "x", .single "y"].flatMap (narrowingStages .plain "k")⟩ ∧
      (openingStage .plain "k" ::
        [.single "x", .single "y"].flatMap (narrowingStages .plain "k")).length = 1 + 3 * 2 ∧
      Record.get? (run .plain {} [.begin 1 "k", .begin 2 "k", .read 1 "a.b", .read 2 "a..b",
          .narrow 2 (.single "x"), .seal 1, .begin 1 "j", .read 2 "y"]).finished 1 =
        some ⟨openingStage .plain "k" :: narrowingStages .plain "k" ⟨"a", ["b"]⟩, .field "k"⟩ ∧
      (Step.read 1 "a.b").number ≠ 2 ∧
      Record.get? (step .plain (step .plain {} (.begin 2 "k")) (.read 1 "a.b")).drafts 2 =
        Record.get? (step .plain {} (.begin 2 "k")).drafts 2 ∧
      FieldPath.ofText "a..b" = .error (.emptyAt "a..b" 1) ∧
      step .plain (step .plain {} (.begin 2 "k")) (.read 2 "a..b") =
        step .plain {} (.begin 2 "k") ∧
      Step.begin 1 "j" ≠ .seal 1 ∧
      Record.get? (step .plain ⟨[], [(1, ⟨[], .field "k"⟩)]⟩ (.begin 1 "j")).finished 1 =
        some ⟨[], .field "k"⟩ := by
  have hwork : InWork [.begin 1 "k", .begin 2 "k", .read 1 "a.b", .read 2 "a..b",
      .narrow 2 (.single "x"), .seal 1, .begin 1 "j", .read 2 "y"] 2 "k"
      [.single "x", .single "y"] :=
    ⟨[.begin 1 "k"], [.read 1 "a.b", .read 2 "a..b", .narrow 2 (.single "x"), .seal 1,
      .begin 1 "j", .read 2 "y"], rfl, by decide, rfl⟩
  have hsealed : Sealed [.begin 1 "k", .begin 2 "k", .read 1 "a.b", .read 2 "a..b",
      .narrow 2 (.single "x"), .seal 1, .begin 1 "j", .read 2 "y"] 1 "k" [⟨"a", ["b"]⟩] := by
    refine ⟨[.begin 1 "k", .begin 2 "k", .read 1 "a.b", .read 2 "a..b", .narrow 2 (.single "x")],
      [.begin 1 "j", .read 2 "y"], rfl, ⟨[], [.begin 2 "k", .read 1 "a.b", .read 2 "a..b",
        .narrow 2 (.single "x")], rfl, by decide, rfl⟩, ?_⟩
    intro between rest hafter
    have hmem : Step.seal 1 ∈ [Step.begin 1 "j", .read 2 "y"] :=
      hafter ▸ List.mem_append_right between List.mem_cons_self
    simp at hmem
  have hne : (Step.read 1 "a.b").number ≠ 2 := by decide
  have hfault : FieldPath.ofText "a..b" = .error (.emptyAt "a..b" 1) := rfl
  have hbegin : Step.begin 1 "j" ≠ .seal 1 := nofun
  obtain ⟨hdrafts, hlength, hfinished, hother, hrefused, hkept⟩ := run_keeps_apart .plain
  have hdraft := (hdrafts _ 2 _).2 ⟨_, _, hwork, rfl⟩
  exact ⟨hdraft, hlength _ 2 _ _ _ hdraft hwork, (hfinished _ 1 _).2 ⟨_, _, hsealed, rfl⟩, hne,
    (hother _ _ 2 hne).1, hfault, hrefused _ 2 _ _ hfault, hbegin, hkept _ _ 1 hbegin⟩

end FieldPipeline.Bench
