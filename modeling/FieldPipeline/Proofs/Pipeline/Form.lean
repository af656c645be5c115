import FieldPipeline.Pipeline.Draft

/-!
# Stages of any form

What a draft asks of its stage form, and in which order, does not depend on the form: the stages of
any form are the plain ones, each built anew. The requests can also be actions that are made one
after the other while the draft grows. A form that writes down what it is asked for then ends up
with the plain stages.
-/

namespace FieldPipeline

variable {σ : Type}

/-- A form that answers as before and writes down every request, as the plain stage it asks for. -/
def StageForm.recording (form : StageForm σ) : StageForm (StateM (List Stage) σ) where
  present key := do
    modify (· ++ [.present key])
    return form.present key
  assign fields := do
    modify (· ++ [.assign fields])
    return form.assign fields

section Actions

variable {m : Type → Type} [Monad m]

def Draft.beginM (form : StageForm (m σ)) (key : String) : m (Draft σ) := do
  return ⟨key, [← openingStage form key]⟩

/-- Narrows the working value to one of its fields; the stages are built first to last. -/
def Draft.narrowM (form : StageForm (m σ)) (d : Draft σ) (field : FieldPath) : m (Draft σ) := do
  return ⟨d.key, d.stages ++ (← (narrowingStages form d.key field).mapM id)⟩

def Pipeline.ofFieldsM (form : StageForm (m σ)) (key : String) (fields : List FieldPath) :
    m (Pipeline σ) := do
  let d ← Draft.beginM form key
  return (← fields.foldlM (Draft.narrowM form) d).toPipeline

end Actions

section Requests

variable (form : StageForm σ) (key : String)

theorem openingStage_eq : openingStage form key = form.ofStage (openingStage .plain key) := rfl

theorem narrowingStages_eq_map (field : FieldPath) :
    narrowingStages form key field = (narrowingStages .plain key field).map form.ofStage := rfl

theorem flatMap_narrowingStages_eq_map (fields : List FieldPath) :
    fields.flatMap (narrowingStages form key) =
      (fields.flatMap (narrowingStages .plain key)).map form.ofStage := by
  rw [List.map_flatMap]
  rfl

end Requests

section Actions

variable {m : Type → Type} [Monad m] [LawfulMonad m] (form : StageForm (m σ))

theorem Draft.beginM_eq (key : String) :
    beginM form key =
      (fun stages => ⟨key, stages⟩) <$> [openingStage .plain key].mapM form.ofStage := by
  rw [beginM, openingStage_eq]
  simp

theorem Draft.narrowM_eq (d : Draft σ) (field : FieldPath) :
    narrowM form d field =
      (fun more => ⟨d.key, d.stages ++ more⟩) <$>
        (narrowingStages .plain d.key field).mapM form.ofStage := by
  rw [narrowM, narrowingStages_eq_map, List.mapM_map]
  simp

theorem Draft.foldlM_narrowM (d : Draft σ) (fields : List FieldPath) :
    fields.foldlM (narrowM form) d =
      (fun more => ⟨d.key, d.stages ++ more⟩) <$>
        (fields.flatMap (narrowingStages .plain d.key)).mapM form.ofStage := by
  induction fields generalizing d with
  | nil => simp
  | cons field fields ih =>
    rw [List.foldlM_cons, narrowM_eq, List.flatMap_cons, List.mapM_append]
    simp [ih, List.append_assoc]

/-- Building by actions makes the requests of the plain stages, one after the other. -/
theorem Pipeline.ofFieldsM_eq (key : String) (fields : List FieldPath) :
    ofFieldsM form key fields =
      (fun stages => ⟨stages, .field key⟩) <$>
        (ofFields .plain key fields).stages.mapM form.ofStage := by
  rw [ofFieldsM, Draft.beginM_eq, ofFields_stages, List.mapM_cons]
  simp [Draft.foldlM_narrowM, Draft.toPipeline]

end Actions

/-- A recording form is asked for each stage once, in order. -/
theorem StageForm.mapM_recording (form : StageForm σ) (stages log : List Stage) :
    (stages.mapM form.recording.ofStage).run log = (stages.map form.ofStage, log ++ stages) := by
  induction stages generalizing log with
  | nil =>
    rw [List.append_nil]
    rfl
  | cons stage stages ih =>
    have hstage : (form.recording.ofStage stage).run log =
        (form.ofStage stage, log ++ [stage]) := by
      cases stage <;> rfl
    have hlog : log ++ [stage] ++ stages = log ++ stage :: stages :=
      (List.append_cons log stage stages).symm
    rw [List.mapM_cons, StateT.run_bind, hstage, ← hlog]
    change ((fun later => (form.ofStage stage :: later.1, later.2))
      ((stages.mapM form.recording.ofStage).run (log ++ [stage]))) = _
    rw [ih]
    rfl

namespace Pipeline

variable (form : StageForm σ) (key : String) (fields : List FieldPath)

theorem ofFields_stages_eq_map :
    (ofFields form key fields).stages = (ofFields .plain key fields).stages.map form.ofStage := by
  rw [ofFields_stages, ofFields_stages, List.map_cons, openingStage_eq,
    flatMap_narrowingStages_eq_map]

/-- Actions without an effect build what the draft builds without actions. -/
theorem ofFieldsM_id : ofFieldsM (m := Id) form key fields = ofFields form key fields := by
  have hmap : (ofFields .plain key fields).stages.mapM (m := Id) form.ofStage =
      (ofFields .plain key fields).stages.map form.ofStage :=
    List.idRun_mapM
  rw [ofFieldsM_eq, hmap, ← ofFields_stages_eq_map, ← ofFields_focus form key fields]
  rfl

/-- The stages of any form are the plain stages, each built anew by the form, and the working value
lies where it lies for the plain form. A recording form is asked for exactly the plain stages, one
request for each, in their order; apart from the record nothing changes. -/
theorem ofFields_any_form :
    (ofFields form key fields).stages = (ofFields .plain key fields).stages.map form.ofStage ∧
      (ofFields form key fields).focus = (ofFields .plain key fields).focus ∧
      ofFieldsM (m := Id) form key fields = ofFields form key fields ∧
      ∀ log, (ofFieldsM form.recording key fields).run log =
        (ofFields form key fields, log ++ (ofFields .plain key fields).stages) := by
  refine ⟨ofFields_stages_eq_map form key fields, ?_, ofFieldsM_id form key fields, fun log => ?_⟩
  · rw [ofFields_focus, ofFields_focus]
  · rw [ofFieldsM_eq, StateT.run_map, StageForm.mapM_recording, ← ofFields_stages_eq_map,
      ← ofFields_focus form key fields]
    rfl

end Pipeline

end FieldPipeline
