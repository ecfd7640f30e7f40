-- SUMMARY: Plans carry the file they were made for, and their removals name its tracks.
import Voom.Evaluator.Emission

namespace Voom.Evaluator

open Dsl

/-! ## The file of a plan -/

section

variable (env : EvalEnv) (file : MediaFile) (ctx : EvalContext)

@[simp] theorem emitRemovals_file (r : RemovalRequest) (plan : Plan) :
    (emitRemovals file r plan).file = plan.file := by
  simp only [emitRemovals]
  split
  · rfl
  split
  · rfl
  · rfl

@[simp] theorem emitAction_file (action : CompiledAction) (plan : Plan) :
    (emitAction env file ctx action plan).1.file = plan.file := by
  cases action with
  | keep target filter => exact emitRemovals_file file _ plan
  | remove target filter => exact emitRemovals_file file _ plan
  | skip phase => cases phase <;> rfl
  | warn message => rfl
  | fail message => rfl
  | setDefault target filter => rfl
  | setForced target filter => rfl
  | setLanguage target filter value =>
    simp only [emitAction, emitSetLanguage]
    split <;> rfl
  | setTag tag value =>
    simp only [emitAction, emitSetTag]
    split <;> rfl

@[simp] theorem emitActions_file (actions : List CompiledAction) (plan : Plan) :
    (emitActions env file ctx actions plan).1.file = plan.file := by
  induction actions generalizing plan with
  | nil => rfl
  | cons action rest ih =>
    have hfirst := emitAction_file env file ctx action plan
    rw [emitActions_cons]
    split
    · exact hfirst
    · rw [ih, hfirst]

@[simp] theorem emitOperation_file (op : CompiledOperation) (plan : Plan) :
    (emitOperation env file ctx op plan).1.file = plan.file := by
  cases op with
  | setContainer target =>
    simp only [emitOperation, emitSetContainer]
    split <;> rfl
  | keep target filter => exact emitRemovals_file file _ plan
  | remove target filter => exact emitRemovals_file file _ plan
  | reorderTracks order => rfl
  | setDefaults defaults => rfl
  | clearActions target settings => rfl
  | transcode target codec settings =>
    simp only [emitOperation, emitTranscode]
    split
    · rfl
    · rfl
    · rfl
    all_goals
      split
      · rfl
      split <;> rfl
  | normalizeAudio target filter settings =>
    have hkeep : (emitKeep env file ctx target filter plan).file = plan.file :=
      emitRemovals_file file _ plan
    simp only [emitOperation, emitNormalizeAudio]
    split
    · exact hkeep
    · exact hkeep
  | synthesize synth =>
    simp only [emitOperation, emitSynthesize]
    split <;> rfl
  | clearTags =>
    simp only [emitOperation, emitClearTags]
    split <;> rfl
  | setTag tag value =>
    simp only [emitOperation, emitSetTag]
    split <;> rfl
  | deleteTag tag =>
    simp only [emitOperation, emitDeleteTag]
    split <;> rfl
  | conditional cond => exact emitActions_file env file ctx _ plan
  | rules mode rules =>
    simp only [emitOperation, emitRules_eq]
    exact emitActions_file env file ctx _ plan
  | verify mode => rfl

@[simp] theorem emitOperations_file (onError : ErrorStrategy) (ops : List CompiledOperation)
    (plan : Plan) : (emitOperations env file ctx onError ops plan).file = plan.file := by
  induction ops generalizing plan with
  | nil => rfl
  | cons op rest ih =>
    have hop := emitOperation_file env file ctx op plan
    rw [emitOperations]
    split
    next plan' h =>
      rw [h] at hop
      rw [ih, hop]
    next plan' error h =>
      rw [h] at hop
      cases onError with
      | «continue» =>
        rw [← hop]
        exact ih _
      | _ => exact hop

@[simp] theorem applySafeguardForTrackType_file (removed : List Nat)
    (typeCheck : TrackType → Bool) (kind : SafeguardKind) (label : String) (plan : Plan) :
    (applySafeguardForTrackType file removed typeCheck kind label plan).file = plan.file := by
  simp only [applySafeguardForTrackType]
  split <;> rfl

@[simp] theorem applyContainerSafeguard_file (plan : Plan) :
    (applyContainerSafeguard file plan).file = plan.file := by
  simp only [applyContainerSafeguard]
  split
  · rfl
  split <;> rfl

@[simp] theorem applySafeguards_file (plan : Plan) :
    (applySafeguards file plan).file = plan.file := by
  simp only [applySafeguards]
  split
  · rfl
  · rw [applyContainerSafeguard_file]
    split
    · rfl
    · simp

end

section

variable {env : EvalEnv} {file : MediaFile} {ctx : EvalContext}

@[simp] theorem evaluatePhase_file (policy : CompiledPolicy) (id : Uuid)
    (outcomes : List (String × EvaluationOutcome)) (phase : CompiledPhase) :
    (evaluatePhase env file ctx policy id outcomes phase).file = file := by
  cases hcheck : checkSkipConditions env file ctx phase outcomes with
  | some reason => simp [evaluatePhase, hcheck, newPlan]
  | none => rw [evaluatePhase_of_run env file ctx hcheck, applySafeguards_file, draftPlan,
      emitOperations_file, newPlan]

/-! ## The tracks of removals -/

/-- The action removes a track of the file, and says what type it has. -/
def RemovesTrackOf (file : MediaFile) (a : PlannedAction) : Prop :=
  ∃ t ∈ file.tracks, a.trackIndex = some t.index ∧
    ∃ reason, a.parameters = .removeTrack reason t.trackType

theorem removesTrackOf_of_mem_granted {r : RemovalRequest} {a : PlannedAction}
    (h : a ∈ r.granted file) : RemovesTrackOf file a := by
  unfold RemovalRequest.granted at h
  split at h
  · cases h
  · obtain ⟨t, ht, rfl⟩ := List.mem_map.mp h
    have htrack : t ∈ tracksForTarget file r.target := (List.mem_filter.mp ht).1
    refine ⟨t, ?_, rfl, r.reason, rfl⟩
    cases htarget : r.target with
    | any => simpa [htarget, tracksForTarget] using htrack
    | _ =>
      rw [htarget] at htrack
      exact (List.mem_filter.mp htrack).1

/-- Removals come from the requests of keep and remove. -/
theorem removesTrackOf_of_mem_operationPlans {op : CompiledOperation} {a : PlannedAction}
    (h : a ∈ operationPlans env file ctx op) (hremove : a.operation = .removeTrack) :
    RemovesTrackOf file a := by
  obtain h | h := List.mem_append.mp h
  · obtain ⟨action, -, h⟩ := List.mem_flatMap.mp h
    cases action with
    | keep target filter => exact removesTrackOf_of_mem_granted h
    | remove target filter => exact removesTrackOf_of_mem_granted h
    | _ =>
      have hkind := operation_of_mem_actionPlans h
      rw [hremove] at hkind
      simp [actionKinds] at hkind
  · -- No operation pushes a removal beside them.
    have hkind := operation_of_mem_ownPlans h
    rw [hremove] at hkind
    cases op with
    | transcode target codec settings => cases target <;> simp [ownKinds] at hkind
    | _ => simp [ownKinds] at hkind

variable {newId : Nat → Uuid} {policy : CompiledPolicy} {capabilities : Option CapabilityMap}
  {phaseOutputLookup : Option (String → Option PhaseOutput)} {plan : Plan}

theorem file_of_mem_plans
    (h : plan ∈ evaluateWithPhaseOutputs env newId policy file capabilities phaseOutputLookup) :
    plan.file = file := by
  obtain ⟨_, _, _, phase, -, rfl⟩ := mem_evaluatePhases h
  exact evaluatePhase_file policy _ _ phase

theorem removesTrackOf_of_mem_plans
    (h : plan ∈ evaluateWithPhaseOutputs env newId policy file capabilities phaseOutputLookup)
    {a : PlannedAction} (ha : a ∈ plan.actions) (hremove : a.operation = .removeTrack) :
    RemovesTrackOf file a := by
  obtain ⟨_, _, _, phase, -, rfl⟩ := mem_evaluatePhases h
  obtain ⟨op, -, hplans⟩ := operation_of_planned ha
  exact removesTrackOf_of_mem_operationPlans hplans hremove

end

end Voom.Evaluator
