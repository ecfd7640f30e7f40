-- SUMMARY: The actions a phase puts into its plan, operation by operation, and when it is skipped.
import Voom.Evaluator.Safeguards

/-!
# Emissions

What an operation pushes depends on the operation and the file alone (`operationPlans`). The
one thing an operation does to the actions before it is to drop them all: a transcode that
lacks its hardware backend does (`lacksBackend`). So the actions of a phase are those of the
operations since the last of these (`emitOperations_emits`).
-/

namespace Voom.Evaluator

open Dsl

section

variable (env : EvalEnv) (file : MediaFile) (ctx : EvalContext)

/-! ## Actions -/

/-- The removals of a request that does not empty its target. -/
def RemovalRequest.granted (r : RemovalRequest) : List PlannedAction :=
  if r.empties file then [] else r.removals file

def flagActions (target : TrackTarget) (filter : Option CompiledFilter) (kind : FlagKind) :
    List PlannedAction :=
  ((tracksForTarget file target).filter fun track =>
    filterMatches env file ctx filter track && !kind.isSet track).map (flagAction target kind)

def setLanguageAction (target : TrackTarget) (lang : String) (track : Track) : PlannedAction :=
  .trackOp .setLanguage track.index (.language lang)
    s!"Set language on {targetStr target} track {track.index} to '{lang}'"

def languageActions (target : TrackTarget) (filter : Option CompiledFilter) (lang : String) :
    List PlannedAction :=
  ((tracksForTarget file target).filter fun track =>
    filterMatches env file ctx filter track && track.language ≠ lang).map
      (setLanguageAction target lang)

def setTagAction (tag val : String) : PlannedAction :=
  .fileOp .setContainerTag (.setTag tag val) s!"Set container tag '{tag}' = '{val}'"

/-- What an action of a conditional pushes. -/
def actionPlans : CompiledAction → List PlannedAction
  | .keep target filter => (keepRequest env file ctx target filter).granted file
  | .remove target filter => (removeRequest env file ctx target filter).granted file
  | .setDefault target filter => flagActions env file ctx target filter .default
  | .setForced target filter => flagActions env file ctx target filter .forced
  | .setLanguage target filter value =>
    (resolveValueOrField env file ctx value).toList.flatMap (languageActions env file ctx target filter)
  | .setTag tag value => (resolveValueOrField env file ctx value).toList.map (setTagAction tag)
  | .skip _ | .warn _ | .fail _ => []

def isSkip : CompiledAction → Bool
  | .skip _ => true
  | _ => false

/-- The actions that are got to: all of them, or up to the first that fails. -/
def reached : List CompiledAction → List CompiledAction
  | [] => []
  | action :: rest => action :: if actionFails env file ctx action then [] else reached rest

/-! ## Operations -/

/-- A transcode that insists on a backend the system does not have. -/
def lacksBackend : CompiledOperation → Bool
  | .transcode .video _ settings | .transcode .audio _ settings => (missingHw ctx settings).isSome
  | _ => false

/-- What an operation pushes beside the actions it stands for. -/
def ownPlans : CompiledOperation → List PlannedAction
  | .setContainer target =>
    if file.container ≠ target then
      [.fileOp .convertContainer (.container target)
        s!"Convert container from {file.container.asStr} to {target.asStr}"]
    else []
  | .reorderTracks order =>
    [.fileOp .reorderTracks (.reorderTracks order) ("Reorder tracks: " ++ ", ".intercalate order)]
  | .setDefaults defaults => defaults.flatMap (defaultActions file)
  | .clearActions target settings =>
    (tracksForTarget file target).flatMap fun track =>
      (if settings.clearAllDefault && track.isDefault then [clearDefaultAction target track ""]
        else []) ++
      (if settings.clearAllForced && track.isForced then [clearForcedAction target track]
        else []) ++
      (if settings.clearAllTitles && track.title ≠ "" then [clearTitleAction target track]
        else [])
  | .transcode .video codec settings =>
    if (missingHw ctx settings).isSome then []
    else transcodeActions file .transcodeVideo .video codec settings fun _ => Eq.refl true
  | .transcode .audio codec settings =>
    if (missingHw ctx settings).isSome then []
    else transcodeActions file .transcodeAudio .audio codec settings fun _ => Eq.refl true
  | .normalizeAudio .audio filter settings =>
    (normalizeTracks env file ctx filter settings).map fun track =>
      .trackOp .transcodeAudio track.index
        (.transcode track.codec { loudness := some settings })
        s!"Normalize audio track {track.index} to {env.formatTenths settings.targetLufs} LUFS"
  | .synthesize synth =>
    if wantsSynthesis env file ctx synth then [synthesizeAction env file ctx synth] else []
  | .clearTags =>
    if file.tags.isEmpty then []
    else
      let keys := (file.tags.map (·.1)).mergeSort (fun a b => decide (a ≤ b))
      [.fileOp .clearContainerTags (.clearTags keys)
        ("Clear all container tags (" ++ ", ".intercalate keys ++ ")")]
  | .deleteTag tag =>
    if (file.tags.lookup tag).isSome then
      [.fileOp .deleteContainerTag (.deleteTag tag) s!"Delete container tag '{tag}'"]
    else []
  | .verify mode =>
    [.fileOp .verifyMedia (.verifyMedia mode) s!"Verify media integrity ({mode.asStr})"]
  | _ => []

/-- All that an operation pushes. -/
def operationPlans (op : CompiledOperation) : List PlannedAction :=
  (reached env file ctx (operationActions env file ctx op)).flatMap (actionPlans env file ctx) ++
    ownPlans env file ctx op

/-- The operation gets to a skip, or lacks its backend. -/
def operationSkips (op : CompiledOperation) : Bool :=
  lacksBackend ctx op || (reached env file ctx (operationActions env file ctx op)).any isSkip

/-! ## Phases -/

/-- The operations since the last one that dropped what was planned before it. -/
def sinceDrop : List CompiledOperation → List CompiledOperation
  | [] => []
  | op :: rest => if rest.any (lacksBackend ctx) then sinceDrop rest else op :: rest

/-- The actions that operations leave in a plan. -/
def leftPlans (ops : List CompiledOperation) : List PlannedAction :=
  (sinceDrop ctx ops).flatMap (operationPlans env file ctx)

/-- The phase is skipped by what its operations do. -/
def phaseSkips (phase : CompiledPhase) : Bool :=
  (performed env file ctx phase.onError phase.operations).any (operationSkips env file ctx) ||
    (decide (phase.onError = .skip) && phase.operations.any (operationFails env file ctx))

end

/-! ## Kinds -/

/-- The kinds of actions that an action of a conditional pushes. -/
def actionKinds : CompiledAction → List OperationType
  | .keep _ _ | .remove _ _ => [.removeTrack]
  | .setDefault _ _ => [.setDefault]
  | .setForced _ _ => [.setForced]
  | .setLanguage _ _ _ => [.setLanguage]
  | .setTag _ _ => [.setContainerTag]
  | .skip _ | .warn _ | .fail _ => []

/-- The kinds of actions that an operation pushes beside those it stands for. -/
def ownKinds : CompiledOperation → List OperationType
  | .setContainer _ => [.convertContainer]
  | .reorderTracks _ => [.reorderTracks]
  | .setDefaults _ => [.setDefault, .clearDefault]
  | .clearActions _ _ => [.clearDefault, .clearForced, .setTitle]
  | .transcode .video _ _ => [.transcodeVideo]
  | .transcode _ _ _ | .normalizeAudio _ _ _ => [.transcodeAudio]
  | .synthesize _ => [.synthesizeAudio]
  | .clearTags => [.clearContainerTags]
  | .deleteTag _ => [.deleteContainerTag]
  | .verify _ => [.verifyMedia]
  | .keep _ _ | .remove _ _ | .setTag _ _ | .conditional _ | .rules _ _ => []

section

variable {env : EvalEnv} {file : MediaFile} {ctx : EvalContext} {a : PlannedAction}

theorem operation_of_mem_granted {r : RemovalRequest} (h : a ∈ r.granted file) :
    a.operation = .removeTrack := by
  unfold RemovalRequest.granted at h
  split at h
  · cases h
  · exact RemovalRequest.removals_operation h

theorem operation_of_mem_actionPlans {action : CompiledAction}
    (h : a ∈ actionPlans env file ctx action) : a.operation ∈ actionKinds action := by
  cases action with
  | keep target filter => simp [actionKinds, operation_of_mem_granted h]
  | remove target filter => simp [actionKinds, operation_of_mem_granted h]
  | setDefault target filter =>
    obtain ⟨t, -, rfl⟩ := List.mem_map.mp h
    exact List.mem_singleton_self _
  | setForced target filter =>
    obtain ⟨t, -, rfl⟩ := List.mem_map.mp h
    exact List.mem_singleton_self _
  | setLanguage target filter value =>
    obtain ⟨lang, -, h⟩ := List.mem_flatMap.mp h
    obtain ⟨t, -, rfl⟩ := List.mem_map.mp h
    exact List.mem_singleton_self _
  | setTag tag value =>
    obtain ⟨val, -, rfl⟩ := List.mem_map.mp h
    exact List.mem_singleton_self _
  | skip phase => cases h
  | warn message => cases h
  | fail message => cases h

theorem operation_of_mem_ownPlans {op : CompiledOperation} (h : a ∈ ownPlans env file ctx op) :
    a.operation ∈ ownKinds op := by
  have hone {b : PlannedAction} {test : Prop} [Decidable test]
      (h : a ∈ if test then [b] else []) : a = b := by
    split at h
    · exact List.mem_singleton.mp h
    · cases h
  cases op with
  | setContainer target =>
    rw [hone h]
    exact List.mem_singleton_self _
  | reorderTracks order =>
    rw [List.mem_singleton.mp h]
    exact List.mem_singleton_self _
  | setDefaults defaults =>
    obtain ⟨default, -, h⟩ := List.mem_flatMap.mp h
    exact operation_defaultActions file default a h
  | clearActions target settings =>
    obtain ⟨t, -, h⟩ := List.mem_flatMap.mp h
    simp only [List.mem_append] at h
    rcases h with (h | h) | h <;> rw [hone h] <;> simp [ownKinds]
  | transcode target codec settings =>
    cases target with
    | video =>
      simp only [ownPlans] at h
      split at h
      · cases h
      · obtain ⟨t, -, rfl⟩ := List.mem_map.mp h
        exact List.mem_singleton_self _
    | audio =>
      simp only [ownPlans] at h
      split at h
      · cases h
      · obtain ⟨t, -, rfl⟩ := List.mem_map.mp h
        exact List.mem_singleton_self _
    | _ => cases h
  | normalizeAudio target filter settings =>
    cases target with
    | audio =>
      obtain ⟨t, -, rfl⟩ := List.mem_map.mp h
      exact List.mem_singleton_self _
    | _ => cases h
  | synthesize synth =>
    rw [hone h]
    exact List.mem_singleton_self _
  | clearTags =>
    simp only [ownPlans] at h
    split at h
    · cases h
    · rw [List.mem_singleton.mp h]
      exact List.mem_singleton_self _
  | deleteTag tag =>
    rw [hone h]
    exact List.mem_singleton_self _
  | verify mode =>
    rw [List.mem_singleton.mp h]
    exact List.mem_singleton_self _
  | keep target filter => cases h
  | remove target filter => cases h
  | setTag tag value => cases h
  | conditional cond => cases h
  | rules mode rules => cases h

end

/-- From one plan to the next actions were pushed, after the ones before were dropped or not,
and the phase was skipped or not. -/
structure Emits (plan plan' : Plan) (drops : Bool) (planned : List PlannedAction) (skips : Bool) :
    Prop where
  actions : plan'.actions = (if drops then [] else plan.actions) ++ planned
  isSkipped : plan'.isSkipped = (plan.isSkipped || skips)

namespace Emits

variable {plan plan' plan'' : Plan} {drops drops' skips skips' : Bool}
  {planned planned' : List PlannedAction}

theorem refl (plan : Plan) : Emits plan plan false [] false :=
  ⟨by simp, by simp⟩

theorem extend (plan : Plan) (planned : List PlannedAction) :
    Emits plan (plan.extend planned) false planned false :=
  ⟨rfl, by simp [Plan.extend, Plan.isSkipped]⟩

theorem warn (plan : Plan) (message : String) : Emits plan (plan.warn message) false [] false :=
  ⟨by simp [Plan.warn], by simp [Plan.warn, Plan.isSkipped]⟩

theorem skip (plan : Plan) (reason : String) :
    Emits plan { plan with skipReason := some reason } false [] true :=
  ⟨by simp, by simp [Plan.isSkipped]⟩

theorem trans (h : Emits plan plan' drops planned skips)
    (h' : Emits plan' plan'' drops' planned' skips') :
    Emits plan plan'' (drops || drops') ((if drops' then [] else planned) ++ planned')
      (skips || skips') where
  actions := by
    rw [h'.actions, h.actions]
    cases drops' <;> simp
  isSkipped := by rw [h'.isSkipped, h.isSkipped, Bool.or_assoc]

end Emits

section

variable (env : EvalEnv) (file : MediaFile) (ctx : EvalContext)

theorem emitRemovals_emits (r : RemovalRequest) (plan : Plan) :
    Emits plan (emitRemovals file r plan) false (r.granted file) false := by
  simp only [emitRemovals, RemovalRequest.granted]
  cases hempty : (tracksForTarget file r.target).isEmpty with
  | true =>
    have htracks : tracksForTarget file r.target = [] := List.isEmpty_iff.mp hempty
    have hgranted : (if r.empties file then [] else r.removals file) = [] := by
      simp [RemovalRequest.removals, htracks]
    rw [hgranted]
    exact Emits.refl plan
  | false =>
    have hiff := RemovalRequest.empties_iff file r hempty
    simp only [Bool.false_eq_true, if_false]
    split
    · rename_i hguard
      rw [if_pos (hiff.mpr hguard)]
      exact ⟨by simp [recordSafeguard, Plan.warn, Plan.extend],
        by simp [recordSafeguard, Plan.warn, Plan.extend, Plan.isSkipped]⟩
    · rename_i hguard
      rw [if_neg (mt hiff.mp hguard)]
      exact Emits.extend plan _

theorem emitAction_emits (action : CompiledAction) (plan : Plan) :
    Emits plan (emitAction env file ctx action plan).1 false (actionPlans env file ctx action)
      (isSkip action) := by
  cases action with
  | keep target filter => exact emitRemovals_emits file (keepRequest env file ctx target filter) plan
  | remove target filter =>
    exact emitRemovals_emits file (removeRequest env file ctx target filter) plan
  | skip phase => cases phase <;> exact Emits.skip plan _
  | warn message => exact Emits.warn plan _
  | fail message => exact Emits.refl plan
  | setDefault target filter => exact Emits.extend plan _
  | setForced target filter => exact Emits.extend plan _
  | setLanguage target filter value =>
    simp only [emitAction, emitSetLanguage, actionPlans, isSkip]
    cases resolveValueOrField env file ctx value with
    | none => exact Emits.refl plan
    | some lang =>
      rw [Option.toList_some, List.flatMap_singleton]
      exact Emits.extend plan _
  | setTag tag value =>
    simp only [emitAction, emitSetTag, actionPlans, isSkip]
    cases resolveValueOrField env file ctx value with
    | none => exact Emits.refl plan
    | some val => exact Emits.extend plan _

theorem emitActions_emits (actions : List CompiledAction) (plan : Plan) :
    Emits plan (emitActions env file ctx actions plan).1 false
      ((reached env file ctx actions).flatMap (actionPlans env file ctx))
      ((reached env file ctx actions).any isSkip) := by
  induction actions generalizing plan with
  | nil => exact Emits.refl plan
  | cons action rest ih =>
    have hfirst := emitAction_emits env file ctx action plan
    rw [emitActions_cons, reached]
    split
    · simpa using hfirst
    · exact hfirst.trans (ih _)

theorem emitOperation_emits (op : CompiledOperation) (plan : Plan) :
    Emits plan (emitOperation env file ctx op plan).1 (lacksBackend ctx op)
      (operationPlans env file ctx op) (operationSkips env file ctx op) := by
  have hactions (actions : List CompiledAction) := emitActions_emits env file ctx actions plan
  unfold operationPlans operationSkips
  cases op with
  | setContainer target =>
    simp only [emitOperation, emitSetContainer, ownPlans, operationActions, lacksBackend, reached]
    split
    · exact Emits.extend plan _
    · exact Emits.refl plan
  | keep target filter =>
    simpa [emitOperation, operationActions, ownPlans, lacksBackend, emitActions, emitAction] using
      hactions [.keep target filter]
  | remove target filter =>
    simpa [emitOperation, operationActions, ownPlans, lacksBackend, emitActions, emitAction] using
      hactions [.remove target filter]
  | reorderTracks order => exact Emits.extend plan _
  | setDefaults defaults => exact Emits.extend plan _
  | clearActions target settings => exact Emits.extend plan _
  | transcode target codec settings =>
    cases target with
    | video =>
      simp only [emitOperation, emitTranscode, ownPlans, operationActions, lacksBackend, reached]
      cases missingHw ctx settings with
      | none => exact Emits.extend plan _
      | some hw => exact ⟨by simp, by simp [Plan.isSkipped]⟩
    | audio =>
      simp only [emitOperation, emitTranscode, ownPlans, operationActions, lacksBackend, reached]
      cases missingHw ctx settings with
      | none => exact Emits.extend plan _
      | some hw => exact ⟨by simp, by simp [Plan.isSkipped]⟩
    | subtitle => exact Emits.refl plan
    | attachment => exact Emits.refl plan
    | any => exact Emits.refl plan
  | normalizeAudio target filter settings =>
    have hkeep : Emits plan (emitKeep env file ctx target filter plan) false
        ((reached env file ctx [.keep target filter]).flatMap (actionPlans env file ctx))
        ((reached env file ctx [.keep target filter]).any isSkip) := by
      simpa [emitActions, emitAction] using hactions [.keep target filter]
    simp only [emitOperation, operationActions, lacksBackend, Bool.false_or]
    cases target with
    | audio =>
      have hown := Emits.extend (emitKeep env file ctx .audio filter plan)
        (ownPlans env file ctx (.normalizeAudio .audio filter settings))
      have hboth := hkeep.trans hown
      simp only [Bool.or_false, Bool.false_eq_true, if_false] at hboth
      exact hboth
    | _ => simpa [ownPlans, emitNormalizeAudio] using hkeep
  | synthesize synth =>
    simp only [emitOperation, emitSynthesize, ownPlans, operationActions, lacksBackend, reached]
    split
    · exact Emits.extend plan _
    · exact Emits.refl plan
  | clearTags =>
    simp only [emitOperation, emitClearTags, ownPlans, operationActions, lacksBackend, reached]
    split
    · exact Emits.refl plan
    · exact Emits.extend plan _
  | setTag tag value =>
    have htag := emitAction_emits env file ctx (.setTag tag value) plan
    simp only [operationActions, ownPlans, lacksBackend, reached, Bool.false_or, List.append_nil]
    split
    all_goals simpa [emitAction, emitOperation] using htag
  | deleteTag tag =>
    simp only [emitOperation, emitDeleteTag, ownPlans, operationActions, lacksBackend, reached]
    split
    · exact Emits.extend plan _
    · exact Emits.refl plan
  | conditional cond =>
    simpa [emitOperation, emitConditional, operationActions, ownPlans, lacksBackend] using
      hactions (branch env file ctx cond)
  | rules mode rules =>
    simp only [emitOperation, emitRules_eq]
    simpa [operationActions, ownPlans, lacksBackend] using
      hactions (rulesActions env file ctx mode rules)
  | verify mode => exact Emits.extend plan _

theorem sinceDrop_of_none {ops : List CompiledOperation} (h : ops.any (lacksBackend ctx) = false) :
    sinceDrop ctx ops = ops := by
  cases ops with
  | nil => rfl
  | cons op rest =>
    simp only [List.any_cons, Bool.or_eq_false_iff] at h
    simp [sinceDrop, h.2]

theorem leftPlans_cons (op : CompiledOperation) (rest : List CompiledOperation) :
    leftPlans env file ctx (op :: rest) =
      (if rest.any (lacksBackend ctx) then [] else operationPlans env file ctx op) ++
        leftPlans env file ctx rest := by
  unfold leftPlans
  rw [sinceDrop]
  cases h : rest.any (lacksBackend ctx) with
  | true => simp
  | false => simp [sinceDrop_of_none ctx h]

theorem emitOperations_emits (onError : ErrorStrategy) (ops : List CompiledOperation)
    (plan : Plan) :
    Emits plan (emitOperations env file ctx onError ops plan)
      ((performed env file ctx onError ops).any (lacksBackend ctx))
      (leftPlans env file ctx (performed env file ctx onError ops))
      ((performed env file ctx onError ops).any (operationSkips env file ctx) ||
        (decide (onError = .skip) && ops.any (operationFails env file ctx))) := by
  induction ops generalizing plan with
  | nil => simpa [emitOperations, performed, leftPlans, sinceDrop] using Emits.refl plan
  | cons op rest ih =>
    have hop := emitOperation_emits env file ctx op plan
    have herror := emitOperation_error env file ctx op plan
    rw [emitOperations, performed, leftPlans_cons]
    split
    · -- the operation succeeds and the loop goes on
      rename_i plan' h
      simp only [h, Option.isSome_none] at hop herror
      have hboth := hop.trans (ih plan')
      simpa [← herror, Bool.or_assoc] using hboth
    · rename_i plan' error h
      simp only [h, Option.isSome_some] at hop herror
      cases onError with
      | abort => simpa [← herror, leftPlans, sinceDrop] using hop.trans (Emits.warn plan' _)
      | quarantine => simpa [← herror, leftPlans, sinceDrop] using hop.trans (Emits.warn plan' _)
      | skip => simpa [← herror, leftPlans, sinceDrop] using hop.trans (Emits.skip plan' _)
      | «continue» =>
        have hwarn := Emits.warn plan' s!"Error (continuing): {error.toText}"
        have hrest := ih (plan'.warn s!"Error (continuing): {error.toText}")
        simpa [← herror, Bool.or_assoc] using (hop.trans hwarn).trans hrest

theorem sinceDrop_suffix (ops : List CompiledOperation) : sinceDrop ctx ops <:+ ops := by
  induction ops with
  | nil => exact List.suffix_rfl
  | cons op rest ih =>
    rw [sinceDrop]
    split
    · exact ih.trans (List.suffix_cons op rest)
    · exact List.suffix_rfl

theorem leftPlans_sublist (ops : List CompiledOperation) :
    (leftPlans env file ctx ops).Sublist (ops.flatMap (operationPlans env file ctx)) := by
  obtain ⟨dropped, heq⟩ := sinceDrop_suffix ctx ops
  rw [← congrArg (List.flatMap (operationPlans env file ctx)) heq, List.flatMap_append]
  exact List.sublist_append_right _ _

theorem performed_first (onError : ErrorStrategy) (ops : List CompiledOperation) :
    performed env file ctx onError ops <+: ops := by
  induction ops with
  | nil => exact List.prefix_rfl
  | cons op rest ih =>
    rw [performed, List.prefix_cons_inj]
    split
    · exact List.nil_prefix
    · exact ih

/-- The plan of a phase as its operations leave it to the safeguards. -/
def draftPlan (policy : CompiledPolicy) (id : Uuid) (phase : CompiledPhase) : Plan :=
  emitOperations env file ctx phase.onError phase.operations (newPlan file policy id phase)

/-- The actions that the operations of a phase leave in its plan. -/
def draftActions (phase : CompiledPhase) : List PlannedAction :=
  leftPlans env file ctx (performed env file ctx phase.onError phase.operations)

theorem draftPlan_actions (policy : CompiledPolicy) (id : Uuid) (phase : CompiledPhase) :
    (draftPlan env file ctx policy id phase).actions = draftActions env file ctx phase := by
  have h := (emitOperations_emits env file ctx phase.onError phase.operations
    (newPlan file policy id phase)).actions
  rw [draftPlan, h]
  simp [newPlan, draftActions]

theorem draftPlan_isSkipped (policy : CompiledPolicy) (id : Uuid) (phase : CompiledPhase) :
    (draftPlan env file ctx policy id phase).isSkipped = phaseSkips env file ctx phase := by
  have h := (emitOperations_emits env file ctx phase.onError phase.operations
    (newPlan file policy id phase)).isSkipped
  rw [draftPlan, h]
  simp [newPlan, Plan.isSkipped, phaseSkips]

theorem evaluatePhase_of_run {policy : CompiledPolicy} {id : Uuid}
    {outcomes : List (String × EvaluationOutcome)} {phase : CompiledPhase}
    (h : checkSkipConditions env file ctx phase outcomes = none) :
    evaluatePhase env file ctx policy id outcomes phase =
      applySafeguards file (draftPlan env file ctx policy id phase) := by
  simp only [evaluatePhase, h, draftPlan]

end

/-! ## What the safeguards take back -/

/-- From one plan to the next some removals and conversions were taken back, and nothing else. -/
def TakesBack (plan plan' : Plan) : Prop :=
  ∃ keep : PlannedAction → Bool, plan'.actions = plan.actions.filter keep ∧
    ∀ a, keep a = false → a.operation ∈ [OperationType.removeTrack, .convertContainer]

namespace TakesBack

theorem refl (plan : Plan) : TakesBack plan plan :=
  ⟨fun _ => true, by simp, by simp⟩

theorem trans {p q r : Plan} (h : TakesBack p q) (h' : TakesBack q r) : TakesBack p r := by
  obtain ⟨keep, heq, hkeep⟩ := h
  obtain ⟨keep', heq', hkeep'⟩ := h'
  refine ⟨fun a => keep' a && keep a, ?_, ?_⟩
  · rw [heq', heq, List.filter_filter]
  · intro a ha
    rcases Bool.and_eq_false_iff.mp ha with h | h
    · exact hkeep' a h
    · exact hkeep a h

theorem sublist {p q : Plan} (h : TakesBack p q) : q.actions.Sublist p.actions := by
  obtain ⟨keep, heq, -⟩ := h
  rw [heq]
  exact List.filter_sublist

end TakesBack

section

variable (file : MediaFile)

theorem applySafeguardForTrackType_takesBack (removed : List Nat) (typeCheck : TrackType → Bool)
    (kind : SafeguardKind) (label : String) (plan : Plan) :
    TakesBack plan (applySafeguardForTrackType file removed typeCheck kind label plan) := by
  simp only [applySafeguardForTrackType]
  split
  · exact TakesBack.refl plan
  · refine ⟨fun a => !removesType file typeCheck a, rfl, ?_⟩
    intro a ha
    simp only [removesType, Bool.not_eq_false', Bool.and_eq_true, decide_eq_true_eq] at ha
    simp [ha.1]

theorem applyContainerSafeguard_takesBack (plan : Plan) :
    TakesBack plan (applyContainerSafeguard file plan) := by
  unfold applyContainerSafeguard
  split
  · exact TakesBack.refl plan
  · dsimp only
    split
    · exact TakesBack.refl plan
    · refine ⟨fun a => decide (a.operation ≠ .convertContainer), rfl, ?_⟩
      intro a ha
      simp only [ne_eq, decide_eq_false_iff_not, not_not] at ha
      simp [ha]

theorem applySafeguards_takesBack (plan : Plan) : TakesBack plan (applySafeguards file plan) := by
  simp only [applySafeguards]
  split
  · exact TakesBack.refl plan
  · refine TakesBack.trans ?_ (applyContainerSafeguard_takesBack file _)
    split
    · exact TakesBack.refl plan
    · exact (applySafeguardForTrackType_takesBack file _ _ _ _ _).trans
        (applySafeguardForTrackType_takesBack file _ _ _ _ _)

end

/-- Each action of a plan was pushed by an operation of its phase. -/
theorem operation_of_planned {env : EvalEnv} {file : MediaFile} {ctx : EvalContext}
    {policy : CompiledPolicy} {id : Uuid} {outcomes : List (String × EvaluationOutcome)}
    {phase : CompiledPhase} {a : PlannedAction}
    (h : a ∈ (evaluatePhase env file ctx policy id outcomes phase).actions) :
    ∃ op ∈ phase.operations, a ∈ operationPlans env file ctx op := by
  cases hcheck : checkSkipConditions env file ctx phase outcomes with
  | some reason => simp [evaluatePhase, hcheck, newPlan] at h
  | none =>
    rw [evaluatePhase_of_run env file ctx hcheck] at h
    have hdraft := (applySafeguards_takesBack file _).sublist.subset h
    rw [draftPlan_actions] at hdraft
    obtain ⟨op, hop, ha⟩ := List.mem_flatMap.mp ((leftPlans_sublist env file ctx _).subset hdraft)
    exact ⟨op, (performed_first env file ctx _ _).subset hop, ha⟩

/-! ## Skipped plans -/

section

variable (env : EvalEnv) (file : MediaFile)

/-- `evaluate_single_phase_with_phase_outputs`; without outputs it is `evaluate_single_phase`. -/
def evaluateSinglePhase (id : Uuid) (phaseName : String) (policy : CompiledPolicy)
    (outcomes : List (String × EvaluationOutcome)) (ctx : EvalContext) : Option Plan :=
  (policy.phases.find? (·.name = phaseName)).map
    (evaluatePhase env file ctx policy id outcomes)

variable (ctx : EvalContext)

/-- The phases that an evaluation goes through, each with the outcomes before it. -/
def visits (policy : CompiledPolicy) (newId : Nat → Uuid) :
    List String → List (String × EvaluationOutcome) →
      List (CompiledPhase × List (String × EvaluationOutcome))
  | [], _ => []
  | name :: rest, outcomes =>
    match policy.phases.find? (·.name = name) with
    | none => visits policy newId rest outcomes
    | some phase =>
      let plan := evaluatePhase env file ctx policy (newId outcomes.length) outcomes phase
      (phase, outcomes) :: visits policy newId rest ((name, planOutcome plan) :: outcomes)

theorem evaluatePhases_eq_visits (policy : CompiledPolicy) (newId : Nat → Uuid)
    (names : List String) (outcomes : List (String × EvaluationOutcome)) :
    evaluatePhases env file ctx policy newId names outcomes =
      (visits env file ctx policy newId names outcomes).map fun visit =>
        evaluatePhase env file ctx policy (newId visit.2.length) visit.2 visit.1 := by
  induction names generalizing outcomes with
  | nil => rfl
  | cons name rest ih =>
    rw [evaluatePhases, visits]
    cases policy.phases.find? (·.name = name) with
    | none => exact ih outcomes
    | some phase => simp only [List.map_cons, ih]

/-- A skipped plan has no actions. -/
def NoActionsIfSkipped (plan : Plan) : Prop := plan.isSkipped = true → plan.actions = []

/-- The phase is skipped before its operations, or not by them, or those of its operations that
count have nothing to do on the file. -/
def SkipsEmpty (outcomes : List (String × EvaluationOutcome)) (phase : CompiledPhase) : Prop :=
  (checkSkipConditions env file ctx phase outcomes).isSome = true ∨
    (phaseSkips env file ctx phase = true →
      ∀ op ∈ sinceDrop ctx (performed env file ctx phase.onError phase.operations),
        operationPlans env file ctx op = [])

theorem evaluatePhase_noActionsIfSkipped_iff (policy : CompiledPolicy) (id : Uuid)
    (outcomes : List (String × EvaluationOutcome)) (phase : CompiledPhase) :
    NoActionsIfSkipped (evaluatePhase env file ctx policy id outcomes phase) ↔
      SkipsEmpty env file ctx outcomes phase := by
  unfold SkipsEmpty NoActionsIfSkipped
  cases hcheck : checkSkipConditions env file ctx phase outcomes with
  | some reason => simp [evaluatePhase, hcheck, newPlan]
  | none =>
    rw [evaluatePhase_of_run env file ctx hcheck]
    have hskipped := draftPlan_isSkipped env file ctx policy id phase
    have hactions := draftPlan_actions env file ctx policy id phase
    cases hskips : phaseSkips env file ctx phase with
    | true =>
      -- a skipped plan passes the safeguards as it is
      rw [hskips] at hskipped
      simp [applySafeguards, hskipped, hactions, draftActions, leftPlans, List.flatMap_eq_nil_iff]
    | false =>
      have hnone : (draftPlan env file ctx policy id phase).skipReason = none := by
        simpa [Plan.isSkipped, hskips] using hskipped
      obtain ⟨seen, -, hseen, -, heq⟩ := applySafeguards_eq file _ hnone
      simp [heq, Plan.isSkipped, hseen]

/-- Skipped plans carry no actions exactly when no phase that its own operations skip has an
operation with something to do. -/
theorem skipped_plans_have_no_actions_iff (newId : Nat → Uuid) (policy : CompiledPolicy)
    (capabilities : Option CapabilityMap)
    (phaseOutputLookup : Option (String → Option PhaseOutput)) :
    ((∀ plan ∈ evaluateWithPhaseOutputs env newId policy file capabilities phaseOutputLookup,
        NoActionsIfSkipped plan) ↔
      ∀ visit ∈ visits env file ⟨capabilities, phaseOutputLookup⟩ policy newId policy.phaseOrder [],
        SkipsEmpty env file ⟨capabilities, phaseOutputLookup⟩ visit.2 visit.1) ∧
    ∀ id name outcomes,
      (∀ plan ∈ evaluateSinglePhase env file id name policy outcomes
          ⟨capabilities, phaseOutputLookup⟩, NoActionsIfSkipped plan) ↔
        ∀ phase ∈ policy.phases.find? (·.name = name),
          SkipsEmpty env file ⟨capabilities, phaseOutputLookup⟩ outcomes phase := by
  constructor
  · rw [evaluateWithPhaseOutputs, evaluatePhases_eq_visits]
    simp only [List.forall_mem_map, evaluatePhase_noActionsIfSkipped_iff]
  · intro id name outcomes
    unfold evaluateSinglePhase
    cases policy.phases.find? (·.name = name) with
    | none => simp
    | some phase => simpa using evaluatePhase_noActionsIfSkipped_iff env file _ policy id outcomes phase

end

/-- A conversion, and then a skip. -/
def skipAfterConversion : CompiledPhase :=
  { name := "convert"
    operations :=
      [.setContainer .mkv, .conditional ⟨.exists .audio none, [.skip none], []⟩] }

theorem skipAfterConversion_keeps_action :
    ¬∀ plan ∈ evaluateWithPhaseOutputs plainEnv id (onePhase skipAfterConversion) film none none,
      NoActionsIfSkipped plan := by
  intro h
  have hplan := h _ (mem_onePhasePlan skipAfterConversion) (by decide)
  revert hplan
  decide

end Voom.Evaluator
