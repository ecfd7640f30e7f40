-- SUMMARY: The plan of a phase that runs: what it removes, which edits it makes, and the file it leaves.
import Mathlib.Data.List.Nodup
import Voom.Evaluator.Wishes

/-!
# Applied plans

The safeguards take back removals and conversions and nothing else, so the edits of a plan are
those its operations planned. Which tracks a plan removes can be told from the requests of its
phase: those a request asks for, unless all tracks of their type are asked for.
-/

namespace Voom.Evaluator

open Dsl

section

variable {env : EvalEnv} {file : MediaFile} {ctx : EvalContext} {phase : CompiledPhase}

/-! ## What the operations leave -/

theorem operationSkips_of_lacksBackend {op : CompiledOperation} (h : lacksBackend ctx op = true) :
    operationSkips env file ctx op = true := by
  simp [operationSkips, h]

/-- A phase that is not skipped has all its operations in its plan. -/
theorem draftActions_eq (hskip : phaseSkips env file ctx phase = false) :
    draftActions env file ctx phase =
      (performed env file ctx phase.onError phase.operations).flatMap
        (operationPlans env file ctx) := by
  simp only [phaseSkips, Bool.or_eq_false_iff, List.any_eq_false] at hskip
  have hnone : (performed env file ctx phase.onError phase.operations).any (lacksBackend ctx) =
      false := by
    rw [List.any_eq_false]
    intro op hop hlacks
    exact hskip.1 op hop (operationSkips_of_lacksBackend hlacks)
  rw [draftActions, leftPlans, sinceDrop_of_none ctx hnone]

/-- What is taken back edits nothing. -/
theorem editAll_applySafeguards (plan : Plan) :
    PlannedAction.editAll (applySafeguards file plan).actions =
      PlannedAction.editAll plan.actions := by
  obtain ⟨keep, heq, hkeep⟩ := applySafeguards_takesBack file plan
  funext t
  rw [heq]
  apply PlannedAction.editAll_filter
  intro a _ hdropped
  apply trackEdit_eq_none
  have hkind := hkeep a hdropped
  simp only [List.mem_cons, List.not_mem_nil, or_false] at hkind
  rcases hkind with hkind | hkind <;> simp [hkind]

/-- An action on a track that does not remove it. -/
def ActsOn (a : PlannedAction) (i : Nat) : Prop :=
  a.operation ≠ .removeTrack ∧ a.trackIndex = some i

theorem conversion_trackIndex {op : CompiledOperation} {a : PlannedAction}
    (h : a ∈ operationPlans env file ctx op) (hconvert : a.operation = .convertContainer) :
    a.trackIndex = none := by
  rcases List.mem_append.mp h with h | h
  · obtain ⟨action, -, h⟩ := List.mem_flatMap.mp h
    have hkind := operation_of_mem_actionPlans h
    rw [hconvert] at hkind
    cases action <;> simp [actionKinds] at hkind
  · have hkind := operation_of_mem_ownPlans h
    rw [hconvert] at hkind
    cases op with
    | setContainer target =>
      simp only [ownPlans] at h
      split at h
      · rw [List.mem_singleton.mp h]
        rfl
      · cases h
    | transcode target codec settings => cases target <;> simp [ownKinds] at hkind
    | _ => simp [ownKinds] at hkind

/-- The plan of a phase that runs and is not skipped by its operations. -/
structure Runs (env : EvalEnv) (file : MediaFile) (ctx : EvalContext) (phase : CompiledPhase)
    (plan : Plan) : Prop where
  notSkipped : phaseSkips env file ctx phase = false
  isPlan : ∃ policy id, plan = applySafeguards file (draftPlan env file ctx policy id phase)

theorem runs_of_not_skipped {policy : CompiledPolicy} {id : Uuid}
    {outcomes : List (String × EvaluationOutcome)}
    (h : (evaluatePhase env file ctx policy id outcomes phase).isSkipped = false) :
    Runs env file ctx phase (evaluatePhase env file ctx policy id outcomes phase) := by
  cases hcheck : checkSkipConditions env file ctx phase outcomes with
  | some reason => simp [evaluatePhase, hcheck, Plan.isSkipped] at h
  | none =>
    rw [evaluatePhase_of_run env file ctx hcheck] at h ⊢
    refine ⟨?_, policy, id, rfl⟩
    rw [← draftPlan_isSkipped env file ctx policy id phase]
    cases hdraft : (draftPlan env file ctx policy id phase).isSkipped with
    | false => rfl
    | true =>
      rw [applySafeguards, if_pos hdraft, hdraft] at h
      cases h

/-- Where a plan that is not skipped comes from. -/
theorem runs_of_mem {newId : Nat → Uuid} {policy : CompiledPolicy}
    {capabilities : Option CapabilityMap}
    {phaseOutputLookup : Option (String → Option PhaseOutput)} {plan : Plan}
    (hplan : plan ∈ evaluateWithPhaseOutputs env newId policy file capabilities phaseOutputLookup)
    (hrun : plan.isSkipped = false) :
    ∃ phase, policy.phases.find? (·.name = plan.phaseName) = some phase ∧
      Runs env file ⟨capabilities, phaseOutputLookup⟩ phase plan := by
  obtain ⟨name, id, outcomes, phase, hphase, rfl⟩ := mem_evaluatePhases hplan
  obtain ⟨seen, hseen, -, -, heq⟩ := evaluatePhase_guarded hrun
  have hname : (evaluatePhase env file ⟨capabilities, phaseOutputLookup⟩ policy id outcomes
      phase).phaseName = phase.name := by
    rw [heq, applyContainerSafeguard_phaseName, hseen]
  have hfound := List.find?_some hphase
  rw [hname, of_decide_eq_true hfound]
  exact ⟨phase, hphase, runs_of_not_skipped hrun⟩

variable (env file ctx phase) in
/-- A safeguard takes the action back: it is one of those that remove all tracks of a type, or a
conversion while the first container asked for cannot hold what the phase leaves. -/
def Retracted (a : PlannedAction) : Prop :=
  RetractedRemoval file (removedBy (phaseEffect env file ctx phase).removals) a ∨
    a.operation = .convertContainer ∧ ∃ first ∈ (containersAsked env file ctx phase).head?,
      ¬CanHold first (codecsLeftBy env file ctx phase)

namespace Runs

variable {plan : Plan} (hruns : Runs env file ctx phase plan)
include hruns

/-- What the container pass sees of the plan. -/
theorem exists_seen : ∃ seen : Plan,
    planEffect seen = (phaseEffect env file ctx phase).guarded file phase.name ∧
      (∀ a, a ∈ seen.actions ↔ a ∈ draftActions env file ctx phase ∧
        ¬RetractedRemoval file (removedBy (phaseEffect env file ctx phase).removals) a) ∧
      plan = applyContainerSafeguard file seen := by
  obtain ⟨policy, id, rfl⟩ := hruns.isPlan
  have hadds := emitOperations_adds env file ctx phase.onError phase.operations
    (newPlan file policy id phase)
  have hdraft : (draftPlan env file ctx policy id phase).skipReason = none := by
    have h := draftPlan_isSkipped env file ctx policy id phase
    simpa [Plan.isSkipped, hruns.notSkipped] using h
  have hphase : (draftPlan env file ctx policy id phase).phaseName = phase.name := hadds.phaseName
  have heffect : planEffect (draftPlan env file ctx policy id phase) =
      phaseEffect env file ctx phase := by
    rw [draftPlan, hadds.effect hdraft]
    exact Effect.nil_append _
  obtain ⟨seen, -, -, hseen, hactions, heq⟩ := applySafeguards_eq file _ hdraft
  rw [heffect, hphase] at hseen
  rw [heffect, draftPlan_actions] at hactions
  exact ⟨seen, hseen, hactions, heq⟩

/-- An action is in the plan exactly if an operation plans it and no safeguard takes it back. -/
theorem mem_actions_iff {a : PlannedAction} :
    a ∈ plan.actions ↔ (∃ op ∈ performed env file ctx phase.onError phase.operations,
      a ∈ operationPlans env file ctx op) ∧ ¬Retracted env file ctx phase a := by
  obtain ⟨seen, hseen, hactions, rfl⟩ := hruns.exists_seen
  rw [mem_applyContainerSafeguard, hactions, hseen, guarded_targets, phaseEffect_targets,
    draftActions_eq hruns.notSkipped, List.mem_flatMap, Retracted, not_or, and_assoc]
  rfl

theorem mem_actions {a : PlannedAction} (hremove : a.operation ≠ .removeTrack)
    (hconvert : a.operation ≠ .convertContainer) :
    a ∈ plan.actions ↔ ∃ op ∈ performed env file ctx phase.onError phase.operations,
      a ∈ operationPlans env file ctx op := by
  have hkept : ¬Retracted env file ctx phase a := by
    rintro ((hvideo | haudio) | hcontainer)
    · exact hremove (removesType_operation hvideo.1)
    · exact hremove (removesType_operation haudio.1)
    · exact hconvert hcontainer.1
  rw [hruns.mem_actions_iff, and_iff_left hkept]

theorem editAll_eq :
    PlannedAction.editAll plan.actions =
      PlannedAction.editAll ((performed env file ctx phase.onError phase.operations).flatMap
        (operationPlans env file ctx)) := by
  obtain ⟨policy, id, rfl⟩ := hruns.isPlan
  rw [editAll_applySafeguards, draftPlan_actions, draftActions_eq hruns.notSkipped]

/-- What is planned for a track beside its removal. -/
theorem acts_iff {i : Nat} :
    (∃ a ∈ plan.actions, ActsOn a i) ↔
      ∃ op ∈ performed env file ctx phase.onError phase.operations,
        ∃ a ∈ operationPlans env file ctx op, ActsOn a i := by
  obtain ⟨policy, id, rfl⟩ := hruns.isPlan
  constructor
  · rintro ⟨a, ha, hacts⟩
    have hmem := (applySafeguards_takesBack file _).sublist.subset ha
    rw [draftPlan_actions, draftActions_eq hruns.notSkipped, List.mem_flatMap] at hmem
    obtain ⟨op, hop, hplans⟩ := hmem
    exact ⟨op, hop, a, hplans, hacts⟩
  · rintro ⟨op, hop, a, ha, hacts⟩
    have hconvert : a.operation ≠ .convertContainer := by
      intro hconvert
      have hnone := conversion_trackIndex ha hconvert
      rw [hacts.2] at hnone
      cases hnone
    exact ⟨a, (hruns.mem_actions hacts.1 hconvert).mpr ⟨op, hop, ha⟩, hacts⟩

theorem edits_iff {i : Nat} {e : TrackEdit} :
    Edits plan.actions i e ↔ ∃ op ∈ performed env file ctx phase.onError phase.operations,
      Edits (operationPlans env file ctx op) i e := by
  have hkept {a : PlannedAction} (hedit : a.trackEdit = some e) :
      a.operation ≠ .removeTrack ∧ a.operation ≠ .convertContainer := by
    constructor <;> intro hop <;> simp [PlannedAction.trackEdit, hop] at hedit
  constructor
  · rintro ⟨a, ha, hindex, hedit⟩
    obtain ⟨op, hop, hmem⟩ := (hruns.mem_actions (hkept hedit).1 (hkept hedit).2).mp ha
    exact ⟨op, hop, a, hmem, hindex, hedit⟩
  · rintro ⟨op, hop, a, ha, hindex, hedit⟩
    exact ⟨a, (hruns.mem_actions (hkept hedit).1 (hkept hedit).2).mpr ⟨op, hop, ha⟩, hindex, hedit⟩

/-- The removals of the plan are the guarded ones. -/
theorem removedIndices_eq :
    removedIndices plan =
      removedBy ((phaseEffect env file ctx phase).guarded file phase.name).removals := by
  obtain ⟨seen, hseen, -, rfl⟩ := hruns.exists_seen
  obtain ⟨violations, hfinal⟩ := applyContainerSafeguard_effect file seen
  rw [Evaluator.removedIndices_eq, hfinal, hseen]

end Runs

/-! ## Removed tracks -/

variable (env file ctx phase) in
/-- The phase asks to remove all tracks of the type. -/
def asksForAll (typeCheck : TrackType → Bool) : Prop :=
  losesAll file typeCheck (removedBy (phaseEffect env file ctx phase).removals)

variable (env file ctx phase) in
/-- The track is of a type that the safeguards keep. -/
def Rescued (t : Track) : Prop :=
  t.trackType.isVideo = true ∧ asksForAll env file ctx phase TrackType.isVideo ∨
    t.trackType.isAudio = true ∧ asksForAll env file ctx phase TrackType.isAudio

variable (file) in
/-- The request asks to remove the track, and is not void. -/
def RemovalRequest.asks (t : Track) (r : RemovalRequest) : Bool :=
  !r.empties file && (inTarget r.target t.trackType && r.shouldRemove t)

/-- Each track has an index of its own. -/
def DistinctIndices (file : MediaFile) : Prop := (file.tracks.map (·.index)).Nodup

instance (file : MediaFile) : Decidable (DistinctIndices file) :=
  inferInstanceAs (Decidable (file.tracks.map (·.index)).Nodup)

theorem DistinctIndices.eq_of_index (h : DistinctIndices file) {t t' : Track}
    (ht : t ∈ file.tracks) (ht' : t' ∈ file.tracks) (heq : t.index = t'.index) : t = t' :=
  List.inj_on_of_nodup_map h ht ht' heq

theorem mem_tracksForTarget {target : TrackTarget} {t : Track} :
    t ∈ tracksForTarget file target ↔ t ∈ file.tracks ∧ inTarget target t.trackType = true := by
  rw [tracksForTarget_eq, List.mem_filter]

theorem granted_eq (r : RemovalRequest) (phaseName : String) :
    (r.effect file phaseName).removals = r.granted file := by
  unfold RemovalRequest.effect RemovalRequest.granted
  split <;> rfl

/-- A request removes a track at most once. -/
theorem count_granted (hdistinct : DistinctIndices file) {t : Track} (ht : t ∈ file.tracks)
    (r : RemovalRequest) :
    (removedBy (r.granted file)).count t.index = if r.asks file t then 1 else 0 := by
  unfold RemovalRequest.granted RemovalRequest.asks
  cases hempties : r.empties file with
  | true => simp [removedBy]
  | false =>
    have hindices : removedBy (r.removals file) =
        ((tracksForTarget file r.target).filter r.shouldRemove).map (·.index) := by
      simp only [removedBy, RemovalRequest.removals, List.filterMap_map]
      exact congrFun List.filterMap_eq_map' _
    have hnodup : (((tracksForTarget file r.target).filter r.shouldRemove).map (·.index)).Nodup :=
      (tracksForTarget_distinct hdistinct r.target).sublist (List.filter_sublist.map _)
    have hmem : t.index ∈ ((tracksForTarget file r.target).filter r.shouldRemove).map (·.index) ↔
        inTarget r.target t.trackType = true ∧ r.shouldRemove t = true := by
      simp only [List.mem_map, List.mem_filter, mem_tracksForTarget]
      constructor
      · rintro ⟨t', ⟨⟨ht', hin⟩, hshould⟩, heq⟩
        obtain rfl := hdistinct.eq_of_index ht' ht heq
        exact ⟨hin, hshould⟩
      · rintro ⟨hin, hshould⟩
        exact ⟨t, ⟨⟨ht, hin⟩, hshould⟩, rfl⟩
    simp only [Bool.false_eq_true, if_false, Bool.not_false, Bool.true_and, hindices,
      List.Nodup.count hnodup, hmem, Bool.and_eq_true]

theorem count_asked (hdistinct : DistinctIndices file) {t : Track} (ht : t ∈ file.tracks) :
    (removedBy (phaseEffect env file ctx phase).removals).count t.index =
      (phaseRequests env file ctx phase).countP (RemovalRequest.asks file t) := by
  rw [(phaseEffect_requests phase).1]
  induction phaseRequests env file ctx phase with
  | nil => rfl
  | cons r rest ih =>
    have happend (as bs : List PlannedAction) : removedBy (as ++ bs) = removedBy as ++ removedBy bs :=
      List.filterMap_append
    rw [List.flatMap_cons, happend, List.count_append, ih, granted_eq, count_granted hdistinct ht,
      List.countP_cons, Nat.add_comm]

/-- With distinct indices a removal is one of a type if its track is. -/
theorem removesType_iff (hdistinct : DistinctIndices file) {t : Track} (ht : t ∈ file.tracks)
    {typeCheck : TrackType → Bool} {a : PlannedAction} (hop : a.operation = .removeTrack)
    (hindex : a.trackIndex = some t.index) :
    removesType file typeCheck a = typeCheck t.trackType := by
  simp only [removesType, hop, hindex, decide_true, Bool.true_and, Option.any_some]
  cases hcheck : typeCheck t.trackType with
  | true =>
    apply List.any_eq_true.mpr
    exact ⟨t, ht, by simp [hcheck]⟩
  | false =>
    rw [List.any_eq_false]
    intro t' ht' h
    simp only [Bool.and_eq_true, decide_eq_true_eq] at h
    obtain rfl := hdistinct.eq_of_index ht' ht h.1
    rw [hcheck] at h
    cases h.2

theorem count_guardType (hdistinct : DistinctIndices file) {t : Track} (ht : t ∈ file.tracks)
    {removed : List Nat} {typeCheck : TrackType → Bool} {v : SafeguardViolation} {e : Effect}
    (hop : ∀ a ∈ e.removals, a.operation = .removeTrack) :
    (removedBy (Effect.guardType file removed typeCheck v e).removals).count t.index =
      if typeCheck t.trackType = true ∧ losesAll file typeCheck removed then 0
      else (removedBy e.removals).count t.index := by
  unfold Effect.guardType
  by_cases hloses : losesAll file typeCheck removed
  · simp only [hloses, if_true, and_true]
    have hcount (actions : List PlannedAction) (i : Nat) :
        (removedBy actions).count i = actions.countP (·.trackIndex = some i) := by
      induction actions with
      | nil => rfl
      | cons a rest ih =>
        cases hindex : a.trackIndex with
        | none => simp [removedBy, hindex, ← ih]
        | some j => by_cases hj : j = i <;> simp [removedBy, hindex, hj, ← ih]
    rw [hcount, hcount, List.countP_filter]
    split
    · rename_i hcheck
      rw [List.countP_eq_zero]
      intro a ha h
      simp only [Bool.and_eq_true, decide_eq_true_eq, Bool.not_eq_true'] at h
      rw [removesType_iff hdistinct ht (hop a ha) h.1, hcheck] at h
      cases h.2
    · rename_i hcheck
      apply List.countP_congr
      intro a ha
      simp only [Bool.and_eq_true, decide_eq_true_eq, Bool.not_eq_true']
      constructor
      · exact fun h => h.1
      · intro h
        refine ⟨h, ?_⟩
        rw [removesType_iff hdistinct ht (hop a ha) h]
        simpa using hcheck
  · simp [hloses]

/-- How often a plan removes a track. -/
theorem Runs.count_removed {plan : Plan} (hruns : Runs env file ctx phase plan)
    (hdistinct : DistinctIndices file) {t : Track} (ht : t ∈ file.tracks) :
    (Rescued env file ctx phase t → (removedIndices plan).count t.index = 0) ∧
      (¬ Rescued env file ctx phase t → (removedIndices plan).count t.index =
        (phaseRequests env file ctx phase).countP (RemovalRequest.asks file t)) := by
  have hop : ∀ a ∈ (phaseEffect env file ctx phase).removals, a.operation = .removeTrack :=
    fun a ha => phaseEffect_operation ha
  rw [hruns.removedIndices_eq, Effect.guarded, count_guardType hdistinct ht
    fun a ha => hop a (guardType_removals_sublist.subset ha), count_guardType hdistinct ht hop,
    ← count_asked hdistinct ht]
  unfold Rescued asksForAll
  constructor
  · rintro (hvideo | haudio)
    · simp [hvideo.1, hvideo.2]
    · simp [haudio.1, haudio.2]
  · intro h
    rw [not_or] at h
    rw [if_neg h.2, if_neg h.1]

variable (env file ctx phase) in
/-- The phase removes the track. -/
def Removes (t : Track) : Prop :=
  ¬ Rescued env file ctx phase t ∧
    ∃ r ∈ phaseRequests env file ctx phase, r.asks file t = true

theorem Runs.mem_removed_iff {plan : Plan} (hruns : Runs env file ctx phase plan)
    (hdistinct : DistinctIndices file) {t : Track} (ht : t ∈ file.tracks) :
    t.index ∈ removedIndices plan ↔ Removes env file ctx phase t := by
  have h := hruns.count_removed hdistinct ht
  unfold Removes
  rw [← List.count_pos_iff]
  by_cases hrescued : Rescued env file ctx phase t
  · simp [h.1 hrescued, hrescued]
  · rw [h.2 hrescued, List.countP_pos_iff]
    simp [hrescued]

theorem any_drops_iff {plan : Plan} {t : Track} :
    plan.actions.any (·.drops t) = true ↔ t.index ∈ removedIndices plan := by
  simp only [List.any_eq_true, PlannedAction.drops, Bool.and_eq_true, decide_eq_true_eq,
    removedIndices, List.mem_filterMap, List.mem_filter]
  constructor
  · rintro ⟨a, ha, hop, hindex⟩
    exact ⟨a, ⟨ha, hop⟩, hindex⟩
  · rintro ⟨a, ⟨ha, hop⟩, hindex⟩
    exact ⟨a, ha, hop, hindex⟩

/-- The tracks of the file after the plan: those it does not remove, edited. -/
theorem applyTo_tracks (plan : Plan) :
    (plan.applyTo file).tracks =
      (file.tracks.filter (·.index ∉ removedIndices plan)).map
        (PlannedAction.editAll plan.actions) := by
  have hkept : (fun t : Track => !plan.actions.any (·.drops t)) =
      fun t => decide (t.index ∉ removedIndices plan) := by
    funext t
    rw [decide_not]
    exact congrArg not (Bool.eq_iff_iff.mpr (any_drops_iff.trans decide_eq_true_iff.symm))
  rw [Plan.applyTo, PlannedAction.applyAll_eq, ← hkept]

theorem tracksForTarget_applyTo (plan : Plan) (target : TrackTarget) :
    tracksForTarget (plan.applyTo file) target =
      ((tracksForTarget file target).filter (·.index ∉ removedIndices plan)).map
        (PlannedAction.editAll plan.actions) := by
  rw [tracksForTarget_eq, tracksForTarget_eq, applyTo_tracks, List.filter_map, List.filter_filter,
    List.filter_filter]
  congr 2
  funext t
  simp [Bool.and_comm]

theorem mem_of_operationWishes {op : CompiledOperation} {t : Track} {e : TrackEdit}
    (h : (t, e) ∈ operationWishes env file ctx op) : t ∈ file.tracks := by
  have htarget {target : TrackTarget} {t : Track} (ht : t ∈ tracksForTarget file target) :
      t ∈ file.tracks := (mem_tracksForTarget.mp ht).1
  rw [operationWishes, List.mem_append, List.mem_flatMap] at h
  rcases h with ⟨action, -, h⟩ | h
  · cases action with
    | setDefault target filter =>
      obtain ⟨t', ht', heq⟩ := List.mem_map.mp h
      obtain ⟨rfl, rfl⟩ := Prod.mk.inj heq
      exact htarget (List.mem_filter.mp ht').1
    | setForced target filter =>
      obtain ⟨t', ht', heq⟩ := List.mem_map.mp h
      obtain ⟨rfl, rfl⟩ := Prod.mk.inj heq
      exact htarget (List.mem_filter.mp ht').1
    | setLanguage target filter value =>
      obtain ⟨lang, -, h⟩ := List.mem_flatMap.mp h
      obtain ⟨t', ht', heq⟩ := List.mem_map.mp h
      obtain ⟨rfl, rfl⟩ := Prod.mk.inj heq
      exact htarget (List.mem_filter.mp ht').1
    | _ => cases h
  · cases op with
    | setDefaults defaults =>
      obtain ⟨default, -, h⟩ := List.mem_flatMap.mp h
      obtain ⟨t', ht', heq⟩ := List.mem_map.mp h
      obtain ⟨rfl, -⟩ := Prod.mk.inj heq
      exact htarget ht'
    | clearActions target settings =>
      obtain ⟨t', ht', h⟩ := List.mem_flatMap.mp h
      obtain ⟨e', -, heq⟩ := List.mem_map.mp h
      obtain ⟨rfl, -⟩ := Prod.mk.inj heq
      exact htarget ht'
    | _ => cases h

variable (env file ctx phase) in
/-- The phase wishes the edit for the track. -/
def Wishes (t : Track) (e : TrackEdit) : Prop :=
  ∃ op ∈ performed env file ctx phase.onError phase.operations,
    (t, e) ∈ operationWishes env file ctx op

/-- The edits a plan makes to a track are those the phase wishes for it and that do not hold. -/
theorem Runs.makes_iff {plan : Plan} (hruns : Runs env file ctx phase plan)
    (hdistinct : DistinctIndices file) {t : Track} (ht : t ∈ file.tracks) {e : TrackEdit} :
    (∃ a ∈ plan.actions, a.makes t e) ↔
      Wishes env file ctx phase t e ∧ e.holds t = false := by
  have hedits := hruns.edits_iff (i := t.index) (e := e)
  unfold Edits at hedits
  unfold PlannedAction.makes
  rw [hedits]
  constructor
  · rintro ⟨op, hop, hmem⟩
    obtain ⟨t', hwish, hindex, hholds⟩ := (operationPlans_edits hdistinct op t.index e).mp hmem
    obtain rfl := hdistinct.eq_of_index (mem_of_operationWishes hwish) ht hindex
    exact ⟨⟨op, hop, hwish⟩, hholds⟩
  · rintro ⟨⟨op, hop, hwish⟩, hholds⟩
    exact ⟨op, hop, (operationPlans_edits hdistinct op t.index e).mpr ⟨t, hwish, rfl, hholds⟩⟩

end

end Voom.Evaluator
