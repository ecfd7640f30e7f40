-- SUMMARY: What the safeguards guarantee of every plan, and where the container safeguard falls short.
import Voom.Evaluator.Effects

/-!
# Safeguards

The removals of a plan are those its phase asked for, less the ones a request took back
itself and less the ones the two passes over track types take back. Both passes work from the
removals collected before either, so each leaves a track of its type if there was one. The
container pass looks at the first conversion of the plan only.
-/

namespace Voom.Evaluator

open Dsl

/-! ## The passes on effects -/

/-- The tracks a list of removals takes. -/
def removedBy (removals : List PlannedAction) : List Nat := removals.filterMap (·.trackIndex)

theorem removedIndices_eq (plan : Plan) :
    removedIndices plan = removedBy (planEffect plan).removals := rfl

/-- There are tracks of the type, and all of them are removed. -/
def losesAll (file : MediaFile) (typeCheck : TrackType → Bool) (removed : List Nat) : Prop :=
  (∃ t ∈ file.tracks, typeCheck t.trackType = true) ∧
    ∀ t ∈ file.tracks, typeCheck t.trackType = true → t.index ∈ removed

instance (file : MediaFile) (typeCheck : TrackType → Bool) (removed : List Nat) :
    Decidable (losesAll file typeCheck removed) :=
  inferInstanceAs (Decidable (_ ∧ _))

namespace Effect

/-- The pass over a track type. -/
def guardType (file : MediaFile) (removed : List Nat) (typeCheck : TrackType → Bool)
    (violation : SafeguardViolation) (e : Effect) : Effect :=
  if losesAll file typeCheck removed then
    { e with
      removals := e.removals.filter fun a => !removesType file typeCheck a
      violations := e.violations ++ [violation] }
  else e

def typeViolation (file : MediaFile) (kind : SafeguardKind) (label phaseName : String) :
    SafeguardViolation :=
  { kind
    message :=
      s!"Safeguard: would have removed all {label} tracks in {file.fileName}, keeping them instead"
    phaseName }

/-- Both passes, from the removals before either. -/
def guarded (file : MediaFile) (phaseName : String) (e : Effect) : Effect :=
  guardType file (removedBy e.removals) TrackType.isAudio
    (typeViolation file .noAudioTrack "audio" phaseName)
    (guardType file (removedBy e.removals) TrackType.isVideo
      (typeViolation file .noVideoTrack "video" phaseName) e)

theorem filterMap_filter_of_none {β : Type} {f : PlannedAction → Option β}
    {keep : PlannedAction → Bool} (h : ∀ a, keep a = false → f a = none)
    (actions : List PlannedAction) : (actions.filter keep).filterMap f = actions.filterMap f := by
  rw [List.filterMap_filter]
  apply List.filterMap_congr
  intro a _
  cases hkeep : keep a with
  | true => simp
  | false => simp [h a hkeep]

/-- Dropping removals changes nothing but the removals. -/
theorem of_filter_removals (keep : PlannedAction → Bool)
    (h : ∀ a, keep a = false → a.operation = .removeTrack) (actions : List PlannedAction) :
    of (actions.filter keep) =
      { of actions with removals := (of actions).removals.filter keep } := by
  have hnone {β : Type} (f : PlannedAction → Option β)
      (hf : ∀ a, a.operation = .removeTrack → f a = none) :
      (actions.filter keep).filterMap f = actions.filterMap f :=
    filterMap_filter_of_none (fun a ha => hf a (h a ha)) actions
  apply Effect.ext
  · simp [of, List.filter_filter, Bool.and_comm]
  · exact hnone containerOf fun a ha => by simp [containerOf, ha]
  · exact hnone transcodeOf fun a ha => by simp [transcodeOf, ha]
  · exact hnone synthesizedCodec fun a ha => by simp [synthesizedCodec, ha]
  · rfl

/-- Dropping all conversions changes nothing but the targets. -/
theorem of_filter_conversions (actions : List PlannedAction) :
    of (actions.filter (·.operation ≠ .convertContainer)) = { of actions with targets := [] } := by
  have hnone {β : Type} (f : PlannedAction → Option β)
      (hf : ∀ a, a.operation = .convertContainer → f a = none) :
      (actions.filter (·.operation ≠ .convertContainer)).filterMap f = actions.filterMap f :=
    filterMap_filter_of_none (fun a ha => hf a (by simpa using ha)) actions
  apply Effect.ext
  · simp only [of, List.filter_filter]
    apply List.filter_congr
    intro a _
    cases hop : a.operation <;> simp [isRemoval, hop]
  · simp only [of, List.filterMap_eq_nil_iff, List.mem_filter]
    intro a ha
    have hop : a.operation ≠ .convertContainer := by simpa using ha.2
    unfold containerOf
    split
    · contradiction
    · rfl
  · exact hnone transcodeOf fun a ha => by simp [transcodeOf, ha]
  · exact hnone synthesizedCodec fun a ha => by simp [synthesizedCodec, ha]
  · rfl

end Effect

theorem removesType_operation {file : MediaFile} {typeCheck : TrackType → Bool}
    {a : PlannedAction} (h : removesType file typeCheck a = true) :
    a.operation = .removeTrack := by
  simp only [removesType, Bool.and_eq_true, decide_eq_true_eq] at h
  exact h.1

theorem losesAll_iff (file : MediaFile) (typeCheck : TrackType → Bool) (removed : List Nat) :
    losesAll file typeCheck removed ↔
      ¬(file.tracks.countP (fun t => typeCheck t.trackType) = 0 ∨
        file.tracks.countP (fun t => typeCheck t.trackType && !removed.contains t.index) > 0) := by
  simp [losesAll, List.countP_eq_zero, List.countP_pos_iff, not_or]

theorem applySafeguardForTrackType_effect (file : MediaFile) (removed : List Nat)
    (typeCheck : TrackType → Bool) (kind : SafeguardKind) (label : String) (plan : Plan) :
    planEffect (applySafeguardForTrackType file removed typeCheck kind label plan) =
      Effect.guardType file removed typeCheck
        (Effect.typeViolation file kind label plan.phaseName) (planEffect plan) := by
  have hiff := losesAll_iff file typeCheck removed
  simp only [applySafeguardForTrackType, Effect.guardType]
  split
  · rename_i h
    rw [if_neg (by rw [hiff]; exact not_not_intro h)]
  · rename_i h
    rw [if_pos (hiff.mpr h)]
    have hof := Effect.of_filter_removals (fun a => !removesType file typeCheck a)
      (fun a ha => removesType_operation (by simpa using ha)) plan.actions
    simp only [planEffect, recordSafeguard, Plan.warn, Plan.retain, hof, Effect.typeViolation]

/-- A pass over a track type keeps the removals of the type, unless they are all. -/
theorem mem_applySafeguardForTrackType {file : MediaFile} {removed : List Nat}
    {typeCheck : TrackType → Bool} {kind : SafeguardKind} {label : String} {plan : Plan}
    {a : PlannedAction} :
    a ∈ (applySafeguardForTrackType file removed typeCheck kind label plan).actions ↔
      a ∈ plan.actions ∧ ¬(removesType file typeCheck a = true ∧ losesAll file typeCheck removed) := by
  have hiff := losesAll_iff file typeCheck removed
  simp only [applySafeguardForTrackType]
  split
  · rename_i h
    have hnot : ¬losesAll file typeCheck removed := by rwa [hiff, not_not]
    simp [hnot]
  · rename_i h
    simp [recordSafeguard, Plan.warn, Plan.retain, hiff.mpr h]

@[simp] theorem applySafeguardForTrackType_phaseName (file : MediaFile) (removed : List Nat)
    (typeCheck : TrackType → Bool) (kind : SafeguardKind) (label : String) (plan : Plan) :
    (applySafeguardForTrackType file removed typeCheck kind label plan).phaseName =
      plan.phaseName := by
  simp only [applySafeguardForTrackType]
  split <;> rfl

@[simp] theorem applySafeguardForTrackType_skipReason (file : MediaFile) (removed : List Nat)
    (typeCheck : TrackType → Bool) (kind : SafeguardKind) (label : String) (plan : Plan) :
    (applySafeguardForTrackType file removed typeCheck kind label plan).skipReason =
      plan.skipReason := by
  simp only [applySafeguardForTrackType]
  split <;> rfl

/-- Without removals neither pass does anything. -/
theorem guardType_of_no_removals (file : MediaFile) (typeCheck : TrackType → Bool)
    (v : SafeguardViolation) (e : Effect) : Effect.guardType file [] typeCheck v e = e := by
  rw [Effect.guardType, if_neg]
  intro h
  obtain ⟨t, ht, htype⟩ := h.1
  simpa using h.2 t ht htype

/-! ## What the passes over track types leave -/

section

variable {file : MediaFile} {removed : List Nat} {typeCheck : TrackType → Bool}
  {v : SafeguardViolation} {e : Effect}

theorem guardType_removals_sublist :
    List.Sublist (Effect.guardType file removed typeCheck v e).removals e.removals := by
  unfold Effect.guardType
  split
  · exact List.filter_sublist
  · exact List.Sublist.refl _

theorem guardType_violations_kept :
    e.violations <+: (Effect.guardType file removed typeCheck v e).violations := by
  unfold Effect.guardType
  split
  · exact List.prefix_append _ _
  · exact List.prefix_rfl

theorem removedBy_sublist {as bs : List PlannedAction} (h : List.Sublist as bs) {i : Nat}
    (hi : i ∈ removedBy as) : i ∈ removedBy bs :=
  (h.filterMap _).subset hi

/-- After a pass a track of the type is left, if the removals it retracts from are among those
it was given. -/
theorem guardType_keeps (hop : ∀ a ∈ e.removals, a.operation = .removeTrack)
    (hremoved : ∀ i ∈ removedBy e.removals, i ∈ removed)
    (htype : ∃ t ∈ file.tracks, typeCheck t.trackType = true) :
    ∃ t ∈ file.tracks, typeCheck t.trackType = true ∧
      t.index ∉ removedBy (Effect.guardType file removed typeCheck v e).removals := by
  unfold Effect.guardType
  split
  · obtain ⟨t, ht, hcheck⟩ := htype
    refine ⟨t, ht, hcheck, ?_⟩
    intro hmem
    obtain ⟨a, ha, hindex⟩ := List.mem_filterMap.mp hmem
    have hkept := (List.mem_filter.mp ha).2
    have hremoves : removesType file typeCheck a = true := by
      simp only [removesType, hop a (List.mem_filter.mp ha).1, hindex, decide_true, Bool.true_and,
        Option.any_some, List.any_eq_true, Bool.and_eq_true, decide_eq_true_eq]
      exact ⟨t, ht, rfl, hcheck⟩
    simp [hremoves] at hkept
  · rename_i hloses
    have hleft : ∃ t ∈ file.tracks, typeCheck t.trackType = true ∧ t.index ∉ removed := by
      by_contra hnone
      apply hloses
      refine ⟨htype, fun t ht hcheck => ?_⟩
      by_contra hout
      exact hnone ⟨t, ht, hcheck, hout⟩
    obtain ⟨t, ht, hcheck, hout⟩ := hleft
    exact ⟨t, ht, hcheck, fun hmem => hout (hremoved _ hmem)⟩

/-- A removal a pass takes back is one of a track of its type, and the pass says so. -/
theorem guardType_retracts {a : PlannedAction}
    (h : (Effect.guardType file removed typeCheck v e).removals.count a < e.removals.count a) :
    removesType file typeCheck a = true ∧
      v ∈ (Effect.guardType file removed typeCheck v e).violations := by
  unfold Effect.guardType at h ⊢
  split at h
  · rename_i hloses
    rw [if_pos hloses]
    refine ⟨?_, by simp⟩
    cases hremoves : removesType file typeCheck a with
    | true => rfl
    | false =>
      have hcount := List.count_filter (a := a) (l := e.removals)
        (p := fun a => !removesType file typeCheck a) (by simp [hremoves])
      rw [hcount] at h
      exact absurd h (Nat.lt_irrefl _)
  · exact absurd h (Nat.lt_irrefl _)

end

/-! ## The container pass -/

/-- The codec of a track after a list of transcodes: that of the last one on the track. -/
def codecAfter (transcodes : List (Nat × String)) (track : Track) : String :=
  ((transcodes.filter (·.1 = track.index)).getLast?.map (·.2)).getD track.codec

theorem transcodeCodec_eq (plan : Plan) (index : Nat) :
    transcodeCodec plan index =
      (((planEffect plan).transcodes.filter (·.1 = index)).getLast?).map (·.2) := by
  simp only [transcodeCodec, planEffect, Effect.of]
  -- the map is overwritten from left to right, so the induction takes actions off the end
  induction plan.actions using List.reverseRecOn with
  | nil => rfl
  | append_singleton actions a ih =>
    rw [List.foldl_append, ih]
    cases htranscode : transcodeOf a with
    | none => simp [htranscode]
    | some entry =>
      by_cases hindex : entry.1 = index
      · simp [htranscode, hindex]
      · simp [htranscode, hindex]

theorem effectiveCodec_eq (plan : Plan) (track : Track) :
    effectiveCodec plan track = codecAfter (planEffect plan).transcodes track := by
  rw [effectiveCodec, transcodeCodec_eq, codecAfter]

namespace Effect

/-- The codecs in the file after the plan: those of the tracks left and of the tracks made. -/
def codecsLeft (file : MediaFile) (e : Effect) : List String :=
  (file.tracks.filter fun t => t.index ∉ removedBy e.removals).map (codecAfter e.transcodes) ++
    e.synthesized.map (·.2)

end Effect

/-- The container can hold the codecs, as far as is known. -/
def CanHold (container : Container) (codecs : List String) : Prop :=
  ∀ codec ∈ codecs, codecSupported container codec ≠ some false

instance (container : Container) (codecs : List String) : Decidable (CanHold container codecs) :=
  inferInstanceAs (Decidable (∀ codec ∈ codecs, _))

theorem offenders_eq_nil_iff (file : MediaFile) (plan : Plan) (target : Container) :
    offenders file plan target = [] ↔ CanHold target ((planEffect plan).codecsLeft file) := by
  simp only [offenders, CanHold, Effect.codecsLeft, List.append_eq_nil_iff, List.map_eq_nil_iff,
    List.filter_eq_nil_iff, List.mem_append, List.mem_map, List.mem_filter, removedIndices_eq,
    effectiveCodec_eq]
  constructor
  · rintro ⟨htracks, hmade⟩ codec (⟨t, ht, rfl⟩ | ⟨s, hs, rfl⟩)
    · simpa using htracks t (by simpa using ht)
    · simpa using hmade s hs
  · intro h
    constructor
    · intro t ht
      simpa using h _ (Or.inl ⟨t, by simpa using ht, rfl⟩)
    · intro s hs
      simpa using h _ (Or.inr ⟨s, hs, rfl⟩)

/-- The container pass keeps the targets unless the first of them cannot hold what is left;
then it drops them all. -/
theorem applyContainerSafeguard_effect (file : MediaFile) (plan : Plan) :
    ∃ violations,
      planEffect (applyContainerSafeguard file plan) =
        { planEffect plan with
          targets :=
            if ∀ first ∈ (planEffect plan).targets.head?,
                CanHold first ((planEffect plan).codecsLeft file)
            then (planEffect plan).targets else []
          violations := (planEffect plan).violations ++ violations } := by
  have hhead : (planEffect plan).targets.head? = targetContainer plan :=
    List.head?_filterMap
  rw [hhead, applyContainerSafeguard]
  cases htarget : targetContainer plan with
  | none => exact ⟨[], by simp⟩
  | some target =>
    simp only [Option.mem_def, Option.some.injEq, forall_eq']
    have hiff := offenders_eq_nil_iff file plan target
    by_cases hoff : offenders file plan target = []
    · refine ⟨[], ?_⟩
      simp [hoff, hiff.mp hoff]
    · refine ⟨[⟨.containerIncompatible, containerMessage file target (offenders file plan target),
        plan.phaseName⟩], ?_⟩
      rw [if_neg (by simpa using hoff), if_neg (mt hiff.mpr hoff)]
      simp only [planEffect, recordSafeguard, Plan.warn, Plan.retain,
        Effect.of_filter_conversions]

/-- The container pass keeps the conversions, unless the first cannot hold what is left. -/
theorem mem_applyContainerSafeguard {file : MediaFile} {plan : Plan} {a : PlannedAction} :
    a ∈ (applyContainerSafeguard file plan).actions ↔
      a ∈ plan.actions ∧ ¬(a.operation = .convertContainer ∧
        ∃ first ∈ (planEffect plan).targets.head?,
          ¬CanHold first ((planEffect plan).codecsLeft file)) := by
  have hhead : (planEffect plan).targets.head? = targetContainer plan :=
    List.head?_filterMap
  rw [hhead, applyContainerSafeguard]
  cases htarget : targetContainer plan with
  | none => simp
  | some target =>
    have hiff := offenders_eq_nil_iff file plan target
    by_cases hoff : offenders file plan target = []
    · simp [hoff, hiff.mp hoff]
    · simp [hoff, mt hiff.mpr hoff, recordSafeguard, Plan.warn, Plan.retain]

@[simp] theorem applyContainerSafeguard_phaseName (file : MediaFile) (plan : Plan) :
    (applyContainerSafeguard file plan).phaseName = plan.phaseName := by
  simp only [applyContainerSafeguard]
  split
  · rfl
  · split <;> rfl

@[simp] theorem applyContainerSafeguard_skipReason (file : MediaFile) (plan : Plan) :
    (applyContainerSafeguard file plan).skipReason = plan.skipReason := by
  simp only [applyContainerSafeguard]
  split
  · rfl
  · split <;> rfl

/-! ## Plans of a policy -/

/-- The removal is one of all tracks of a type that a pass is over. -/
def RetractedRemoval (file : MediaFile) (removed : List Nat) (a : PlannedAction) : Prop :=
  removesType file TrackType.isVideo a = true ∧ losesAll file TrackType.isVideo removed ∨
    removesType file TrackType.isAudio a = true ∧ losesAll file TrackType.isAudio removed

/-- The plan the container pass sees has the guarded effect of the phase. -/
theorem applySafeguards_eq (file : MediaFile) (plan : Plan) (h : plan.skipReason = none) :
    ∃ seen : Plan, seen.phaseName = plan.phaseName ∧ seen.skipReason = none ∧
      planEffect seen = (planEffect plan).guarded file plan.phaseName ∧
      (∀ a, a ∈ seen.actions ↔ a ∈ plan.actions ∧
        ¬RetractedRemoval file (removedBy (planEffect plan).removals) a) ∧
      applySafeguards file plan = applyContainerSafeguard file seen := by
  simp only [applySafeguards, Plan.isSkipped, h, Option.isSome_none, Bool.false_eq_true, if_false]
  split
  · rename_i hempty
    have hremoved : removedBy (planEffect plan).removals = [] := by
      rw [← removedIndices_eq]
      simpa using hempty
    refine ⟨plan, rfl, h, ?_, fun a => ?_, rfl⟩
    · rw [Effect.guarded, hremoved, guardType_of_no_removals, guardType_of_no_removals]
    · have hkept (typeCheck : TrackType → Bool) : ¬losesAll file typeCheck [] := by
        rintro ⟨⟨t, ht, htype⟩, hall⟩
        cases hall t ht htype
      simp [RetractedRemoval, hremoved, hkept]
  · refine ⟨_, ?_, ?_, ?_, fun a => ?_, rfl⟩
    rotate_left 3
    · simp only [mem_applySafeguardForTrackType, removedIndices_eq, RetractedRemoval, not_or,
        and_assoc]
    · simp
    · simp [h]
    · simp only [applySafeguardForTrackType_effect, applySafeguardForTrackType_phaseName,
        removedIndices_eq, Effect.guarded]

section

variable {env : EvalEnv} {file : MediaFile} {ctx : EvalContext} {policy : CompiledPolicy}
  {newId : Nat → Uuid}

theorem mem_evaluatePhases {names : List String} {outcomes : List (String × EvaluationOutcome)}
    {plan : Plan} (h : plan ∈ evaluatePhases env file ctx policy newId names outcomes) :
    ∃ name id outcomes' phase, policy.phases.find? (·.name = name) = some phase ∧
      plan = evaluatePhase env file ctx policy id outcomes' phase := by
  induction names generalizing outcomes with
  | nil => simp [evaluatePhases] at h
  | cons name rest ih =>
    rw [evaluatePhases] at h
    split at h
    · exact ih h
    · rename_i phase hfind
      cases List.mem_cons.mp h with
      | inl heq => exact ⟨name, _, _, phase, hfind, heq⟩
      | inr hrest => exact ih hrest

/-- A plan that was not skipped is what the container pass makes of the guarded effect. -/
theorem evaluatePhase_guarded {id : Uuid} {outcomes : List (String × EvaluationOutcome)}
    {phase : CompiledPhase}
    (h : (evaluatePhase env file ctx policy id outcomes phase).isSkipped = false) :
    ∃ seen : Plan, seen.phaseName = phase.name ∧ seen.skipReason = none ∧
      planEffect seen = (phaseEffect env file ctx phase).guarded file phase.name ∧
      evaluatePhase env file ctx policy id outcomes phase = applyContainerSafeguard file seen := by
  simp only [evaluatePhase] at h ⊢
  split at h
  · simp [Plan.isSkipped] at h
  · have hadds := emitOperations_adds env file ctx phase.onError phase.operations
      (newPlan file policy id phase)
    generalize emitOperations env file ctx phase.onError phase.operations
      (newPlan file policy id phase) = draft at hadds h ⊢
    have hdraft : draft.skipReason = none := by
      cases hskip : draft.skipReason with
      | none => rfl
      | some reason => simp [applySafeguards, Plan.isSkipped, hskip] at h
    obtain ⟨seen, hname, hskip, heffect, -, heq⟩ := applySafeguards_eq file draft hdraft
    have hphase : draft.phaseName = phase.name := hadds.phaseName
    have hdrafted : planEffect draft = phaseEffect env file ctx phase := by
      rw [hadds.effect hdraft]
      exact Effect.nil_append _
    exact ⟨seen, hname.trans hphase, hskip, by rw [heffect, hdrafted, hphase], heq⟩

/-! ## Requested removals -/

variable (env file ctx) in
/-- The keep and remove requests of a phase, in the order they are made. -/
def phaseRequests (phase : CompiledPhase) : List RemovalRequest :=
  (performed env file ctx phase.onError phase.operations).flatMap fun op =>
    requests env file ctx (operationActions env file ctx op)

variable (env file ctx) in
/-- All removals the phase asks for, before any safeguard. -/
def requestedRemovals (phase : CompiledPhase) : List PlannedAction :=
  (phaseRequests env file ctx phase).flatMap (RemovalRequest.removals file)

theorem RemovalRequest.removals_operation {r : RemovalRequest} {a : PlannedAction}
    (h : a ∈ r.removals file) : a.operation = .removeTrack := by
  obtain ⟨t, -, rfl⟩ := List.mem_map.mp h
  rfl

theorem requestedRemovals_operation {phase : CompiledPhase} {a : PlannedAction}
    (h : a ∈ requestedRemovals env file ctx phase) : a.operation = .removeTrack := by
  obtain ⟨r, -, ha⟩ := List.mem_flatMap.mp h
  exact RemovalRequest.removals_operation ha

/-- The removals and violations of a phase come from its requests. -/
theorem phaseEffect_requests (phase : CompiledPhase) :
    (phaseEffect env file ctx phase).removals =
        (phaseRequests env file ctx phase).flatMap (fun r => (r.effect file phase.name).removals) ∧
      (phaseEffect env file ctx phase).violations =
        (phaseRequests env file ctx phase).flatMap
          (fun r => (r.effect file phase.name).violations) := by
  have hconcat (rs : List RemovalRequest) :
      (requestsEffect file phase.name rs).removals =
          rs.flatMap (fun r => (r.effect file phase.name).removals) ∧
        (requestsEffect file phase.name rs).violations =
          rs.flatMap (fun r => (r.effect file phase.name).violations) := by
    induction rs with
    | nil => exact ⟨rfl, rfl⟩
    | cons r rest ih =>
      simp only [requestsEffect] at ih
      simp [requestsEffect, ih]
  unfold phaseEffect phaseRequests
  induction performed env file ctx phase.onError phase.operations with
  | nil => exact ⟨rfl, rfl⟩
  | cons op rest ih => simp [operationEffect, ih, hconcat]

theorem phaseEffect_operation {phase : CompiledPhase} {a : PlannedAction}
    (h : a ∈ (phaseEffect env file ctx phase).removals) : a.operation = .removeTrack := by
  rw [(phaseEffect_requests phase).1] at h
  obtain ⟨r, -, ha⟩ := List.mem_flatMap.mp h
  unfold RemovalRequest.effect at ha
  split at ha
  · simp at ha
  · exact RemovalRequest.removals_operation ha

theorem exists_count_lt {α β : Type} [BEq β] {f g : α → List β} {b : β} {l : List α}
    (h : (l.flatMap f).count b < (l.flatMap g).count b) :
    ∃ x ∈ l, (f x).count b < (g x).count b := by
  induction l with
  | nil => simp at h
  | cons x rest ih =>
    simp only [List.flatMap_cons, List.count_append] at h
    by_cases hx : (f x).count b < (g x).count b
    · exact ⟨x, by simp, hx⟩
    · obtain ⟨y, hy, hlt⟩ := ih (by omega)
      exact ⟨y, by simp [hy], hlt⟩

/-- A requested removal that is not in the effect of the phase was taken back by its request,
which recorded it. -/
theorem phaseEffect_retracts {phase : CompiledPhase} {a : PlannedAction}
    (h : (phaseEffect env file ctx phase).removals.count a <
      (requestedRemovals env file ctx phase).count a) :
    ∃ v ∈ (phaseEffect env file ctx phase).violations,
      v.kind = .allTracksRemoved ∧ v.phaseName = phase.name := by
  rw [(phaseEffect_requests phase).1] at h
  obtain ⟨r, hr, hlt⟩ := exists_count_lt h
  refine ⟨r.violation file phase.name, ?_, rfl, rfl⟩
  rw [(phaseEffect_requests phase).2]
  apply List.mem_flatMap.mpr
  refine ⟨r, hr, ?_⟩
  unfold RemovalRequest.effect at hlt ⊢
  split
  · simp
  · rename_i hempties
    rw [if_neg hempties] at hlt
    exact absurd hlt (Nat.lt_irrefl _)

/-! ## No plan loses all video or all audio -/

/-- The violation answers for taking back the removal. -/
def Answers (file : MediaFile) (phaseName : String) (a : PlannedAction) (v : SafeguardViolation) :
    Prop :=
  v.phaseName = phaseName ∧
    (v.kind = .allTracksRemoved ∨
      v.kind = .noVideoTrack ∧ removesType file TrackType.isVideo a = true ∨
      v.kind = .noAudioTrack ∧ removesType file TrackType.isAudio a = true)

theorem guarded_keeps_video (phaseName : String) {e : Effect}
    (hop : ∀ a ∈ e.removals, a.operation = .removeTrack)
    (h : ∃ t ∈ file.tracks, t.trackType.isVideo = true) :
    ∃ t ∈ file.tracks, t.trackType.isVideo = true ∧
      t.index ∉ removedBy (e.guarded file phaseName).removals := by
  obtain ⟨t, ht, hvideo, hout⟩ := guardType_keeps
    (v := Effect.typeViolation file .noVideoTrack "video" phaseName) hop (fun _ hi => hi) h
  exact ⟨t, ht, hvideo, fun hmem => hout (removedBy_sublist guardType_removals_sublist hmem)⟩

theorem guarded_keeps_audio (phaseName : String) {e : Effect}
    (hop : ∀ a ∈ e.removals, a.operation = .removeTrack)
    (h : ∃ t ∈ file.tracks, t.trackType.isAudio = true) :
    ∃ t ∈ file.tracks, t.trackType.isAudio = true ∧
      t.index ∉ removedBy (e.guarded file phaseName).removals := by
  apply guardType_keeps _ _ h
  · exact fun a ha => hop a (guardType_removals_sublist.subset ha)
  · exact fun i hi => removedBy_sublist guardType_removals_sublist hi

/-- A removal the two passes take back is answered for. -/
theorem guarded_retracts {e : Effect} {phaseName : String} {a : PlannedAction}
    (h : (e.guarded file phaseName).removals.count a < e.removals.count a) :
    ∃ v ∈ (e.guarded file phaseName).violations, Answers file phaseName a v := by
  unfold Effect.guarded at h ⊢
  generalize hvideo : Effect.guardType file (removedBy e.removals) TrackType.isVideo
    (Effect.typeViolation file .noVideoTrack "video" phaseName) e = e' at h ⊢
  by_cases hfirst : e'.removals.count a < e.removals.count a
  · rw [← hvideo] at hfirst
    obtain ⟨hremoves, hmem⟩ := guardType_retracts hfirst
    rw [hvideo] at hmem
    exact ⟨_, guardType_violations_kept.subset hmem, rfl, Or.inr (Or.inl ⟨rfl, hremoves⟩)⟩
  · obtain ⟨hremoves, hmem⟩ := guardType_retracts (Nat.lt_of_lt_of_le h (Nat.le_of_not_lt hfirst))
    exact ⟨_, hmem, rfl, Or.inr (Or.inr ⟨rfl, hremoves⟩)⟩

theorem guarded_violations_subset {e : Effect} {phaseName : String} {v : SafeguardViolation}
    (h : v ∈ e.violations) : v ∈ (e.guarded file phaseName).violations :=
  guardType_violations_kept.subset (guardType_violations_kept.subset h)

/-- The plan has no removal of the track. -/
def Spared (plan : Plan) (t : Track) : Prop :=
  ∀ a ∈ plan.actions, a.operation = .removeTrack → a.trackIndex ≠ some t.index

theorem spared_of_not_mem {plan : Plan} {t : Track}
    (h : t.index ∉ removedBy (planEffect plan).removals) : Spared plan t := by
  intro a ha hop hindex
  apply h
  apply List.mem_filterMap.mpr
  exact ⟨a, List.mem_filter.mpr ⟨ha, by simp [isRemoval, hop]⟩, hindex⟩

/-- Where a plan comes from, and what its actions and violations are. -/
theorem plan_effect {capabilities : Option CapabilityMap}
    {phaseOutputLookup : Option (String → Option PhaseOutput)} {plan : Plan}
    (hplan : plan ∈ evaluateWithPhaseOutputs env newId policy file capabilities phaseOutputLookup)
    (hrun : plan.isSkipped = false) :
    ∃ phase, policy.phases.find? (·.name = plan.phaseName) = some phase ∧
      plan.phaseName = phase.name ∧
      ∃ seen : Plan, plan = applyContainerSafeguard file seen ∧
        planEffect seen =
          (phaseEffect env file ⟨capabilities, phaseOutputLookup⟩ phase).guarded file phase.name := by
  obtain ⟨name, id, outcomes, phase, hfind, rfl⟩ := mem_evaluatePhases hplan
  obtain ⟨seen, hname, -, heffect, heq⟩ := evaluatePhase_guarded hrun
  have hphase := List.find?_some hfind
  have hplanName : (evaluatePhase env file ⟨capabilities, phaseOutputLookup⟩ policy id outcomes
      phase).phaseName = phase.name := by
    rw [heq, applyContainerSafeguard_phaseName, hname]
  refine ⟨phase, ?_, hplanName, seen, heq, heffect⟩
  rw [hplanName, of_decide_eq_true hphase]
  exact hfind

/-- Every plan that is not skipped spares a video track if the file has one, and an audio
track if the file has one; and each removal the phase asked for that is not in the plan is
answered for by a violation. -/
theorem plans_keep_video_and_audio (env : EvalEnv) (newId : Nat → Uuid) (policy : CompiledPolicy)
    (file : MediaFile) (capabilities : Option CapabilityMap)
    (phaseOutputLookup : Option (String → Option PhaseOutput)) (plan : Plan)
    (hplan : plan ∈ evaluateWithPhaseOutputs env newId policy file capabilities phaseOutputLookup)
    (hrun : plan.isSkipped = false) :
    ((∃ t ∈ file.tracks, t.trackType.isVideo = true) →
      ∃ t ∈ file.tracks, t.trackType.isVideo = true ∧ Spared plan t) ∧
    ((∃ t ∈ file.tracks, t.trackType.isAudio = true) →
      ∃ t ∈ file.tracks, t.trackType.isAudio = true ∧ Spared plan t) ∧
    ∃ phase, policy.phases.find? (·.name = plan.phaseName) = some phase ∧
      ∀ a, plan.actions.count a <
          (requestedRemovals env file ⟨capabilities, phaseOutputLookup⟩ phase).count a →
        ∃ v ∈ plan.safeguardViolations, Answers file plan.phaseName a v := by
  obtain ⟨phase, hfind, hname, seen, rfl, heffect⟩ := plan_effect hplan hrun
  obtain ⟨violations, hfinal⟩ := applyContainerSafeguard_effect file seen
  rw [heffect] at hfinal
  generalize applyContainerSafeguard file seen = plan at *
  have hremovals : (planEffect plan).removals = _ := congrArg Effect.removals hfinal
  have hviolations : plan.safeguardViolations = _ := congrArg Effect.violations hfinal
  simp only at hremovals hviolations
  have hop : ∀ a ∈ (phaseEffect env file ⟨capabilities, phaseOutputLookup⟩ phase).removals,
      a.operation = .removeTrack := fun a ha => phaseEffect_operation ha
  refine ⟨fun hvideo => ?_, fun haudio => ?_, phase, hfind, fun a hlt => ?_⟩
  · obtain ⟨t, ht, hcheck, hout⟩ := guarded_keeps_video phase.name hop hvideo
    exact ⟨t, ht, hcheck, spared_of_not_mem (by rwa [hremovals])⟩
  · obtain ⟨t, ht, hcheck, hout⟩ := guarded_keeps_audio phase.name hop haudio
    exact ⟨t, ht, hcheck, spared_of_not_mem (by rwa [hremovals])⟩
  · have hmem : a ∈ requestedRemovals env file ⟨capabilities, phaseOutputLookup⟩ phase :=
      List.count_pos_iff.mp (Nat.zero_lt_of_lt hlt)
    have hremoval : isRemoval a = true := by
      simp [isRemoval, requestedRemovals_operation hmem]
    have hcount : plan.actions.count a = (planEffect plan).removals.count a :=
      (List.count_filter hremoval).symm
    rw [hcount, hremovals] at hlt
    rw [hviolations, hname]
    by_cases hrequest : (phaseEffect env file ⟨capabilities, phaseOutputLookup⟩ phase).removals.count
        a < (requestedRemovals env file ⟨capabilities, phaseOutputLookup⟩ phase).count a
    · -- taken back by the request that made it
      obtain ⟨v, hv, hkind, hvname⟩ := phaseEffect_retracts hrequest
      exact ⟨v, List.mem_append_left _ (guarded_violations_subset hv), hvname, Or.inl hkind⟩
    · -- taken back by one of the passes
      obtain ⟨v, hv, hanswers⟩ :=
        guarded_retracts (Nat.lt_of_lt_of_le hlt (Nat.le_of_not_lt hrequest))
      exact ⟨v, List.mem_append_left _ hv, hanswers⟩

/-- Library functions that are right for the texts and numbers used below. -/
def plainEnv : EvalEnv where
  toLowercase := toAsciiLowercase
  isMatch regex text := containsText text regex.pattern
  jsonToString _ := ""
  sub
    | .finite a, .finite b => .finite (a - b)
    | _, _ => .nan
  ofInt n := .finite n
  formatTenths _ := ""

/-- A film with two audio tracks. -/
def film : MediaFile :=
  { id := 0, path := ⟨["films", "film.avi"]⟩, container := .avi
    tracks :=
      [{ index := 0, trackType := .video, codec := "h264" },
       { index := 1, trackType := .audioMain, codec := "ac3", language := "eng" },
       { index := 2, trackType := .audioMain, codec := "ac3", language := "jpn" }] }

/-- Each of the two keeps leaves one audio track, together they leave none. -/
def twoKeeps : CompiledPhase :=
  { name := "languages"
    operations :=
      [.keep .audio (some (.langIn ["eng"])), .keep .audio (some (.langIn ["jpn"]))] }

/-- The policy of a single phase. -/
def onePhase (phase : CompiledPhase) : CompiledPolicy :=
  { name := "policy", phases := [phase], phaseOrder := [phase.name] }

def onePhasePlan (phase : CompiledPhase) : Plan :=
  evaluatePhase plainEnv film {} (onePhase phase) 0 [] phase

theorem mem_onePhasePlan (phase : CompiledPhase) :
    onePhasePlan phase ∈
      evaluateWithPhaseOutputs plainEnv id (onePhase phase) film none none := by
  simp [evaluateWithPhaseOutputs, evaluatePhases, onePhase, onePhasePlan]

theorem twoKeeps_spare_audio :
    (∃ t ∈ film.tracks, t.trackType.isAudio = true ∧ Spared (onePhasePlan twoKeeps) t) ∧
      ∃ v ∈ (onePhasePlan twoKeeps).safeguardViolations,
        Answers film "languages"
          (removeTrackAction .audio "does not match keep filter"
            { index := 2, trackType := .audioMain, codec := "ac3", language := "jpn" }) v := by
  have hmem := mem_onePhasePlan twoKeeps
  have hrun : (onePhasePlan twoKeeps).isSkipped = false := by decide
  have h := plans_keep_video_and_audio plainEnv id (onePhase twoKeeps) film none none
    (onePhasePlan twoKeeps) hmem hrun
  refine ⟨h.2.1 (by decide), ?_⟩
  obtain ⟨phase, hphase, hanswers⟩ := h.2.2
  have hfound : (onePhase twoKeeps).phases.find? (·.name = (onePhasePlan twoKeeps).phaseName) =
      some twoKeeps := by rfl
  cases hphase.symm.trans hfound
  exact hanswers _ (by decide)

/-! ## Containers -/

/-- Every conversion of the plan goes to a container that can hold what the plan leaves: the
tracks it does not remove, in the codec of their last transcode, and the tracks it makes. -/
def ContainerComplete (file : MediaFile) (plan : Plan) : Prop :=
  ∀ a ∈ plan.actions, ∀ container, containerOf a = some container →
    (∀ t ∈ file.tracks, Spared plan t →
      codecSupported container (codecAfter (plan.actions.filterMap transcodeOf) t) ≠ some false) ∧
    ∀ b ∈ plan.actions, ∀ made, synthesizedCodec b = some made →
      codecSupported container made.2 ≠ some false

theorem spared_iff {plan : Plan} {t : Track} :
    Spared plan t ↔ t.index ∉ removedBy (planEffect plan).removals := by
  refine ⟨fun h hmem => ?_, spared_of_not_mem⟩
  obtain ⟨a, ha, hindex⟩ := List.mem_filterMap.mp hmem
  have hremoval := List.mem_filter.mp ha
  exact h a hremoval.1 (by simpa [isRemoval] using hremoval.2) hindex

theorem containerComplete_iff (plan : Plan) :
    ContainerComplete file plan ↔
      ∀ container ∈ (planEffect plan).targets,
        CanHold container ((planEffect plan).codecsLeft file) := by
  simp only [ContainerComplete, CanHold, Effect.codecsLeft, spared_iff]
  constructor
  · rintro h container hcontainer codec hcodec
    obtain ⟨a, ha, hof⟩ := List.mem_filterMap.mp hcontainer
    obtain ⟨htracks, hmade⟩ := h a ha container hof
    cases List.mem_append.mp hcodec with
    | inl hleft =>
      obtain ⟨t, ht, rfl⟩ := List.mem_map.mp hleft
      have hmem := List.mem_filter.mp ht
      exact htracks t hmem.1 (by simpa using hmem.2)
    | inr hsynth =>
      obtain ⟨made, hin, rfl⟩ := List.mem_map.mp hsynth
      obtain ⟨b, hb, hcodecOf⟩ := List.mem_filterMap.mp hin
      exact hmade b hb made hcodecOf
  · intro h a ha container hof
    have hall := h container (List.mem_filterMap.mpr ⟨a, ha, hof⟩)
    constructor
    · intro t ht hspared
      apply hall
      apply List.mem_append_left
      exact List.mem_map.mpr ⟨t, List.mem_filter.mpr ⟨ht, by simpa using hspared⟩, rfl⟩
    · intro b hb made hcodecOf
      apply hall
      apply List.mem_append_right
      exact List.mem_map.mpr ⟨made, List.mem_filterMap.mpr ⟨b, hb, hcodecOf⟩, rfl⟩

variable (env file ctx) in
/-- The containers a phase asks for that are not the file's own, in order. -/
def containersAsked (phase : CompiledPhase) : List Container :=
  (performed env file ctx phase.onError phase.operations).flatMap (operationTargets file)

variable (env file ctx) in
/-- The codecs a phase leaves in the file. -/
def codecsLeftBy (phase : CompiledPhase) : List String :=
  ((phaseEffect env file ctx phase).guarded file phase.name).codecsLeft file

theorem phaseEffect_targets (phase : CompiledPhase) :
    (phaseEffect env file ctx phase).targets = containersAsked env file ctx phase := by
  have hrequests (rs : List RemovalRequest) : (requestsEffect file phase.name rs).targets = [] := by
    induction rs with
    | nil => rfl
    | cons r rest ih =>
      simp only [requestsEffect] at ih
      simp only [requestsEffect, List.map_cons, Effect.concat_cons, Effect.targets_append, ih,
        RemovalRequest.effect]
      split <;> rfl
  unfold phaseEffect containersAsked
  induction performed env file ctx phase.onError phase.operations with
  | nil => rfl
  | cons op rest ih => simp [operationEffect, ih, hrequests]

theorem guarded_targets (e : Effect) (phaseName : String) :
    (e.guarded file phaseName).targets = e.targets := by
  simp only [Effect.guarded, Effect.guardType]
  split <;> split <;> rfl

/-- The first container asked for cannot hold what the phase leaves, or all of them can. -/
def FirstContainerDecides (env : EvalEnv) (file : MediaFile) (ctx : EvalContext)
    (phase : CompiledPhase) : Prop :=
  ∀ first rest, containersAsked env file ctx phase = first :: rest →
    ¬CanHold first (codecsLeftBy env file ctx phase) ∨
      ∀ container ∈ rest, CanHold container (codecsLeftBy env file ctx phase)

/-- The conversions left in a plan are all possible exactly when the first container its phase
asks for decides for the others. -/
theorem container_safeguard_complete_iff (env : EvalEnv) (newId : Nat → Uuid)
    (policy : CompiledPolicy) (file : MediaFile) (capabilities : Option CapabilityMap)
    (phaseOutputLookup : Option (String → Option PhaseOutput)) (plan : Plan)
    (hplan : plan ∈ evaluateWithPhaseOutputs env newId policy file capabilities phaseOutputLookup)
    (hrun : plan.isSkipped = false) :
    ∃ phase, policy.phases.find? (·.name = plan.phaseName) = some phase ∧
      (ContainerComplete file plan ↔
        FirstContainerDecides env file ⟨capabilities, phaseOutputLookup⟩ phase) := by
  obtain ⟨phase, hfind, -, seen, rfl, heffect⟩ := plan_effect hplan hrun
  obtain ⟨violations, hfinal⟩ := applyContainerSafeguard_effect file seen
  refine ⟨phase, hfind, ?_⟩
  rw [containerComplete_iff, hfinal, heffect]
  have hleft (targets : List Container) (vs : List SafeguardViolation) :
      Effect.codecsLeft file
        { (phaseEffect env file ⟨capabilities, phaseOutputLookup⟩ phase).guarded file phase.name with
          targets := targets, violations := vs } =
        codecsLeftBy env file ⟨capabilities, phaseOutputLookup⟩ phase := rfl
  simp only [hleft, guarded_targets, phaseEffect_targets, FirstContainerDecides]
  cases containersAsked env file ⟨capabilities, phaseOutputLookup⟩ phase with
  | nil => simp
  | cons first rest =>
    simp only [List.head?_cons, Option.mem_def, Option.some.injEq, forall_eq', List.cons.injEq]
    by_cases hfirst : CanHold first (codecsLeftBy env file ⟨capabilities, phaseOutputLookup⟩ phase)
    · simp [hfirst]
    · simp [hfirst]

/-- Two conversions: the first container holds anything, the second does not hold h264. -/
def twoContainers : CompiledPhase :=
  { name := "containers", operations := [.setContainer .mkv, .setContainer .webm] }

theorem twoContainers_incomplete :
    ¬∀ plan ∈ evaluateWithPhaseOutputs plainEnv id (onePhase twoContainers) film none none,
      plan.isSkipped = false → ContainerComplete film plan := by
  intro h
  have hcomplete := h _ (mem_onePhasePlan twoContainers) (by decide)
  rw [containerComplete_iff] at hcomplete
  have hwebm := hcomplete .webm (by decide)
  revert hwebm
  decide

def oneContainer : CompiledPhase :=
  { name := "containers", operations := [.setContainer .webm] }

/-- A single conversion decides for itself. -/
theorem oneContainer_complete :
    ContainerComplete film (onePhasePlan oneContainer) := by
  obtain ⟨phase, hphase, hiff⟩ := container_safeguard_complete_iff plainEnv id
    (onePhase oneContainer) film none none (onePhasePlan oneContainer)
    (mem_onePhasePlan oneContainer) (by decide)
  apply hiff.mpr
  have hfound : (onePhase oneContainer).phases.find?
      (·.name = (onePhasePlan oneContainer).phaseName) = some oneContainer := by rfl
  cases hphase.symm.trans hfound
  intro first rest hasked
  have hone : containersAsked plainEnv film {} oneContainer = [.webm] := by rfl
  cases hasked.symm.trans hone
  exact Or.inr (by simp)

end

end Voom.Evaluator
