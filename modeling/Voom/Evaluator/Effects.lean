-- SUMMARY: What a phase does to its plan, read off its operations and the file alone.
import Voom.Evaluator.Evaluate

/-!
# Effects of a phase

The safeguards look at four things in a plan: its removals, its conversions, its transcodes
and its synthesised tracks. An operation appends to each of these, and to the violations, and
what it appends depends on the operation and the file, not on the plan so far. So the effect
of a phase can be written down without running it (`phaseEffect`), and a plan that was not
skipped shows exactly that effect (`emitOperations_adds`).
-/

namespace Voom.Evaluator

open Dsl

/-! ## Effects -/

def isRemoval (a : PlannedAction) : Bool := a.operation = .removeTrack

/-- What the safeguards see of a plan. -/
@[ext]
structure Effect where
  removals : List PlannedAction := []
  targets : List Container := []
  transcodes : List (Nat × String) := []
  synthesized : List (String × String) := []
  violations : List SafeguardViolation := []
  deriving DecidableEq

namespace Effect

instance : Append Effect where
  append e f :=
    { removals := e.removals ++ f.removals
      targets := e.targets ++ f.targets
      transcodes := e.transcodes ++ f.transcodes
      synthesized := e.synthesized ++ f.synthesized
      violations := e.violations ++ f.violations }

section

variable (e f g : Effect)

@[simp] theorem removals_append : (e ++ f).removals = e.removals ++ f.removals := rfl

@[simp] theorem targets_append : (e ++ f).targets = e.targets ++ f.targets := rfl

@[simp] theorem transcodes_append : (e ++ f).transcodes = e.transcodes ++ f.transcodes := rfl

@[simp] theorem synthesized_append : (e ++ f).synthesized = e.synthesized ++ f.synthesized := rfl

@[simp] theorem violations_append : (e ++ f).violations = e.violations ++ f.violations := rfl

@[simp] theorem append_nil : e ++ ({} : Effect) = e := by
  apply Effect.ext <;> simp

@[simp] theorem nil_append : ({} : Effect) ++ e = e := by
  apply Effect.ext <;> simp

theorem append_assoc : e ++ f ++ g = e ++ (f ++ g) := by
  apply Effect.ext <;> simp

end

/-- The effect of pushing actions. -/
def of (actions : List PlannedAction) : Effect :=
  { removals := actions.filter isRemoval
    targets := actions.filterMap containerOf
    transcodes := actions.filterMap transcodeOf
    synthesized := actions.filterMap synthesizedCodec }

/-- The operations the safeguards look at. -/
def watched : List OperationType :=
  [.removeTrack, .convertContainer, .transcodeVideo, .transcodeAudio, .synthesizeAudio]

theorem of_unwatched {actions : List PlannedAction}
    (h : ∀ a ∈ actions, a.operation ∉ watched) : of actions = {} := by
  have key : ∀ a ∈ actions, isRemoval a = false ∧ containerOf a = none ∧
      transcodeOf a = none ∧ synthesizedCodec a = none := by
    intro a ha
    have hw := h a ha
    cases a with
    | mk operation trackIndex parameters description checked =>
      cases operation <;>
        simp_all [watched, isRemoval, containerOf, transcodeOf, synthesizedCodec]
  apply Effect.ext
  · simpa [of] using fun a ha => (key a ha).1
  · simpa [of] using fun a ha => (key a ha).2.1
  · simpa [of] using fun a ha => (key a ha).2.2.1
  · simpa [of] using fun a ha => (key a ha).2.2.2
  · rfl

/-- The effects of a list, one after the other. -/
def concat : List Effect → Effect
  | [] => {}
  | e :: rest => e ++ concat rest

@[simp] theorem concat_nil : concat [] = {} := rfl

@[simp] theorem concat_cons (e : Effect) (rest : List Effect) :
    concat (e :: rest) = e ++ concat rest := rfl

theorem concat_append (es fs : List Effect) : concat (es ++ fs) = concat es ++ concat fs := by
  induction es with
  | nil => simp
  | cons e rest ih => simp [ih, append_assoc]

end Effect

/-- What the safeguards see of a plan as it stands. -/
def planEffect (plan : Plan) : Effect :=
  { Effect.of plan.actions with violations := plan.safeguardViolations }

/-- From one plan to the next the effect `e` was added, unless the phase is skipped. A phase
once skipped stays skipped. -/
structure Adds (plan plan' : Plan) (e : Effect) : Prop where
  phaseName : plan'.phaseName = plan.phaseName
  notSkipped : plan'.skipReason = none → plan.skipReason = none
  effect : plan'.skipReason = none → planEffect plan' = planEffect plan ++ e

namespace Adds

variable {plan plan' plan'' : Plan} {e f : Effect}

theorem refl (plan : Plan) : Adds plan plan {} :=
  ⟨rfl, id, fun _ => by simp⟩

theorem trans (h : Adds plan plan' e) (h' : Adds plan' plan'' f) : Adds plan plan'' (e ++ f) where
  phaseName := h'.phaseName.trans h.phaseName
  notSkipped hs := h.notSkipped (h'.notSkipped hs)
  effect hs := by
    rw [h'.effect hs, h.effect (h'.notSkipped hs), Effect.append_assoc]

theorem extend (plan : Plan) (actions : List PlannedAction) :
    Adds plan (plan.extend actions) (Effect.of actions) where
  phaseName := rfl
  notSkipped := id
  effect _ := by
    apply Effect.ext <;> simp [planEffect, Plan.extend, Effect.of]

/-- Pushing actions no safeguard looks at. -/
theorem unwatched (ops : List OperationType) {actions : List PlannedAction}
    (hops : ∀ op ∈ ops, op ∉ Effect.watched) (h : ∀ a ∈ actions, a.operation ∈ ops) :
    Adds plan (plan.extend actions) {} := by
  have hadds := extend plan actions
  rwa [Effect.of_unwatched fun a ha => hops _ (h a ha)] at hadds

/-- The same for a single action. -/
theorem unwatched_one (op : OperationType) {a : PlannedAction} (hop : op ∉ Effect.watched)
    (h : a.operation = op) : Adds plan (plan.extend [a]) {} := by
  apply unwatched [op]
  · simpa using hop
  · simpa using h

/-- The same for one kind of action, one a track. -/
theorem unwatched_map (op : OperationType) {tracks : List Track} {action : Track → PlannedAction}
    (hop : op ∉ Effect.watched) (h : ∀ t, (action t).operation = op) :
    Adds plan (plan.extend (tracks.map action)) {} := by
  apply unwatched [op]
  · simpa using hop
  · simpa using fun t _ => h t

theorem warn (plan : Plan) (message : String) : Adds plan (plan.warn message) {} :=
  ⟨rfl, id, fun _ => by simp [planEffect, Plan.warn]⟩

/-- A skip adds whatever is wanted: nothing is said of skipped plans. -/
theorem skip {reason : String} (hname : plan'.phaseName = plan.phaseName)
    (h : plan'.skipReason = some reason) : Adds plan plan' e :=
  ⟨hname, fun hs => by simp [h] at hs, fun hs => by simp [h] at hs⟩

end Adds

/-! ## Removal requests -/

section

variable (env : EvalEnv) (file : MediaFile) (ctx : EvalContext)

/-- The request is guarded and would leave none of its target's tracks. -/
def RemovalRequest.empties (r : RemovalRequest) : Bool :=
  r.guarded && !(tracksForTarget file r.target).isEmpty &&
    (tracksForTarget file r.target).all r.shouldRemove

def RemovalRequest.violation (r : RemovalRequest) (phaseName : String) : SafeguardViolation :=
  { kind := .allTracksRemoved
    message := s!"Safeguard: kept all {targetStr r.target} tracks in {file.fileName} — {r.why}"
    phaseName }

/-- A request that would empty its target is answered by a violation alone. -/
def RemovalRequest.effect (phaseName : String) (r : RemovalRequest) : Effect :=
  if r.empties file then { violations := [r.violation file phaseName] }
  else { removals := r.removals file }

theorem RemovalRequest.of_removals (r : RemovalRequest) :
    Effect.of (r.removals file) = { removals := r.removals file } := by
  apply Effect.ext
  · simp only [Effect.of, RemovalRequest.removals, List.filter_eq_self, List.forall_mem_map]
    exact fun t _ => rfl
  · simp only [Effect.of, RemovalRequest.removals, List.filterMap_map, List.filterMap_eq_nil_iff]
    exact fun t _ => rfl
  · simp only [Effect.of, RemovalRequest.removals, List.filterMap_map, List.filterMap_eq_nil_iff]
    exact fun t _ => rfl
  · simp only [Effect.of, RemovalRequest.removals, List.filterMap_map, List.filterMap_eq_nil_iff]
    exact fun t _ => rfl
  · rfl

theorem RemovalRequest.empties_iff (r : RemovalRequest)
    (h : (tracksForTarget file r.target).isEmpty = false) :
    r.empties file = true ↔
      (tracksForTarget file r.target).countP (fun t => !r.shouldRemove t) = 0 ∧
        r.guarded = true := by
  simp [RemovalRequest.empties, h, List.countP_eq_zero, and_comm]

theorem emitRemovals_adds (r : RemovalRequest) (plan : Plan) :
    Adds plan (emitRemovals file r plan) (r.effect file plan.phaseName) := by
  simp only [emitRemovals]
  cases hempty : (tracksForTarget file r.target).isEmpty with
  | true =>
    -- no track of the target: neither removals nor a violation
    have htracks : tracksForTarget file r.target = [] := List.isEmpty_iff.mp hempty
    have heffect : r.effect file plan.phaseName = {} := by
      simp [RemovalRequest.effect, RemovalRequest.empties, RemovalRequest.removals, htracks]
    rw [heffect]
    simpa using Adds.refl plan
  | false =>
    have hiff := RemovalRequest.empties_iff file r hempty
    simp only [Bool.false_eq_true, if_false]
    split
    · rename_i hguard
      have hempties := hiff.mpr hguard
      refine ⟨rfl, id, fun _ => ?_⟩
      apply Effect.ext <;>
        simp [RemovalRequest.effect, hempties, planEffect, recordSafeguard, Plan.warn,
          Plan.extend, Effect.of, RemovalRequest.violation]
    · rename_i hguard
      have hempties : r.empties file = false := by
        simpa using mt hiff.mp hguard
      have hadds := Adds.extend plan (r.removals file)
      rw [RemovalRequest.of_removals] at hadds
      simp only [RemovalRequest.effect, hempties]
      exact hadds

/-! ## Actions -/

/-- The request an action makes, if it is a keep or a remove. -/
def actionRequest : CompiledAction → Option RemovalRequest
  | .keep target filter => some (keepRequest env file ctx target filter)
  | .remove target filter => some (removeRequest env file ctx target filter)
  | _ => none

/-- The action ends in an error. -/
def actionFails : CompiledAction → Bool
  | .fail _ => true
  | .setLanguage _ _ value | .setTag _ value => (resolveValueOrField env file ctx value).isNone
  | _ => false

/-- The requests made by a list of actions, which ends at the first failure. -/
def requests : List CompiledAction → List RemovalRequest
  | [] => []
  | action :: rest =>
    (actionRequest env file ctx action).toList ++
      if actionFails env file ctx action then [] else requests rest

def requestsEffect (phaseName : String) (rs : List RemovalRequest) : Effect :=
  Effect.concat (rs.map (RemovalRequest.effect file phaseName))

theorem requestsEffect_append (phaseName : String) (rs ss : List RemovalRequest) :
    requestsEffect file phaseName (rs ++ ss) =
      requestsEffect file phaseName rs ++ requestsEffect file phaseName ss := by
  simp [requestsEffect, Effect.concat_append]

theorem emitSetTag_adds (tag : String) (value : CompiledValueOrField) (plan : Plan) :
    Adds plan (emitSetTag env file ctx tag value plan).1 {} := by
  unfold emitSetTag
  split
  · exact Adds.refl plan
  · exact Adds.unwatched_one .setContainerTag (by decide) rfl

theorem emitSetTag_error (tag : String) (value : CompiledValueOrField) (plan : Plan) :
    (emitSetTag env file ctx tag value plan).2.isSome =
      (resolveValueOrField env file ctx value).isNone := by
  unfold emitSetTag
  split <;> rename_i h <;> simp [h]

theorem emitFlagAction_adds (target : TrackTarget) (filter : Option CompiledFilter)
    (kind : FlagKind) (plan : Plan) :
    Adds plan (emitFlagAction env file ctx target filter kind plan) {} := by
  cases kind with
  | default => exact Adds.unwatched_map .setDefault (by decide) fun _ => rfl
  | forced => exact Adds.unwatched_map .setForced (by decide) fun _ => rfl

theorem emitSetLanguage_adds (target : TrackTarget) (filter : Option CompiledFilter)
    (value : CompiledValueOrField) (plan : Plan) :
    Adds plan (emitSetLanguage env file ctx target filter value plan).1 {} := by
  unfold emitSetLanguage
  split
  · exact Adds.refl plan
  · exact Adds.unwatched_map .setLanguage (by decide) fun _ => rfl

theorem emitAction_error (action : CompiledAction) (plan : Plan) :
    (emitAction env file ctx action plan).2.isSome = actionFails env file ctx action := by
  cases action with
  | skip phase => cases phase <;> rfl
  | setLanguage target filter value =>
    simp only [emitAction, actionFails, emitSetLanguage]
    split <;> rename_i h <;> simp [h]
  | setTag tag value => exact emitSetTag_error env file ctx tag value plan
  | keep target filter => rfl
  | remove target filter => rfl
  | warn message => rfl
  | fail message => rfl
  | setDefault target filter => rfl
  | setForced target filter => rfl

theorem emitAction_adds (action : CompiledAction) (plan : Plan) :
    Adds plan (emitAction env file ctx action plan).1
      (requestsEffect file plan.phaseName (actionRequest env file ctx action).toList) := by
  cases action with
  | keep target filter =>
    simpa [emitAction, emitKeep, emitRemove, actionRequest, requestsEffect] using
      emitRemovals_adds file (keepRequest env file ctx target filter) plan
  | remove target filter =>
    simpa [emitAction, emitKeep, emitRemove, actionRequest, requestsEffect] using
      emitRemovals_adds file (removeRequest env file ctx target filter) plan
  | skip phase => cases phase <;> exact Adds.skip rfl rfl
  | warn message => exact Adds.warn plan _
  | fail message => exact Adds.refl plan
  | setDefault target filter => exact emitFlagAction_adds env file ctx target filter .default plan
  | setForced target filter => exact emitFlagAction_adds env file ctx target filter .forced plan
  | setLanguage target filter value =>
    exact emitSetLanguage_adds env file ctx target filter value plan
  | setTag tag value => exact emitSetTag_adds env file ctx tag value plan

theorem emitActions_cons (action : CompiledAction) (rest : List CompiledAction) (plan : Plan) :
    emitActions env file ctx (action :: rest) plan =
      if actionFails env file ctx action then emitAction env file ctx action plan
      else emitActions env file ctx rest (emitAction env file ctx action plan).1 := by
  have herror := emitAction_error env file ctx action plan
  rw [emitActions]
  split
  · rename_i h
    simp [h] at herror
    simp [← herror, h]
  · rename_i h
    simp [h] at herror
    simp [← herror, h]

theorem emitActions_error (actions : List CompiledAction) (plan : Plan) :
    (emitActions env file ctx actions plan).2.isSome =
      actions.any (actionFails env file ctx) := by
  induction actions generalizing plan with
  | nil => rfl
  | cons action rest ih =>
    rw [emitActions_cons]
    split
    · rename_i h
      simp [emitAction_error, h]
    · rename_i h
      simp [ih, h]

theorem emitActions_adds (actions : List CompiledAction) (plan : Plan) :
    Adds plan (emitActions env file ctx actions plan).1
      (requestsEffect file plan.phaseName (requests env file ctx actions)) := by
  induction actions generalizing plan with
  | nil => exact Adds.refl plan
  | cons action rest ih =>
    have hfirst := emitAction_adds env file ctx action plan
    rw [emitActions_cons, requests]
    split
    · simpa using hfirst
    · have hrest := ih (emitAction env file ctx action plan).1
      rw [hfirst.phaseName] at hrest
      rw [requestsEffect_append]
      exact hfirst.trans hrest

theorem emitActions_append (actions rest : List CompiledAction) (plan : Plan) :
    emitActions env file ctx (actions ++ rest) plan =
      if actions.any (actionFails env file ctx) then emitActions env file ctx actions plan
      else emitActions env file ctx rest (emitActions env file ctx actions plan).1 := by
  induction actions generalizing plan with
  | nil => rfl
  | cons action more ih =>
    rw [List.cons_append, emitActions_cons, emitActions_cons]
    cases hfails : actionFails env file ctx action with
    | true => simp [hfails]
    | false => simp [hfails, ih]

/-! ## Operations -/

/-- The actions of the rules that apply, one rule after the other. -/
def rulesActions (mode : RulesMode) : List CompiledRule → List CompiledAction
  | [] => []
  | rule :: rest =>
    branch env file ctx rule.conditional ++
      if evaluateCondition env file ctx rule.conditional.condition ∧ mode = .first then []
      else rulesActions mode rest

theorem emitRules_eq (mode : RulesMode) (rules : List CompiledRule) (plan : Plan) :
    emitRules env file ctx mode rules plan =
      emitActions env file ctx (rulesActions env file ctx mode rules) plan := by
  induction rules generalizing plan with
  | nil => rfl
  | cons rule rest ih =>
    have herror := emitActions_error env file ctx (branch env file ctx rule.conditional) plan
    rw [emitRules, rulesActions, emitActions_append, ← herror]
    split
    · rename_i h
      simp [h]
    · rename_i plan' h
      simp only [h, Option.isSome_none, Bool.false_eq_true, if_false]
      split
      · rfl
      · exact ih plan'

/-- The actions an operation stands for, where it stands for actions at all. -/
def operationActions : CompiledOperation → List CompiledAction
  | .keep target filter => [.keep target filter]
  | .remove target filter => [.remove target filter]
  | .normalizeAudio target filter _ => [.keep target filter]
  | .setTag tag value => [.setTag tag value]
  | .conditional cond => branch env file ctx cond
  | .rules mode rules => rulesActions env file ctx mode rules
  | _ => []

def operationFails (op : CompiledOperation) : Bool :=
  (operationActions env file ctx op).any (actionFails env file ctx)

/-- The container an operation converts to. -/
def operationTargets : CompiledOperation → List Container
  | .setContainer target => if file.container ≠ target then [target] else []
  | _ => []

/-- The tracks an operation transcodes, each with its new codec. -/
def operationTranscodes : CompiledOperation → List (Nat × String)
  | .transcode .video codec settings =>
    (transcodeTracks file .video codec settings).map fun t => (t.index, codec)
  | .transcode .audio codec settings =>
    (transcodeTracks file .audio codec settings).map fun t => (t.index, codec)
  | .normalizeAudio .audio filter settings =>
    (normalizeTracks env file ctx filter settings).map fun t => (t.index, t.codec)
  | _ => []

/-- The track an operation makes, with its codec. -/
def operationSynthesized : CompiledOperation → List (String × String)
  | .synthesize synth =>
    if wantsSynthesis env file ctx synth then
      (synth.codec.map fun codec => (synth.name, codec)).toList
    else []
  | _ => []

def operationEffect (phaseName : String) (op : CompiledOperation) : Effect :=
  requestsEffect file phaseName (requests env file ctx (operationActions env file ctx op)) ++
    { targets := operationTargets file op
      transcodes := operationTranscodes env file ctx op
      synthesized := operationSynthesized env file ctx op }

theorem emitOperation_error (op : CompiledOperation) (plan : Plan) :
    (emitOperation env file ctx op plan).2.isSome = operationFails env file ctx op := by
  cases op with
  | setTag tag value =>
    simp only [operationFails, operationActions, actionFails, List.any_cons, List.any_nil,
      Bool.or_false]
    exact emitSetTag_error env file ctx tag value plan
  | conditional cond => exact emitActions_error env file ctx _ plan
  | rules mode rules =>
    simp only [emitOperation, emitRules_eq]
    exact emitActions_error env file ctx _ plan
  | _ => rfl

theorem operation_defaultsFirstPerLanguage (target : TrackTarget) (tracks : List Track)
    (seen : List String) :
    ∀ a ∈ defaultsFirstPerLanguage target tracks seen,
      a.operation ∈ [OperationType.setDefault, .clearDefault] := by
  induction tracks generalizing seen with
  | nil => simp [defaultsFirstPerLanguage]
  | cons track rest ih =>
    intro a ha
    rw [defaultsFirstPerLanguage, List.mem_append] at ha
    cases ha with
    | inl h =>
      split at h
      · simp [List.mem_singleton.mp h]
      · split at h
        · simp [List.mem_singleton.mp h]
        · simp at h
    | inr h => exact ih _ a h

theorem operation_defaultActions (default : CompiledDefault) :
    ∀ a ∈ defaultActions file default, a.operation ∈ [OperationType.setDefault, .clearDefault] := by
  unfold defaultActions
  split
  · exact List.forall_mem_map.mpr fun t _ => by simp
  · cases tracksForTarget file default.target with
    | nil => simp [defaultsFirst]
    | cons first rest =>
      simp only [defaultsFirst, List.forall_mem_append]
      constructor
      · split <;> simp
      · exact List.forall_mem_map.mpr fun t _ => by simp
  · exact operation_defaultsFirstPerLanguage _ _ _
  · exact List.forall_mem_map.mpr fun t _ => by simp

theorem emitSetDefaults_adds (defaults : List CompiledDefault) (plan : Plan) :
    Adds plan (emitSetDefaults file defaults plan) {} := by
  apply Adds.unwatched [.setDefault, .clearDefault] (by decide)
  intro a ha
  obtain ⟨default, -, ha⟩ := List.mem_flatMap.mp ha
  exact operation_defaultActions file default a ha

theorem emitClearActions_adds (target : TrackTarget) (settings : ClearActionsSettings)
    (plan : Plan) : Adds plan (emitClearActions file target settings plan) {} := by
  apply Adds.unwatched [.clearDefault, .clearForced, .setTitle] (by decide)
  intro a ha
  obtain ⟨track, -, ha⟩ := List.mem_flatMap.mp ha
  simp only [List.mem_append] at ha
  rcases ha with (h | h) | h
  all_goals
    split at h
    · simp [List.mem_singleton.mp h]
    · simp at h

theorem emitSetContainer_adds (target : Container) (plan : Plan) :
    Adds plan (emitSetContainer file target plan)
      { targets := operationTargets file (.setContainer target) } := by
  simp only [emitSetContainer, operationTargets]
  split
  · exact Adds.extend plan _
  · exact Adds.refl plan

theorem emitClearTags_adds (plan : Plan) : Adds plan (emitClearTags file plan) {} := by
  unfold emitClearTags
  split
  · exact Adds.refl plan
  · exact Adds.unwatched_one .clearContainerTags (by decide) rfl

theorem emitDeleteTag_adds (tag : String) (plan : Plan) :
    Adds plan (emitDeleteTag file tag plan) {} := by
  unfold emitDeleteTag
  split
  · exact Adds.unwatched_one .deleteContainerTag (by decide) rfl
  · exact Adds.refl plan

/-- Pushing transcodes, one a track. -/
theorem Adds.transcodes {plan : Plan} {tracks : List Track} {action : Track → PlannedAction}
    {codec : Track → String} (hwatched : ∀ t, isRemoval (action t) = false ∧
      containerOf (action t) = none ∧ synthesizedCodec (action t) = none)
    (h : ∀ t, transcodeOf (action t) = some (t.index, codec t)) :
    Adds plan (plan.extend (tracks.map action))
      { transcodes := tracks.map fun t => (t.index, codec t) } := by
  have hof : Effect.of (tracks.map action) =
      { transcodes := tracks.map fun t => (t.index, codec t) } := by
    apply Effect.ext
    · simpa [Effect.of] using fun t _ => (hwatched t).1
    · simpa [Effect.of] using fun t _ => (hwatched t).2.1
    · simp only [Effect.of, List.filterMap_map]
      rw [show transcodeOf ∘ action = some ∘ fun t => (t.index, codec t) from funext h,
        List.filterMap_eq_map]
    · simpa [Effect.of] using fun t _ => (hwatched t).2.2
    · rfl
  rw [← hof]
  exact Adds.extend plan _

theorem emitTranscode_adds (target : TrackTarget) (codec : String)
    (settings : CompiledTranscodeSettings) (plan : Plan) :
    Adds plan (emitTranscode file ctx target codec settings plan)
      { transcodes := operationTranscodes env file ctx (.transcode target codec settings) } := by
  unfold emitTranscode
  split
  · exact Adds.refl plan
  · exact Adds.refl plan
  · exact Adds.refl plan
  all_goals
    split
    · exact Adds.skip rfl rfl
    · exact Adds.transcodes (fun _ => ⟨rfl, rfl, rfl⟩) fun _ => rfl

theorem emitNormalizeAudio_adds (target : TrackTarget) (filter : Option CompiledFilter)
    (settings : LoudnessNormalization) (plan : Plan) :
    Adds plan (emitNormalizeAudio env file ctx target filter settings plan)
      { transcodes :=
          operationTranscodes env file ctx (.normalizeAudio target filter settings) } := by
  unfold emitNormalizeAudio
  cases target with
  | audio => exact Adds.transcodes (fun _ => ⟨rfl, rfl, rfl⟩) fun _ => rfl
  | _ => exact Adds.refl plan

theorem emitSynthesize_adds (synth : CompiledSynthesize) (plan : Plan) :
    Adds plan (emitSynthesize env file ctx synth plan)
      { synthesized := operationSynthesized env file ctx (.synthesize synth) } := by
  simp only [emitSynthesize, operationSynthesized]
  split
  · have hof : Effect.of [synthesizeAction env file ctx synth] =
        { synthesized := (synth.codec.map fun codec => (synth.name, codec)).toList } := by
      apply Effect.ext
      · rfl
      · rfl
      · rfl
      · cases hcodec : synth.codec <;>
          simp [Effect.of, synthesizeAction, synthesizedCodec, synthesizeParams, hcodec]
      · rfl
    rw [← hof]
    exact Adds.extend plan _
  · exact Adds.refl plan

theorem emitOperation_adds (op : CompiledOperation) (plan : Plan) :
    Adds plan (emitOperation env file ctx op plan).1
      (operationEffect env file ctx plan.phaseName op) := by
  have hactions (actions : List CompiledAction) := emitActions_adds env file ctx actions plan
  unfold operationEffect
  cases op with
  | setContainer target =>
    exact emitSetContainer_adds file target plan
  | keep target filter => exact (hactions [.keep target filter]).trans (Adds.refl _)
  | remove target filter => exact (hactions [.remove target filter]).trans (Adds.refl _)
  | reorderTracks order => exact Adds.unwatched_one .reorderTracks (by decide) rfl
  | setDefaults defaults => exact emitSetDefaults_adds file defaults plan
  | clearActions target settings => exact emitClearActions_adds file target settings plan
  | transcode target codec settings =>
    exact emitTranscode_adds env file ctx target codec settings plan
  | normalizeAudio target filter settings =>
    exact (hactions [.keep target filter]).trans
      (emitNormalizeAudio_adds env file ctx target filter settings _)
  | synthesize synth => exact emitSynthesize_adds env file ctx synth plan
  | clearTags => exact emitClearTags_adds file plan
  | setTag tag value =>
    have htag := emitSetTag_adds env file ctx tag value plan
    have hnone : requests env file ctx [.setTag tag value] = [] := by
      simp [requests, actionRequest]
    simpa [operationActions, hnone, requestsEffect, operationTargets, operationTranscodes,
      operationSynthesized, emitOperation] using htag
  | deleteTag tag => exact emitDeleteTag_adds file tag plan
  | conditional cond => exact (hactions (branch env file ctx cond)).trans (Adds.refl _)
  | rules mode rules =>
    simp only [emitOperation, emitRules_eq]
    exact (hactions (rulesActions env file ctx mode rules)).trans (Adds.refl _)
  | verify mode => exact Adds.unwatched_one .verifyMedia (by decide) rfl

/-! ## Phases -/

/-- The operations a phase gets to: all of them, or up to the first that fails. -/
def performed (onError : ErrorStrategy) : List CompiledOperation → List CompiledOperation
  | [] => []
  | op :: rest =>
    op :: if operationFails env file ctx op ∧ onError ≠ .continue then [] else performed onError rest

/-- What a phase does to its plan. -/
def phaseEffect (phase : CompiledPhase) : Effect :=
  Effect.concat ((performed env file ctx phase.onError phase.operations).map
    (operationEffect env file ctx phase.name))

theorem emitOperations_adds (onError : ErrorStrategy) (ops : List CompiledOperation)
    (plan : Plan) :
    Adds plan (emitOperations env file ctx onError ops plan)
      (Effect.concat ((performed env file ctx onError ops).map
        (operationEffect env file ctx plan.phaseName))) := by
  induction ops generalizing plan with
  | nil => exact Adds.refl plan
  | cons op rest ih =>
    have hop := emitOperation_adds env file ctx op plan
    have herror := emitOperation_error env file ctx op plan
    rw [emitOperations, performed]
    split
    · rename_i plan' h
      simp only [h, Option.isSome_none] at hop herror
      have hrest := ih plan'
      rw [hop.phaseName] at hrest
      simpa [← herror] using hop.trans hrest
    · rename_i plan' error h
      simp only [h, Option.isSome_some] at hop herror
      cases onError with
      | abort => simpa [← herror] using hop.trans (Adds.warn plan' _)
      | quarantine => simpa [← herror] using hop.trans (Adds.warn plan' _)
      | skip => exact Adds.skip hop.phaseName rfl
      | «continue» =>
        have hwarn := Adds.warn plan' s!"Error (continuing): {error.toText}"
        have hrest := ih (plan'.warn s!"Error (continuing): {error.toText}")
        rw [hwarn.phaseName, hop.phaseName] at hrest
        simpa [← herror] using hop.trans (hwarn.trans hrest)

end

end Voom.Evaluator
