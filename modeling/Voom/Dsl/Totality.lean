-- SUMMARY: When the compiler succeeds on a policy that the validator accepts.
import Voom.Dsl.Validator
import Voom.Lib.Outcome

/-!
# Totality of compilation

The validator and the compiler walk the same tree. A filter compiles when the regex engine
accepts its patterns, a condition when moreover its track targets are known, and the
validator asks for both, at every node it visits.
-/

namespace Voom.Dsl

open Lib

/-! ## What the compiler needs of a tree -/

mutual

/-- The patterns of the `title matches` filters. -/
def FilterNode.patterns : FilterNode → List String
  | .titleMatches pattern => [pattern]
  | .and items => filterPatterns items
  | .or items => filterPatterns items
  | .not inner => inner.patterns
  | .langIn _ | .langCompare _ _ | .langField _ _ | .codecIn _ | .codecCompare _ _
  | .codecField _ _ | .channels _ _ | .commentary | .forced | .default | .font
  | .titleContains _ => []

def filterPatterns : List FilterNode → List String
  | [] => []
  | item :: rest => item.patterns ++ filterPatterns rest

end

def optionalPatterns (filter : Option FilterNode) : List String :=
  (filter.map FilterNode.patterns).getD []

mutual

def ConditionNode.patterns : ConditionNode → List String
  | .exists query => optionalPatterns query.filter
  | .count query _ _ => optionalPatterns query.filter
  | .and items => conditionPatterns items
  | .or items => conditionPatterns items
  | .not inner => inner.patterns
  | .fieldCompare _ _ _ | .fieldExists _ | .audioIsMultiLanguage | .isDubbed | .isOriginal => []

def conditionPatterns : List ConditionNode → List String
  | [] => []
  | item :: rest => item.patterns ++ conditionPatterns rest

end

mutual

/-- The track targets of a condition. -/
def ConditionNode.targets : ConditionNode → List String
  | .exists query => [query.target]
  | .count query _ _ => [query.target]
  | .and items => conditionTargets items
  | .or items => conditionTargets items
  | .not inner => inner.targets
  | .fieldCompare _ _ _ | .fieldExists _ | .audioIsMultiLanguage | .isDubbed | .isOriginal => []

def conditionTargets : List ConditionNode → List String
  | [] => []
  | item :: rest => item.targets ++ conditionTargets rest

end

def trackTargets : List String :=
  ["video", "audio", "subtitle", "subtitles", "attachment", "attachments", "track"]

/-- The regex engine accepts each of some patterns. -/
def PatternsOk (env : CompileEnv) (patterns : List String) : Prop :=
  ∀ pattern ∈ patterns, Succeeds (env.regexNew pattern)

section
variable {env : CompileEnv}

@[simp] theorem patternsOk_nil : PatternsOk env [] := fun _ h => absurd h List.not_mem_nil

@[simp] theorem patternsOk_append {ps qs : List String} :
    PatternsOk env (ps ++ qs) ↔ PatternsOk env ps ∧ PatternsOk env qs := by
  simp only [PatternsOk, List.mem_append]
  constructor
  · exact fun h => ⟨fun p hp => h p (.inl hp), fun p hp => h p (.inr hp)⟩
  · rintro ⟨hp, hq⟩ p (h | h)
    · exact hp p h
    · exact hq p h

@[simp] theorem patternsOk_singleton {p : String} :
    PatternsOk env [p] ↔ Succeeds (env.regexNew p) := by
  simp [PatternsOk]

/-! ## The compiler -/

theorem compileRegex_succeeds {pattern : String} :
    Succeeds (compileRegex env pattern) ↔ Succeeds (env.regexNew pattern) := by
  unfold compileRegex
  cases env.regexNew pattern with
  | error e => simp
  | ok u => simp

mutual

theorem compileFilter_succeeds :
    (filter : FilterNode) → (Succeeds (compileFilter env filter) ↔ PatternsOk env filter.patterns)
  | .titleMatches pattern => by
    simp only [compileFilter, FilterNode.patterns, patternsOk_singleton]
    rw [Succeeds.bind_pure_iff, compileRegex_succeeds]
  | .and items => by
    simp only [compileFilter, FilterNode.patterns]
    rw [Succeeds.bind_pure_iff, compileFilters_succeeds items]
  | .or items => by
    simp only [compileFilter, FilterNode.patterns]
    rw [Succeeds.bind_pure_iff, compileFilters_succeeds items]
  | .not inner => by
    simp only [compileFilter, FilterNode.patterns]
    rw [Succeeds.bind_pure_iff, compileFilter_succeeds inner]
  | .langIn _ | .langCompare _ _ | .langField _ _ | .codecIn _ | .codecCompare _ _
  | .codecField _ _ | .channels _ _ | .commentary | .forced | .default | .font
  | .titleContains _ => by simp [compileFilter, FilterNode.patterns]

theorem compileFilters_succeeds :
    (items : List FilterNode) →
      (Succeeds (compileFilters env items) ↔ PatternsOk env (filterPatterns items))
  | [] => by simp [compileFilters, filterPatterns]
  | item :: rest => by
    simp only [compileFilters, filterPatterns, patternsOk_append]
    rw [Succeeds.bind_iff (fun _ => Succeeds.bind_pure_iff), compileFilter_succeeds item,
      compileFilters_succeeds rest]

end

theorem compileOptionalFilter_succeeds {filter : Option FilterNode} :
    Succeeds (compileOptionalFilter env filter) ↔ PatternsOk env (optionalPatterns filter) := by
  cases filter with
  | none => simp [compileOptionalFilter, optionalPatterns]
  | some filter => simp [compileOptionalFilter, optionalPatterns, compileFilter_succeeds]

theorem parseTrackTarget_succeeds {target : String} :
    Succeeds (parseTrackTarget target) ↔ target ∈ trackTargets := by
  unfold parseTrackTarget
  split
  · simp [trackTargets]
  · simp [trackTargets]
  · simp [trackTargets]
  · simp [trackTargets]
  · simp [trackTargets]
  · simp [trackTargets]
  · simp [trackTargets]
  · simp_all [trackTargets]

mutual

theorem compileCondition_succeeds :
    (condition : ConditionNode) →
      (Succeeds (compileCondition env condition) ↔
        (∀ target ∈ condition.targets, target ∈ trackTargets) ∧
          PatternsOk env condition.patterns)
  | .exists query => by
    simp only [compileCondition, ConditionNode.targets, ConditionNode.patterns]
    rw [Succeeds.bind_iff (fun _ => Succeeds.bind_pure_iff), parseTrackTarget_succeeds,
      compileOptionalFilter_succeeds]
    simp
  | .count query op n => by
    simp only [compileCondition, ConditionNode.targets, ConditionNode.patterns]
    rw [Succeeds.bind_iff (fun _ => Succeeds.bind_pure_iff), parseTrackTarget_succeeds,
      compileOptionalFilter_succeeds]
    simp
  | .and items => by
    simp only [compileCondition, ConditionNode.targets, ConditionNode.patterns]
    rw [Succeeds.bind_pure_iff, compileConditions_succeeds items]
  | .or items => by
    simp only [compileCondition, ConditionNode.targets, ConditionNode.patterns]
    rw [Succeeds.bind_pure_iff, compileConditions_succeeds items]
  | .not inner => by
    simp only [compileCondition, ConditionNode.targets, ConditionNode.patterns]
    rw [Succeeds.bind_pure_iff, compileCondition_succeeds inner]
  | .fieldCompare _ _ _ | .fieldExists _ | .audioIsMultiLanguage | .isDubbed | .isOriginal => by
    simp [compileCondition, ConditionNode.targets, ConditionNode.patterns]

theorem compileConditions_succeeds :
    (items : List ConditionNode) →
      (Succeeds (compileConditions env items) ↔
        (∀ target ∈ conditionTargets items, target ∈ trackTargets) ∧
          PatternsOk env (conditionPatterns items))
  | [] => by simp [compileConditions, conditionTargets, conditionPatterns]
  | item :: rest => by
    simp only [compileConditions, conditionTargets, conditionPatterns, patternsOk_append,
      List.forall_mem_append]
    rw [Succeeds.bind_iff (fun _ => Succeeds.bind_pure_iff), compileCondition_succeeds item,
      compileConditions_succeeds rest]
    tauto

end

/-! ## The validator -/

@[simp] theorem errorUnless_eq_nil {condition : Bool} {span : Span} {message : String} :
    errorUnless condition span message = [] ↔ condition = true := by
  unfold errorUnless
  split
  · simp_all
  · simp_all

variable {phaseNames : List String} {span : Span}

mutual

theorem patternsOk_of_validateFilter :
    (filter : FilterNode) → validateFilter env phaseNames span filter = [] →
      PatternsOk env filter.patterns
  | .titleMatches pattern => by
    intro h
    rw [validateFilter, validateRegex, errorUnless_eq_nil, Succeeds.isOk_iff] at h
    simpa [FilterNode.patterns] using h
  | .and items => by
    intro h
    exact patternsOk_of_validateFilters items (by simpa [validateFilter] using h)
  | .or items => by
    intro h
    exact patternsOk_of_validateFilters items (by simpa [validateFilter] using h)
  | .not inner => by
    intro h
    exact patternsOk_of_validateFilter inner (by simpa [validateFilter] using h)
  | .langIn _ | .langCompare _ _ | .langField _ _ | .codecIn _ | .codecCompare _ _
  | .codecField _ _ | .channels _ _ | .commentary | .forced | .default | .font
  | .titleContains _ => by simp [FilterNode.patterns]

theorem patternsOk_of_validateFilters :
    (items : List FilterNode) → validateFilters env phaseNames span items = [] →
      PatternsOk env (filterPatterns items)
  | [] => by simp [filterPatterns]
  | item :: rest => by
    intro h
    rw [validateFilters, List.append_eq_nil_iff] at h
    rw [filterPatterns, patternsOk_append]
    exact ⟨patternsOk_of_validateFilter item h.1, patternsOk_of_validateFilters rest h.2⟩

end

theorem tracksOk_of_validateTracks {target : String} {filter : Option FilterNode}
    (h : validateTracks env phaseNames span target filter = []) :
    target ∈ trackTargets ∧ PatternsOk env (optionalPatterns filter) := by
  rw [validateTracks, List.append_eq_nil_iff] at h
  refine ⟨?_, ?_⟩
  · simpa [validateTrackTarget, trackTargets] using h.1
  · cases filter with
    | none => simp [optionalPatterns]
    | some filter => exact patternsOk_of_validateFilter filter h.2

mutual

theorem conditionOk_of_validateCondition :
    (condition : ConditionNode) → validateCondition env phaseNames span condition = [] →
      (∀ target ∈ condition.targets, target ∈ trackTargets) ∧ PatternsOk env condition.patterns
  | .exists query => by
    intro h
    simpa [ConditionNode.targets, ConditionNode.patterns] using tracksOk_of_validateTracks h
  | .count query _ _ => by
    intro h
    simpa [ConditionNode.targets, ConditionNode.patterns] using tracksOk_of_validateTracks h
  | .and items => by
    intro h
    exact conditionsOk_of_validateConditions items (by simpa [validateCondition] using h)
  | .or items => by
    intro h
    exact conditionsOk_of_validateConditions items (by simpa [validateCondition] using h)
  | .not inner => by
    intro h
    exact conditionOk_of_validateCondition inner (by simpa [validateCondition] using h)
  | .fieldCompare _ _ _ | .fieldExists _ | .audioIsMultiLanguage | .isDubbed | .isOriginal => by
    simp [ConditionNode.targets, ConditionNode.patterns]

theorem conditionsOk_of_validateConditions :
    (items : List ConditionNode) → validateConditions env phaseNames span items = [] →
      (∀ target ∈ conditionTargets items, target ∈ trackTargets) ∧
        PatternsOk env (conditionPatterns items)
  | [] => by simp [conditionTargets, conditionPatterns]
  | item :: rest => by
    intro h
    rw [validateConditions, List.append_eq_nil_iff] at h
    have hitem := conditionOk_of_validateCondition item h.1
    have hrest := conditionsOk_of_validateConditions rest h.2
    rw [conditionTargets, conditionPatterns, patternsOk_append, List.forall_mem_append]
    exact ⟨⟨hitem.1, hrest.1⟩, hitem.2, hrest.2⟩

end

/-! ## Where the two agree -/

/-- Validated tracks compile, whatever is made of them. -/
theorem tracks_succeed {α : Type} {target : String} {filter : Option FilterNode}
    {make : TrackTarget → Option CompiledFilter → α}
    (h : validateTracks env phaseNames span target filter = []) :
    Succeeds (do
      let target ← parseTrackTarget target
      let filter ← compileOptionalFilter env filter
      return make target filter) := by
  obtain ⟨htarget, hfilter⟩ := tracksOk_of_validateTracks h
  rw [Succeeds.bind_iff (fun _ => Succeeds.bind_pure_iff), parseTrackTarget_succeeds,
    compileOptionalFilter_succeeds]
  exact ⟨htarget, hfilter⟩

theorem compileAction_succeeds {action : ActionNode}
    (h : validateAction env phaseNames span action = []) :
    Succeeds (compileAction env action) := by
  cases action with
  | keep target filter => exact tracks_succeed h
  | remove target filter => exact tracks_succeed h
  | skip phase => simp [compileAction]
  | warn message => simp [compileAction]
  | fail message => simp [compileAction]
  | setDefault track => exact tracks_succeed h
  | setForced track => exact tracks_succeed h
  | setLanguage track value =>
    rw [validateAction, List.append_eq_nil_iff] at h
    exact tracks_succeed h.1
  | setTag tag value => simp [compileAction]

theorem compileConditional_succeeds {node : WhenNode}
    (h : validateWhen env phaseNames node = []) : Succeeds (compileConditional env node) := by
  rw [validateWhen, List.append_eq_nil_iff, List.append_eq_nil_iff] at h
  obtain ⟨⟨hcondition, hthen⟩, helse⟩ := h
  rw [compileConditional, Succeeds.bind_iff
    (fun _ => Succeeds.bind_iff (fun _ => Succeeds.bind_pure_iff)), compileCondition_succeeds,
    Succeeds.mapM_iff, Succeeds.mapM_iff]
  refine ⟨conditionOk_of_validateCondition _ hcondition, ?_, ?_⟩
  · exact fun action haction =>
      compileAction_succeeds (List.flatMap_eq_nil_iff.mp hthen action haction)
  · exact fun action haction =>
      compileAction_succeeds (List.flatMap_eq_nil_iff.mp helse action haction)

theorem compileNormalize_succeeds {setting : NormalizeSetting} :
    Succeeds (compileNormalize setting) ↔ (LoudnessPreset.parse setting.preset).isSome := by
  unfold compileNormalize
  cases LoudnessPreset.parse setting.preset with
  | none => simp
  | some preset => simp

/-- A `create_if` condition that compiles. The validator does not look at it. -/
def SynthSetting.CreateIfOk (env : CompileEnv) : SynthSetting → Prop
  | .createIf condition =>
    (∀ target ∈ condition.targets, target ∈ trackTargets) ∧ PatternsOk env condition.patterns
  | _ => True

theorem compileSynthSetting_succeeds {setting : SynthSetting}
    (h : validateSynthSetting env phaseNames span setting = []) (synth : CompiledSynthesize) :
    Succeeds (compileSynthSetting env synth setting) ↔ setting.CreateIfOk env := by
  cases setting with
  | source filter =>
    simp only [compileSynthSetting, SynthSetting.CreateIfOk, iff_true]
    rw [Succeeds.bind_pure_iff, compileFilter_succeeds]
    exact patternsOk_of_validateFilter filter h
  | skipIfExists filter =>
    simp only [compileSynthSetting, SynthSetting.CreateIfOk, iff_true]
    rw [Succeeds.bind_pure_iff, compileFilter_succeeds]
    exact patternsOk_of_validateFilter filter h
  | createIf condition =>
    simp only [compileSynthSetting, SynthSetting.CreateIfOk]
    rw [Succeeds.bind_pure_iff, compileCondition_succeeds]
  | normalize setting =>
    simp only [compileSynthSetting, SynthSetting.CreateIfOk, iff_true]
    rw [validateSynthSetting, validateNormalizeSetting, List.append_eq_nil_iff,
      errorUnless_eq_nil] at h
    rw [Succeeds.bind_pure_iff, compileNormalize_succeeds]
    exact h.1
  | codec name => simp [compileSynthSetting, SynthSetting.CreateIfOk]
  | channels value => simp [compileSynthSetting, SynthSetting.CreateIfOk]
  | bitrate text => simp [compileSynthSetting, SynthSetting.CreateIfOk]
  | title text => simp [compileSynthSetting, SynthSetting.CreateIfOk]
  | language text => simp [compileSynthSetting, SynthSetting.CreateIfOk]
  | position value => simp [compileSynthSetting, SynthSetting.CreateIfOk]

/-- The parts of an operation that the validator passes over compile: the `create_if` of a
synthesize block and the preset of a normalize block of `keep`. -/
def OperationNode.UncheckedOk (env : CompileEnv) : OperationNode → Prop
  | .synthesize _ settings => ∀ setting ∈ settings, setting.CreateIfOk env
  | .keep _ _ (some setting) => (LoudnessPreset.parse setting.preset).isSome
  | _ => True

theorem compileOperation_succeeds {op : OperationNode}
    (h : validateOperation env phaseNames op span = []) :
    Succeeds (compileOperation env op) ↔ op.UncheckedOk env := by
  cases op with
  | container name =>
    have hknown : Container.fromExtension name ≠ .other := by
      simpa [validateOperation] using h
    simp [compileOperation, hknown, OperationNode.UncheckedOk]
  | keep target filter normalize =>
    obtain ⟨htarget, hfilter⟩ := tracksOk_of_validateTracks h
    cases normalize with
    | none =>
      have hok : Succeeds (compileOperation env (.keep target filter none)) := tracks_succeed h
      simp [hok, OperationNode.UncheckedOk]
    | some setting =>
      simp only [compileOperation, OperationNode.UncheckedOk]
      rw [Succeeds.bind_iff (fun _ => Succeeds.bind_iff (fun _ => Succeeds.bind_pure_iff)),
        parseTrackTarget_succeeds, compileOptionalFilter_succeeds, compileNormalize_succeeds]
      simp [htarget, hfilter]
  | remove target filter =>
    have hok : Succeeds (compileOperation env (.remove target filter)) := tracks_succeed h
    simp [hok, OperationNode.UncheckedOk]
  | order items => simp [compileOperation, OperationNode.UncheckedOk]
  | defaults items =>
    simp only [compileOperation, OperationNode.UncheckedOk, iff_true]
    rw [Succeeds.bind_pure_iff, Succeeds.mapM_iff]
    intro item hitem
    have hkind := List.flatMap_eq_nil_iff.mp h item hitem
    rw [validateDefault, List.append_eq_nil_iff, errorUnless_eq_nil] at hkind
    rw [compileDefault, Succeeds.bind_pure_iff, parseTrackTarget_succeeds]
    have hcases : item.1 = "audio" ∨ item.1 = "subtitle" := by simpa using hkind.1
    rcases hcases with heq | heq
    · simp [heq, trackTargets]
    · simp [heq, trackTargets]
  | actions target settings =>
    rw [validateOperation, List.append_eq_nil_iff, validateTrackTarget, errorUnless_eq_nil] at h
    simp only [compileOperation, OperationNode.UncheckedOk, iff_true]
    rw [Succeeds.bind_pure_iff, parseTrackTarget_succeeds]
    simpa [trackTargets] using h.1
  | transcode target codec settings =>
    simp only [validateOperation, validateTranscodeOperation, List.append_eq_nil_iff,
      validateTrackTarget, errorUnless_eq_nil] at h
    simp only [compileOperation, OperationNode.UncheckedOk, iff_true]
    rw [Succeeds.bind_pure_iff, parseTrackTarget_succeeds]
    simpa [trackTargets] using h.1.1.1.1.1.1
  | synthesize name settings =>
    simp only [compileOperation, OperationNode.UncheckedOk, compileSynthesize]
    rw [Succeeds.bind_pure_iff]
    apply Succeeds.foldlM_iff
    intro setting hsetting synth
    exact compileSynthSetting_succeeds (List.flatMap_eq_nil_iff.mp h setting hsetting) synth
  | clearTags => simp [compileOperation, OperationNode.UncheckedOk]
  | setTag tag value => simp [compileOperation, OperationNode.UncheckedOk]
  | deleteTag tag => simp [compileOperation, OperationNode.UncheckedOk]
  | when node =>
    simp only [compileOperation, OperationNode.UncheckedOk, iff_true]
    rw [Succeeds.bind_pure_iff]
    exact compileConditional_succeeds h
  | rules mode rules =>
    rw [validateOperation, List.append_eq_nil_iff, errorUnless_eq_nil] at h
    simp only [compileOperation, OperationNode.UncheckedOk, iff_true]
    rw [Succeeds.bind_iff (fun _ => Succeeds.bind_pure_iff), Succeeds.mapM_iff]
    refine ⟨?_, ?_⟩
    · intro rule hrule
      rw [compileRule, Succeeds.bind_pure_iff]
      exact compileConditional_succeeds (List.flatMap_eq_nil_iff.mp h.2 rule hrule)
    · have hcases : mode = "first" ∨ mode = "all" := by simpa using h.1
      rcases hcases with rfl | rfl
      · exact ⟨.first, rfl⟩
      · exact ⟨.all, rfl⟩
  | verify mode => simp [compileOperation, OperationNode.UncheckedOk]

theorem compilePhase_succeeds {phase : PhaseNode} {composition : Option PhaseComposition}
    (h : validatePhase env phaseNames phase = []) :
    Succeeds (compilePhase env phase composition) ↔
      ∀ op ∈ phase.operations, op.node.UncheckedOk env := by
  simp only [validatePhase, List.append_eq_nil_iff, errorUnless_eq_nil] at h
  obtain ⟨⟨⟨⟨hextend, hskip⟩, hops⟩, -⟩, -⟩ := h
  have hextend : phase.extend = false := by simpa using hextend
  have hcondition : Succeeds (compileOptionalCondition env phase.skipWhen) := by
    unfold validateSkipWhen at hskip
    cases hwhen : phase.skipWhen with
    | none => simp [compileOptionalCondition]
    | some condition =>
      simp only [hwhen] at hskip
      simp only [compileOptionalCondition, Succeeds.map_iff, compileCondition_succeeds]
      exact conditionOk_of_validateCondition condition hskip
  simp only [compilePhase, hextend, Bool.false_eq_true, ↓reduceIte]
  rw [Succeeds.bind_iff (fun _ => Succeeds.bind_pure_iff), Succeeds.mapM_iff]
  simp only [hcondition, true_and]
  apply forall₂_congr
  intro op hop
  exact compileOperation_succeeds (List.flatMap_eq_nil_iff.mp hops op hop)

end

/-! ## Whole policies -/

theorem nodup_of_duplicateNames {seen : List String} {phases : List PhaseNode}
    (h : duplicateNames seen phases = []) :
    (phases.map (·.name)).Nodup ∧ ∀ phase ∈ phases, phase.name ∉ seen := by
  induction phases generalizing seen with
  | nil => simp
  | cons phase rest ih =>
    rw [duplicateNames, List.append_eq_nil_iff, errorUnless_eq_nil] at h
    obtain ⟨hfirst, hrest⟩ := h
    obtain ⟨hnodup, hfresh⟩ := ih hrest
    have hfirst : phase.name ∉ seen := by simpa using hfirst
    refine ⟨?_, ?_⟩
    · rw [List.map_cons, List.nodup_cons]
      refine ⟨?_, hnodup⟩
      intro hmem
      obtain ⟨other, hother, heq⟩ := List.mem_map.mp hmem
      exact hfresh other hother (heq ▸ List.mem_cons_self)
    · rw [List.forall_mem_cons]
      refine ⟨hfirst, ?_⟩
      exact fun other hother hseen => hfresh other hother (List.mem_cons_of_mem _ hseen)

/-- What `validate` says of the phase graph, and of each phase, when it accepts. -/
structure Validated (env : CompileEnv) (ast : PolicyAst) : Prop where
  distinct : ast.phaseNames.Nodup
  dependencies : ∀ phase ∈ ast.phases, dependsOnErrors ast phase = []
  triggers : ∀ phase ∈ ast.phases, runIfErrors ast phase = []
  acyclic : validateCycleDetection ast = []
  phases : ∀ phase ∈ ast.phases, validatePhase env ast.phaseNames phase = []

theorem validated_of_validate {env : CompileEnv} {ast : PolicyAst}
    (h : validate env ast = .ok ()) : Validated env ast := by
  have herrors : validationErrors env ast = [] := by
    simp only [validate] at h
    split at h
    · assumption
    · cases h
  simp only [validationErrors, List.append_eq_nil_iff, validatePhaseReferences,
    List.flatMap_eq_nil_iff] at herrors
  obtain ⟨⟨⟨⟨⟨-, hnames⟩, hreferences⟩, hcycles⟩, -⟩, hphases⟩ := herrors
  exact {
    distinct := (nodup_of_duplicateNames hnames).1
    dependencies := fun phase hphase => (hreferences phase hphase).1
    triggers := fun phase hphase => (hreferences phase hphase).2
    acyclic := hcycles
    phases := hphases }

theorem Validated.topologicalSort_succeeds {env : CompileEnv} {ast : PolicyAst}
    (h : Validated env ast) (partition : PartitionPoint) :
    Succeeds (topologicalSort partition ast) := by
  have hacc := validateCycleDetection_eq_nil_iff.mp h.acyclic
  refine (topologicalSort_ok_iff partition h.distinct).mpr ⟨?_, hacc⟩
  intro phase hphase d hd
  exact (dependsOnErrors_eq_nil_iff.mp (h.dependencies phase hphase) d hd).1

theorem compileAst_succeeds {env : CompileEnv} (partition : PartitionPoint) {ast : PolicyAst}
    (h : validate env ast = .ok ()) :
    Succeeds (compileAst env partition ast) ↔
      ∀ phase ∈ ast.phases, ∀ op ∈ phase.operations, op.node.UncheckedOk env := by
  have hvalid := validated_of_validate h
  rw [compileAst, compileAstWithComposition,
    Succeeds.bind_iff (fun _ => Succeeds.bind_pure_iff), Succeeds.mapM_iff,
    Succeeds.mapError_iff]
  simp only [hvalid.topologicalSort_succeeds partition, and_true]
  apply forall₂_congr
  intro phase hphase
  exact compilePhase_succeeds (hvalid.phases phase hphase)

/-- A policy that validates compiles exactly when the parts the validator passes over do: the
`create_if` conditions of synthesize blocks and the presets of normalize blocks of `keep`. -/
theorem compile_succeeds_iff_unchecked_parts_do (env : CompileEnv) (partition : PartitionPoint)
    {ast : PolicyAst} (h : validate env ast = .ok ()) :
    (∃ policy, compileAst env partition ast = .ok policy) ↔
      ∀ phase ∈ ast.phases, ∀ op ∈ phase.operations, op.node.UncheckedOk env :=
  compileAst_succeeds partition h

/-- A regex engine as far as the examples go: it rejects one unclosed group. -/
def oneBadPattern : CompileEnv where
  regexNew pattern :=
    if pattern = "(" then .error "regex parse error:\n    (\n    ^\nerror: unclosed group" else .ok ()
  debugValue _ := ""

/-- A policy of one phase that synthesizes an audio track if there is one whose title matches a
pattern: `policy "p" { phase a { synthesize "s" { create_if exists(audio where title matches
"(") } } }` for the pattern `(`, on one line. -/
def createIfTitleMatches (pattern : String) : PolicyAst where
  name := "p"
  phases := [
    { name := "a"
      operations := [
        { node := .synthesize "s" [.createIf (.exists ⟨"audio", some (.titleMatches pattern)⟩)]
          span := ⟨23, 89, 1, 24⟩ }]
      span := ⟨13, 91, 1, 14⟩ }]
  span := ⟨0, 93, 1, 1⟩

theorem createIf_with_good_pattern_compiles :
    validate oneBadPattern (createIfTitleMatches "a") = .ok () ∧
      ∃ policy,
        compileAst oneBadPattern linearPartitionPoint (createIfTitleMatches "a") = .ok policy := by
  have hvalid : validate oneBadPattern (createIfTitleMatches "a") = .ok () := by decide
  refine ⟨hvalid, (compile_succeeds_iff_unchecked_parts_do _ _ hvalid).mpr ?_⟩
  simp [createIfTitleMatches, OperationNode.UncheckedOk, SynthSetting.CreateIfOk,
    ConditionNode.targets, ConditionNode.patterns, optionalPatterns, FilterNode.patterns,
    trackTargets, oneBadPattern]

/-- The validator accepts a `create_if` condition with a pattern that does not compile. -/
theorem createIf_with_bad_pattern_fails :
    validate oneBadPattern (createIfTitleMatches "(") = .ok () ∧
      compileAst oneBadPattern linearPartitionPoint (createIfTitleMatches "(") =
        .error (.error (.compile
          "invalid regex pattern '(': regex parse error:\n    (\n    ^\nerror: unclosed group")) := by
  refine ⟨by decide, rfl⟩

end Voom.Dsl
