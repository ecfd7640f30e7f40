-- SUMMARY: The filters and conditions of a policy, before and after compilation, and the operators they compare with.
import Mathlib.Data.List.Forall2
import Voom.Dsl.Compiler
import Voom.Lib.Outcome

/-!
# Guards

A guard is a filter on tracks or a condition on a file. The guards of a compiled policy are the
guards of the syntax tree, each compiled, in their order; of the settings of a synthesized track
the last of a kind counts.
-/

namespace Voom.Dsl

open Lib

/-- What a comparison of a guard is about. -/
inductive Compared where
  | lang | codec | channels | count | field
  deriving DecidableEq, Repr

/-! ## Guards of the syntax tree -/

inductive GuardNode where
  | filter (filter : FilterNode)
  | condition (condition : ConditionNode)

mutual

/-- The comparisons of a filter, with their operators. -/
def FilterNode.comparisons : FilterNode → List (Compared × CompareOp)
  | .langCompare op _ | .langField op _ => [(.lang, op)]
  | .codecCompare op _ | .codecField op _ => [(.codec, op)]
  | .channels op _ => [(.channels, op)]
  | .and items | .or items => filterComparisons items
  | .not inner => inner.comparisons
  | .langIn _ | .codecIn _ | .commentary | .forced | .default | .font | .titleContains _
  | .titleMatches _ => []

def filterComparisons : List FilterNode → List (Compared × CompareOp)
  | [] => []
  | item :: rest => item.comparisons ++ filterComparisons rest

end

def queryComparisons (filter : Option FilterNode) : List (Compared × CompareOp) :=
  (filter.map FilterNode.comparisons).getD []

mutual

def ConditionNode.comparisons : ConditionNode → List (Compared × CompareOp)
  | .exists query => queryComparisons query.filter
  | .count query op _ => queryComparisons query.filter ++ [(.count, op)]
  | .fieldCompare _ op _ => [(.field, op)]
  | .and items | .or items => conditionComparisons items
  | .not inner => inner.comparisons
  | .fieldExists _ | .audioIsMultiLanguage | .isDubbed | .isOriginal => []

def conditionComparisons : List ConditionNode → List (Compared × CompareOp)
  | [] => []
  | item :: rest => item.comparisons ++ conditionComparisons rest

end

def GuardNode.comparisons : GuardNode → List (Compared × CompareOp)
  | .filter tested => tested.comparisons
  | .condition tested => tested.comparisons

def filterGuard (filter : Option FilterNode) : List GuardNode := filter.toList.map .filter

def ActionNode.guards : ActionNode → List GuardNode
  | .keep _ filter | .remove _ filter => filterGuard filter
  | .setDefault track | .setForced track | .setLanguage track _ => filterGuard track.filter
  | .skip _ | .warn _ | .fail _ | .setTag _ _ => []

def WhenNode.guards (node : WhenNode) : List GuardNode :=
  .condition node.condition ::
    (node.thenActions.flatMap ActionNode.guards ++ node.elseActions.flatMap ActionNode.guards)

namespace SynthSetting

def source? : SynthSetting → Option FilterNode
  | .source filter => some filter
  | _ => none

def skipIfExists? : SynthSetting → Option FilterNode
  | .skipIfExists filter => some filter
  | _ => none

def createIf? : SynthSetting → Option ConditionNode
  | .createIf condition => some condition
  | _ => none

end SynthSetting

/-- The last setting of a kind. -/
def lastSetting {α : Type} (kind : SynthSetting → Option α) (settings : List SynthSetting) :
    Option α :=
  (settings.filterMap kind).getLast?

def synthGuards (settings : List SynthSetting) : List GuardNode :=
  filterGuard (lastSetting SynthSetting.source? settings) ++
    filterGuard (lastSetting SynthSetting.skipIfExists? settings) ++
    (lastSetting SynthSetting.createIf? settings).toList.map .condition

def OperationNode.guards : OperationNode → List GuardNode
  | .keep _ filter _ | .remove _ filter => filterGuard filter
  | .synthesize _ settings => synthGuards settings
  | .when node => node.guards
  | .rules _ items => items.flatMap fun rule => rule.when.guards
  | .container _ | .order _ | .defaults _ | .actions _ _ | .transcode _ _ _ | .clearTags
  | .setTag _ _ | .deleteTag _ | .verify _ => []

def PhaseNode.guards (phase : PhaseNode) : List GuardNode :=
  phase.skipWhen.toList.map .condition ++ phase.operations.flatMap fun op => op.node.guards

def PolicyAst.guards (ast : PolicyAst) : List GuardNode := ast.phases.flatMap PhaseNode.guards

/-! ## Guards of a compiled policy -/

inductive CompiledGuard where
  | filter (filter : CompiledFilter)
  | condition (condition : CompiledCondition)

mutual

def CompiledFilter.comparisons : CompiledFilter → List (Compared × CompiledCompareOp)
  | .langCompare op _ | .langField op _ => [(.lang, op)]
  | .codecCompare op _ | .codecField op _ => [(.codec, op)]
  | .channels op _ => [(.channels, op)]
  | .and items | .or items => compiledFilterComparisons items
  | .not inner => inner.comparisons
  | .langIn _ | .codecIn _ | .commentary | .forced | .default | .font | .titleContains _
  | .titleMatches _ => []

def compiledFilterComparisons : List CompiledFilter → List (Compared × CompiledCompareOp)
  | [] => []
  | item :: rest => item.comparisons ++ compiledFilterComparisons rest

end

def compiledQueryComparisons (filter : Option CompiledFilter) :
    List (Compared × CompiledCompareOp) :=
  (filter.map CompiledFilter.comparisons).getD []

mutual

def CompiledCondition.comparisons : CompiledCondition → List (Compared × CompiledCompareOp)
  | .exists _ filter => compiledQueryComparisons filter
  | .count _ filter op _ => compiledQueryComparisons filter ++ [(.count, op)]
  | .fieldCompare _ op _ => [(.field, op)]
  | .and items | .or items => compiledConditionComparisons items
  | .not inner => inner.comparisons
  | .fieldExists _ | .audioIsMultiLanguage | .isDubbed | .isOriginal => []

def compiledConditionComparisons :
    List CompiledCondition → List (Compared × CompiledCompareOp)
  | [] => []
  | item :: rest => item.comparisons ++ compiledConditionComparisons rest

end

def CompiledGuard.comparisons : CompiledGuard → List (Compared × CompiledCompareOp)
  | .filter tested => tested.comparisons
  | .condition tested => tested.comparisons

def compiledFilterGuard (filter : Option CompiledFilter) : List CompiledGuard :=
  filter.toList.map .filter

def CompiledAction.guards : CompiledAction → List CompiledGuard
  | .keep _ filter | .remove _ filter | .setDefault _ filter | .setForced _ filter
  | .setLanguage _ filter _ => compiledFilterGuard filter
  | .skip _ | .warn _ | .fail _ | .setTag _ _ => []

def CompiledConditional.guards (conditional : CompiledConditional) : List CompiledGuard :=
  .condition conditional.condition ::
    (conditional.thenActions.flatMap CompiledAction.guards ++
      conditional.elseActions.flatMap CompiledAction.guards)

def CompiledSynthesize.guards (synth : CompiledSynthesize) : List CompiledGuard :=
  compiledFilterGuard synth.source ++ compiledFilterGuard synth.skipIfExists ++
    synth.createIf.toList.map .condition

def CompiledOperation.guards : CompiledOperation → List CompiledGuard
  | .keep _ filter | .remove _ filter | .normalizeAudio _ filter _ => compiledFilterGuard filter
  | .synthesize synth => synth.guards
  | .conditional node => node.guards
  | .rules _ items => items.flatMap fun rule => rule.conditional.guards
  | .setContainer _ | .reorderTracks _ | .setDefaults _ | .clearActions _ _ | .transcode _ _ _
  | .clearTags | .setTag _ _ | .deleteTag _ | .verify _ => []

def CompiledPhase.guards (phase : CompiledPhase) : List CompiledGuard :=
  phase.skipWhen.toList.map .condition ++ phase.operations.flatMap CompiledOperation.guards

def CompiledPolicy.guards (policy : CompiledPolicy) : List CompiledGuard :=
  policy.phases.flatMap CompiledPhase.guards

/-! ## Compiling a guard -/

section

variable {env : CompileEnv}

variable (env) in
/-- A guard compiles to another. -/
inductive CompilesTo : GuardNode → CompiledGuard → Prop where
  | filter {node : FilterNode} {compiled : CompiledFilter}
      (h : compileFilter env node = .ok compiled) : CompilesTo (.filter node) (.filter compiled)
  | condition {node : ConditionNode} {compiled : CompiledCondition}
      (h : compileCondition env node = .ok compiled) :
      CompilesTo (.condition node) (.condition compiled)

/-- The operator of a comparison, compiled. -/
def compileComparison (comparison : Compared × CompareOp) : Compared × CompiledCompareOp :=
  (comparison.1, compileCompareOp comparison.2)

mutual

theorem compileFilter_comparisons : (node : FilterNode) →
    Yields (fun compiled => compiled.comparisons = node.comparisons.map compileComparison)
      (compileFilter env node)
  | .and items | .or items => by
    rw [compileFilter]
    refine (compileFilters_comparisons items).bind fun inner hinner => ?_
    exact .pure hinner
  | .not node => by
    rw [compileFilter]
    refine (compileFilter_comparisons node).bind fun inner hinner => ?_
    exact .pure hinner
  | .titleMatches pattern => by
    rw [compileFilter]
    exact .step fun regex => .pure rfl
  | .langIn _ | .langCompare _ _ | .langField _ _ | .codecIn _ | .codecCompare _ _ | .codecField _ _
  | .channels _ _ | .commentary | .forced | .default | .font | .titleContains _ => by
    rw [compileFilter]
    exact .ok rfl

theorem compileFilters_comparisons : (nodes : List FilterNode) →
    Yields (fun compiled =>
        compiledFilterComparisons compiled = (filterComparisons nodes).map compileComparison)
      (compileFilters env nodes)
  | [] => .ok rfl
  | node :: rest => by
    refine (compileFilter_comparisons node).bind fun first hfirst => ?_
    refine (compileFilters_comparisons rest).bind fun others hothers => .pure ?_
    rw [filterComparisons, List.map_append, ← hfirst, ← hothers]
    rfl

end

theorem compileOptionalFilter_comparisons (filter : Option FilterNode) :
    Yields (fun compiled =>
        compiledQueryComparisons compiled = (queryComparisons filter).map compileComparison)
      (compileOptionalFilter env filter) := by
  cases filter with
  | none => exact .ok rfl
  | some node => exact .map (compileFilter_comparisons node)

mutual

theorem compileCondition_comparisons : (node : ConditionNode) →
    Yields (fun compiled => compiled.comparisons = node.comparisons.map compileComparison)
      (compileCondition env node)
  | .exists query => by
    rw [compileCondition]
    refine .step fun target => ?_
    refine (compileOptionalFilter_comparisons query.filter).bind fun filter hfilter => ?_
    exact .pure hfilter
  | .count query op n => by
    rw [compileCondition]
    refine .step fun target => ?_
    refine (compileOptionalFilter_comparisons query.filter).bind fun filter hfilter => .pure ?_
    rw [CompiledCondition.comparisons, ConditionNode.comparisons, List.map_append, hfilter]
    rfl
  | .and items | .or items => by
    rw [compileCondition]
    refine (compileConditions_comparisons items).bind fun inner hinner => ?_
    exact .pure hinner
  | .not node => by
    rw [compileCondition]
    refine (compileCondition_comparisons node).bind fun inner hinner => ?_
    exact .pure hinner
  | .fieldCompare _ _ _ | .fieldExists _ | .audioIsMultiLanguage | .isDubbed | .isOriginal => by
    rw [compileCondition]
    exact .ok rfl

theorem compileConditions_comparisons : (nodes : List ConditionNode) →
    Yields (fun compiled =>
        compiledConditionComparisons compiled = (conditionComparisons nodes).map compileComparison)
      (compileConditions env nodes)
  | [] => .ok rfl
  | node :: rest => by
    refine (compileCondition_comparisons node).bind fun first hfirst => ?_
    refine (compileConditions_comparisons rest).bind fun others hothers => .pure ?_
    rw [conditionComparisons, List.map_append, ← hfirst, ← hothers]
    rfl

end

/-- Compilation keeps the comparisons of a guard. -/
theorem CompilesTo.comparisons {node : GuardNode} {compiled : CompiledGuard}
    (h : CompilesTo env node compiled) :
    compiled.comparisons = node.comparisons.map compileComparison := by
  cases h with
  | filter h => exact compileFilter_comparisons _ _ h
  | condition h => exact compileCondition_comparisons _ _ h

/-! ## The guards of a policy, compiled -/

variable (env) in
/-- The guards of what a part compiles to are those of the part, compiled. -/
def CompilesGuards {β : Type} (guards : List GuardNode) (compiledGuards : β → List CompiledGuard)
    (x : Except CompileFailure β) : Prop :=
  Yields (fun compiled => List.Forall₂ (CompilesTo env) guards (compiledGuards compiled)) x

/-- What a loop makes of each item has its guards, if each round compiles those of its item. -/
theorem guards_of_mapM {α β : Type} {f : α → Except CompileFailure β} {items : List α}
    {guards : α → List GuardNode} {compiledGuards : β → List CompiledGuard}
    (hround : ∀ item, CompilesGuards env (guards item) compiledGuards (f item)) :
    CompilesGuards env (items.flatMap guards) (List.flatMap compiledGuards) (items.mapM f) := by
  intro results h
  have hrounds := mapM_eq_ok.mp h
  clear h
  induction hrounds with
  | nil => exact .nil
  | cons hfirst _ ih =>
    rw [List.flatMap_cons, List.flatMap_cons]
    exact List.rel_append (hround _ _ hfirst) ih

theorem guards_of_filter (filter : Option FilterNode) :
    CompilesGuards env (filterGuard filter) compiledFilterGuard
      (compileOptionalFilter env filter) := by
  cases filter with
  | none => exact .ok .nil
  | some node => exact .map fun inner h => .cons (.filter h) .nil

theorem guards_of_condition (condition : Option ConditionNode) :
    CompilesGuards env (condition.toList.map .condition)
      (fun compiled => compiled.toList.map .condition)
      (compileOptionalCondition env condition) := by
  cases condition with
  | none => exact .ok .nil
  | some node => exact .map fun inner h => .cons (.condition h) .nil

theorem compileAction_guards (node : ActionNode) :
    CompilesGuards env node.guards CompiledAction.guards (compileAction env node) := by
  cases node with
  | keep target filter | remove target filter | setDefault track | setForced track
  | setLanguage track value =>
    refine .step fun target => (guards_of_filter _).bind fun inner hinner => ?_
    exact .pure hinner
  | skip phase | warn message | fail message | setTag tag value => exact .ok .nil

theorem compileConditional_guards (node : WhenNode) :
    CompilesGuards env node.guards CompiledConditional.guards (compileConditional env node) := by
  refine (Yields.self _).bind fun condition hcondition => ?_
  refine (guards_of_mapM compileAction_guards).bind fun thenActions hthen => ?_
  refine (guards_of_mapM compileAction_guards).bind fun elseActions helse => .pure ?_
  exact .cons (.condition hcondition) (List.rel_append hthen helse)

/-- What a synthesized track has from its settings so far. -/
structure SynthGuarded (env : CompileEnv) (settings : List SynthSetting)
    (synth : CompiledSynthesize) : Prop where
  source : List.Forall₂ (CompilesTo env) (filterGuard (lastSetting SynthSetting.source? settings))
    (compiledFilterGuard synth.source)
  skipIfExists : List.Forall₂ (CompilesTo env)
    (filterGuard (lastSetting SynthSetting.skipIfExists? settings))
    (compiledFilterGuard synth.skipIfExists)
  createIf : List.Forall₂ (CompilesTo env)
    ((lastSetting SynthSetting.createIf? settings).toList.map .condition)
    (synth.createIf.toList.map .condition)

theorem lastSetting_concat {α : Type} (kind : SynthSetting → Option α)
    (settings : List SynthSetting) (setting : SynthSetting) :
    lastSetting kind (settings ++ [setting]) = (kind setting).or (lastSetting kind settings) := by
  unfold lastSetting
  rw [List.filterMap_append]
  cases hkind : kind setting with
  | none => simp [hkind]
  | some a => simp [hkind]

/-- One more setting replaces what is there of its kind, and nothing else. -/
theorem SynthGuarded.step {settings : List SynthSetting} {setting : SynthSetting}
    {synth synth' : CompiledSynthesize} (hguarded : SynthGuarded env settings synth)
    (h : compileSynthSetting env synth setting = .ok synth') :
    SynthGuarded env (settings ++ [setting]) synth' := by
  obtain ⟨hsource, hskip, hcreate⟩ := hguarded
  constructor
  all_goals
    rw [lastSetting_concat]
    cases setting with
    | source filter | skipIfExists filter | createIf condition =>
      obtain ⟨inner, hinner, h⟩ := bind_eq_ok.mp h
      obtain rfl := Except.ok.inj h
      first
        | exact .cons (.filter hinner) .nil
        | exact .cons (.condition hinner) .nil
        | assumption
    | normalize setting =>
      obtain ⟨inner, -, h⟩ := bind_eq_ok.mp h
      obtain rfl := Except.ok.inj h
      assumption
    | codec name | channels value | bitrate text | title text | language text | position value =>
      obtain rfl := Except.ok.inj h
      assumption

theorem compileSynthesize_guards (name : String) (settings : List SynthSetting) :
    CompilesGuards env (synthGuards settings) CompiledSynthesize.guards
      (compileSynthesize env name settings) := by
  intro synth h
  have hguarded : SynthGuarded env settings synth := by
    unfold compileSynthesize at h
    induction settings using List.reverseRecOn generalizing synth with
    | nil =>
      obtain rfl := Except.ok.inj h
      exact ⟨.nil, .nil, .nil⟩
    | append_singleton settings setting ih =>
      rw [List.foldlM_append] at h
      obtain ⟨before, hbefore, h⟩ := bind_eq_ok.mp h
      obtain ⟨after, hafter, h⟩ := bind_eq_ok.mp h
      obtain rfl := Except.ok.inj h
      exact (ih before hbefore).step hafter
  apply List.rel_append
  · exact List.rel_append hguarded.source hguarded.skipIfExists
  · exact hguarded.createIf

theorem compileRule_guards (rule : RuleNode) :
    CompilesGuards env rule.when.guards (fun rule => rule.conditional.guards)
      (compileRule env rule) := by
  refine (compileConditional_guards rule.when).bind fun conditional h => ?_
  exact .pure h

theorem compileOperation_guards (node : OperationNode) :
    CompilesGuards env node.guards CompiledOperation.guards (compileOperation env node) := by
  cases node with
  | container name =>
    rw [compileOperation]
    split
    · exact .error _
    · exact .ok .nil
  | keep target filter normalize =>
    refine .step fun target => (guards_of_filter filter).bind fun inner hinner => ?_
    cases normalize with
    | none => exact .pure hinner
    | some setting => exact .step fun settings => .pure hinner
  | remove target filter =>
    refine .step fun target => (guards_of_filter filter).bind fun inner hinner => ?_
    exact .pure hinner
  | synthesize name settings =>
    refine (compileSynthesize_guards name settings).bind fun synth hsynth => ?_
    exact .pure hsynth
  | when node =>
    refine (compileConditional_guards node).bind fun conditional h => ?_
    exact .pure h
  | rules mode rules =>
    refine (guards_of_mapM compileRule_guards).bind fun compiledRules hrules => ?_
    exact .step fun mode => .pure hrules
  | defaults items | actions target settings | transcode target codec settings =>
    exact .step fun made => .pure .nil
  | order items | clearTags | setTag tag value | deleteTag tag | verify mode => exact .ok .nil

theorem compilePhase_guards (phase : PhaseNode) (composition : Option PhaseComposition) :
    CompilesGuards env phase.guards CompiledPhase.guards (compilePhase env phase composition) := by
  unfold compilePhase
  split
  · exact .error _
  · refine (guards_of_condition phase.skipWhen).bind fun skipWhen hskip => ?_
    refine (guards_of_mapM fun op : SpannedOperation => compileOperation_guards op.node).bind
      fun operations hoperations => ?_
    exact .pure (List.rel_append hskip hoperations)

/-- The guards of a compiled policy are those of its syntax tree, compiled. -/
theorem compileAstWithComposition_guards {partition : PartitionPoint} {ast : PolicyAst}
    {chain : List String} {sources : String → Option PhaseComposition} {policy : CompiledPolicy}
    (h : compileAstWithComposition env partition ast chain sources = .ok policy) :
    List.Forall₂ (CompilesTo env) ast.guards policy.guards := by
  obtain ⟨phases, hphases, h⟩ := bind_eq_ok.mp h
  obtain ⟨order, -, h⟩ := bind_eq_ok.mp h
  obtain rfl := Except.ok.inj h
  exact guards_of_mapM (fun phase => compilePhase_guards phase _) phases hphases

end

end Voom.Dsl
