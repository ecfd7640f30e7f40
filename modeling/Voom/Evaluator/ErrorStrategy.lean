-- SUMMARY: Which error strategy a phase follows, and what its plan looks like when an operation fails.
import Voom.Dsl.Totality
import Voom.Evaluator.Applied

/-!
# Error strategies

The strategy of a phase is decided by the compiler, from the `on_error` of the phase alone;
what the `config` block says is compiled and not looked at again. The loop over the
operations follows the compiled strategy.
-/

namespace Voom.Evaluator

open Dsl

/-- The strategy a phase should have: its own, that of the `config` block, or abort. -/
def effectiveStrategy (ast : PolicyAst) (node : PhaseNode) : ErrorStrategy :=
  (node.onError.map compileErrorStrategy).getD (compileConfig ast.config).onError

/-- The phase states its strategy, or there is nothing else than abort to fall back to. -/
def StatesStrategy (ast : PolicyAst) (node : PhaseNode) : Prop :=
  node.onError.isSome = true ∨ (compileConfig ast.config).onError = .abort

section

variable {cenv : CompileEnv} {partition : PartitionPoint} {ast : PolicyAst}
  {chain : List String} {sources : String → Option PhaseComposition} {policy : CompiledPolicy}

theorem compilePhase_onError {node : PhaseNode} {composition : Option PhaseComposition}
    {phase : CompiledPhase} (h : compilePhase cenv node composition = .ok phase) :
    phase.onError = (node.onError.map compileErrorStrategy).getD .abort := by
  unfold compilePhase at h
  split at h
  · cases h
  · obtain ⟨skipWhen, -, h⟩ := Lib.bind_eq_ok.mp h
    obtain ⟨operations, -, h⟩ := Lib.bind_eq_ok.mp h
    obtain rfl := Except.ok.inj h
    rfl

theorem compiled_onError
    (h : compileAstWithComposition cenv partition ast chain sources = .ok policy) {i : Nat}
    {node : PhaseNode} {phase : CompiledPhase} (hnode : ast.phases[i]? = some node)
    (hphase : policy.phases[i]? = some phase) :
    phase.onError = (node.onError.map compileErrorStrategy).getD .abort := by
  obtain ⟨phases, hphases, h⟩ := Lib.bind_eq_ok.mp h
  obtain ⟨order, -, h⟩ := Lib.bind_eq_ok.mp h
  obtain rfl := Except.ok.inj h
  exact compilePhase_onError (Lib.mapM_getElem? hphases hnode hphase)

theorem strategy_eq_effective_iff (ast : PolicyAst) (node : PhaseNode) :
    (node.onError.map compileErrorStrategy).getD .abort = effectiveStrategy ast node ↔
      StatesStrategy ast node := by
  unfold effectiveStrategy StatesStrategy
  cases node.onError with
  | none => simp [eq_comm]
  | some strategy => simp

end

section

variable (env : EvalEnv) (file : MediaFile) (ctx : EvalContext)

/-- What a strategy promises of the plan of a phase in which an operation fails. -/
def Honours (policy : CompiledPolicy) (id : Uuid) (outcomes : List (String × EvaluationOutcome))
    (phase : CompiledPhase) : ErrorStrategy → Prop
  | .continue =>
    ∀ op ∈ phase.operations, operationFails env file ctx op = false →
      ∀ a ∈ operationPlans env file ctx op,
        a ∈ (evaluatePhase env file ctx policy id outcomes phase).actions
  | .abort | .quarantine =>
    ∀ before op after, phase.operations = before ++ op :: after →
      (∀ earlier ∈ before, operationFails env file ctx earlier = false) →
        operationFails env file ctx op = true →
          (evaluatePhase env file ctx policy id outcomes phase).actions.Sublist
            ((before ++ [op]).flatMap (operationPlans env file ctx))
  | .skip =>
    (evaluatePhase env file ctx policy id outcomes phase).isSkipped = true ∧
      (evaluatePhase env file ctx policy id outcomes phase).actions = []

/-- What an operation without its backend drops is planned again, by itself or after it. -/
def ReplansDropped (ops : List CompiledOperation) : Prop :=
  ∀ before dropper after, ops = before ++ dropper :: after → lacksBackend ctx dropper = true →
    ∀ op ∈ before, operationFails env file ctx op = false →
      ∀ a ∈ operationPlans env file ctx op,
        ∃ later ∈ dropper :: after, a ∈ operationPlans env file ctx later

/-- Where a compiled strategy keeps its promise. Under `continue` no safeguard takes an action
back; the plan of a phase that its operations skip goes past the safeguards, and there what
was dropped has to be planned again. Under `skip` nothing was planned. -/
def KeepsPromise (phase : CompiledPhase) : ErrorStrategy → Prop
  | .continue =>
    if phaseSkips env file ctx phase = true then ReplansDropped env file ctx phase.operations
    else
      ∀ op ∈ phase.operations, operationFails env file ctx op = false →
        ∀ a ∈ operationPlans env file ctx op, ¬Retracted env file ctx phase a
  | .abort | .quarantine => True
  | .skip =>
    ∀ op ∈ sinceDrop ctx (performed env file ctx .skip phase.operations),
      operationPlans env file ctx op = []

theorem performed_continue (ops : List CompiledOperation) :
    performed env file ctx .continue ops = ops := by
  induction ops with
  | nil => rfl
  | cons op rest ih => simp [performed, ih]

/-- The loop gets to the first operation that fails, and not further. -/
theorem performed_of_failure {onError : ErrorStrategy} (h : onError ≠ .continue)
    {before after : List CompiledOperation} {op : CompiledOperation}
    (hbefore : ∀ earlier ∈ before, operationFails env file ctx earlier = false)
    (hop : operationFails env file ctx op = true) :
    performed env file ctx onError (before ++ op :: after) = before ++ [op] := by
  induction before with
  | nil => simp [performed, hop, h]
  | cons first rest ih =>
    rw [List.forall_mem_cons] at hbefore
    simp [performed, hbefore.1, ih hbefore.2]

variable {env file ctx}

/-- What is kept starts with the last operation that drops, if there is one. -/
theorem sinceDrop_cases (ctx : EvalContext) (ops : List CompiledOperation) :
    ops.any (lacksBackend ctx) = false ∧ sinceDrop ctx ops = ops ∨
      ∃ before dropper after, ops = before ++ dropper :: after ∧ lacksBackend ctx dropper = true ∧
        sinceDrop ctx ops = dropper :: after := by
  induction ops with
  | nil => exact .inl ⟨rfl, rfl⟩
  | cons op rest ih =>
    obtain ⟨hnone, hkept⟩ | ⟨before, dropper, after, rfl, hlacks, hkept⟩ := ih
    · cases hop : lacksBackend ctx op with
      | true => exact .inr ⟨[], op, rest, rfl, hop, by rw [sinceDrop, hnone]; rfl⟩
      | false =>
        have hall : (op :: rest).any (lacksBackend ctx) = false := by rw [List.any_cons, hop, hnone]; rfl
        exact .inl ⟨hall, sinceDrop_of_none ctx hall⟩
    · refine .inr ⟨op :: before, dropper, after, rfl, hlacks, ?_⟩
      rw [sinceDrop, if_pos (by simp [hlacks]), hkept]

/-- Everything planned is left exactly if what was dropped is planned again. -/
theorem leftPlans_complete_iff (ops : List CompiledOperation) :
    (∀ op ∈ ops, operationFails env file ctx op = false →
      ∀ a ∈ operationPlans env file ctx op, a ∈ leftPlans env file ctx ops) ↔
      ReplansDropped env file ctx ops := by
  constructor
  · intro h before dropper after hops hlacks op hop hruns a ha
    have hleft := h op (by simp [hops, hop]) hruns a ha
    obtain ⟨later, hlater, hplans⟩ := List.mem_flatMap.mp hleft
    refine ⟨later, ?_, hplans⟩
    have hkept : sinceDrop ctx ops = sinceDrop ctx (dropper :: after) := by
      rw [hops]
      clear hops h hop hleft
      induction before with
      | nil => rfl
      | cons first rest ih => rw [List.cons_append, sinceDrop, if_pos (by simp [hlacks]), ih]
    exact (sinceDrop_suffix ctx _).subset (hkept ▸ hlater)
  · intro h op hop hruns a ha
    refine List.mem_flatMap.mpr ?_
    obtain ⟨-, hkept⟩ | ⟨before, dropper, after, rfl, hlacks, hkept⟩ := sinceDrop_cases ctx ops
    · exact ⟨op, by rwa [hkept], ha⟩
    · rw [hkept]
      obtain hbefore | hafter := List.mem_append.mp hop
      · exact h before dropper after rfl hlacks op hbefore hruns a ha
      · exact ⟨op, hafter, ha⟩

theorem honours_continue_iff {policy : CompiledPolicy} {id : Uuid}
    {outcomes : List (String × EvaluationOutcome)} {phase : CompiledPhase}
    (hrun : checkSkipConditions env file ctx phase outcomes = none)
    (hstrategy : phase.onError = .continue) :
    Honours env file ctx policy id outcomes phase .continue ↔
      KeepsPromise env file ctx phase .continue := by
  have hperformed : performed env file ctx phase.onError phase.operations = phase.operations := by
    rw [hstrategy, performed_continue]
  unfold Honours KeepsPromise
  rw [evaluatePhase_of_run env file ctx hrun]
  cases hskips : phaseSkips env file ctx phase with
  | true =>
    have hdraft : (draftPlan env file ctx policy id phase).isSkipped = true := by
      rw [draftPlan_isSkipped, hskips]
    rw [if_pos rfl, applySafeguards, if_pos hdraft, draftPlan_actions, draftActions, hperformed]
    exact leftPlans_complete_iff phase.operations
  | false =>
    have hruns : Runs env file ctx phase
        (applySafeguards file (draftPlan env file ctx policy id phase)) := ⟨hskips, policy, id, rfl⟩
    rw [if_neg Bool.false_ne_true]
    refine forall₂_congr fun op hop => imp_congr_right fun _ => forall₂_congr fun a ha => ?_
    rw [hruns.mem_actions_iff, hperformed]
    exact and_iff_right ⟨op, hop, ha⟩

theorem honours_abort {policy : CompiledPolicy} {id : Uuid}
    {outcomes : List (String × EvaluationOutcome)} {phase : CompiledPhase}
    (hrun : checkSkipConditions env file ctx phase outcomes = none)
    (hstrategy : phase.onError ≠ .continue) :
    Honours env file ctx policy id outcomes phase .abort := by
  intro before op after hops hbefore hop
  rw [evaluatePhase_of_run env file ctx hrun]
  apply (applySafeguards_takesBack file _).sublist.trans
  rw [draftPlan_actions, draftActions, hops, performed_of_failure env file ctx hstrategy hbefore hop]
  exact leftPlans_sublist env file ctx _

theorem honours_skip_iff {policy : CompiledPolicy} {id : Uuid}
    {outcomes : List (String × EvaluationOutcome)} {phase : CompiledPhase}
    (hrun : checkSkipConditions env file ctx phase outcomes = none)
    (hfails : ∃ op ∈ phase.operations, operationFails env file ctx op = true)
    (hstrategy : phase.onError = .skip) :
    Honours env file ctx policy id outcomes phase .skip ↔
      KeepsPromise env file ctx phase .skip := by
  have hskips : phaseSkips env file ctx phase = true := by
    simp only [phaseSkips, hstrategy, decide_true, Bool.true_and, Bool.or_eq_true]
    exact Or.inr (List.any_eq_true.mpr hfails)
  have hdraft : (draftPlan env file ctx policy id phase).isSkipped = true := by
    rw [draftPlan_isSkipped, hskips]
  have hplan : evaluatePhase env file ctx policy id outcomes phase =
      draftPlan env file ctx policy id phase := by
    rw [evaluatePhase_of_run env file ctx hrun, applySafeguards, if_pos hdraft]
  unfold Honours KeepsPromise
  rw [hplan, hdraft, draftPlan_actions, draftActions, hstrategy, leftPlans, List.flatMap_eq_nil_iff]
  simp

/-- When an operation of a phase fails, the phase follows the strategy it should, and keeps
its promise, exactly when it states its strategy itself (or abort is all there is to fall back
to) and the strategy can keep its promise. -/
theorem error_strategy_applied_iff (cenv : CompileEnv) (partition : PartitionPoint)
    (ast : PolicyAst) (chain : List String) (sources : String → Option PhaseComposition)
    (policy : CompiledPolicy)
    (hcompile : compileAstWithComposition cenv partition ast chain sources = .ok policy)
    (i : Nat) (node : PhaseNode) (phase : CompiledPhase) (hnode : ast.phases[i]? = some node)
    (hphase : policy.phases[i]? = some phase) (env : EvalEnv) (file : MediaFile)
    (ctx : EvalContext) (id : Uuid) (outcomes : List (String × EvaluationOutcome))
    (hrun : checkSkipConditions env file ctx phase outcomes = none)
    (hfails : ∃ op ∈ phase.operations, operationFails env file ctx op = true) :
    phase.onError = effectiveStrategy ast node ∧
        Honours env file ctx policy id outcomes phase (effectiveStrategy ast node) ↔
      StatesStrategy ast node ∧
        KeepsPromise env file ctx phase (effectiveStrategy ast node) := by
  rw [← strategy_eq_effective_iff ast node, ← compiled_onError hcompile hnode hphase]
  apply and_congr_right
  intro hstrategy
  cases heffective : effectiveStrategy ast node with
  | «continue» => exact honours_continue_iff hrun (hstrategy.trans heffective)
  | skip => exact honours_skip_iff hrun hfails (hstrategy.trans heffective)
  | abort =>
    have hne : phase.onError ≠ .continue := by simp [hstrategy, heffective]
    exact iff_of_true (honours_abort hrun hne) trivial
  | quarantine =>
    have hne : phase.onError ≠ .continue := by simp [hstrategy, heffective]
    exact iff_of_true (honours_abort hrun hne) trivial

end

/-- `policy "p" { config { on_error: C } phase a { on_error: S when exists(audio) { fail "no" }
container mkv } }` for the strategies given; a strategy that is not given is left out. -/
def failThenConvert (config own : Option ErrorStrategyNode) : PolicyAst where
  name := "p"
  config := config.map fun strategy => { onError := some strategy }
  phases := [
    { name := "a"
      onError := own
      operations := [
        ⟨.when ⟨.exists ⟨"audio", none⟩, [.fail "no"], [], default⟩, default⟩,
        ⟨.container "mkv", default⟩] }]

/-- What the phase compiles to under a strategy. -/
def failThenConvertPhase (strategy : ErrorStrategy) : CompiledPhase :=
  { name := "a"
    onError := strategy
    operations := [.conditional ⟨.exists .audio none, [.fail "no"], []⟩, .setContainer .mkv] }

def failThenConvertPolicy (config strategy : ErrorStrategy) : CompiledPolicy :=
  { name := "p", config := { onError := config }, phases := [failThenConvertPhase strategy]
    phaseOrder := ["a"] }

theorem failThenConvert_compiles {config own : Option ErrorStrategyNode}
    (h : topologicalSort linearPartitionPoint (failThenConvert config own) = .ok ["a"]) :
    compileAst oneBadPattern linearPartitionPoint (failThenConvert config own) =
      .ok (failThenConvertPolicy ((config.map compileErrorStrategy).getD .abort)
        ((own.map compileErrorStrategy).getD .abort)) := by
  unfold compileAst compileAstWithComposition
  rw [h]
  cases config <;> rfl

theorem failThenConvert_keepsPromise :
    KeepsPromise plainEnv film {} (failThenConvertPhase .continue) .continue := by
  unfold KeepsPromise
  rw [if_neg (by decide)]
  intro op hop hruns a ha
  rcases List.mem_pair.mp hop with rfl | rfl
  · exact absurd hruns (by decide)
  · obtain rfl := List.mem_singleton.mp ha
    rintro ((hvideo | haudio) | ⟨-, first, hfirst, hcannot⟩)
    · exact absurd hvideo.1 (by decide)
    · exact absurd haudio.1 (by decide)
    · obtain rfl : Container.mkv = first := Option.some.inj hfirst
      exact hcannot (by decide)

theorem stated_continue_is_applied :
    Honours plainEnv film {} (failThenConvertPolicy .abort .continue) 0 []
      (failThenConvertPhase .continue) .continue := by
  have h := error_strategy_applied_iff oneBadPattern linearPartitionPoint
    (failThenConvert none (some .continue)) [] (fun _ => none)
    (failThenConvertPolicy .abort .continue) (failThenConvert_compiles (by decide +kernel)) 0 _ (failThenConvertPhase .continue) rfl rfl
    plainEnv film {} 0 [] rfl ⟨_, List.mem_cons_self, by decide⟩
  exact (h.mpr ⟨Or.inl rfl, failThenConvert_keepsPromise⟩).2

theorem config_continue_is_ignored :
    compileAst oneBadPattern linearPartitionPoint (failThenConvert (some .continue) none) =
        .ok (failThenConvertPolicy .continue .abort) ∧
      checkSkipConditions plainEnv film {} (failThenConvertPhase .abort) [] = none ∧
      (∃ op ∈ (failThenConvertPhase .abort).operations,
        operationFails plainEnv film {} op = true) ∧
      ∀ node, (failThenConvert (some .continue) none).phases[0]? = some node →
        (failThenConvertPhase .abort).onError ≠
            effectiveStrategy (failThenConvert (some .continue) none) node ∧
          ¬ Honours plainEnv film {} (failThenConvertPolicy .continue .abort) 0 []
            (failThenConvertPhase .abort)
            (effectiveStrategy (failThenConvert (some .continue) none) node) := by
  refine ⟨failThenConvert_compiles (by decide +kernel), rfl,
    ⟨_, List.mem_cons_self, by decide⟩, ?_⟩
  intro node hnode
  obtain rfl := Option.some.inj hnode
  refine ⟨by decide, fun h => ?_⟩
  have hmissing := h (.setContainer .mkv) (by simp [failThenConvertPhase]) (by decide)
  revert hmissing
  decide

end Voom.Evaluator
