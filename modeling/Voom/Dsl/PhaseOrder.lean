-- SUMMARY: What the compiled phase order says about `depends_on` and `run_if`.
import Voom.Dsl.Totality

/-!
# Phase order

The order is a topological sort of `depends_on` alone. A phase named by `run_if` comes first
when it is behind the phase in that graph; otherwise the order of the two is a matter of
their names.
-/

namespace Voom.Dsl

open Lib

/-- Both phases are in an order, the first before the second. -/
def Precedes (order : List String) (first second : String) : Prop :=
  first ∈ order ∧ second ∈ order ∧ order.idxOf first < order.idxOf second

/-- The order keeps every ordering a policy expresses. -/
structure RespectsOrdering (ast : PolicyAst) (order : List String) : Prop where
  perm : order.Perm ast.phaseNames
  dependencies : ∀ phase ∈ ast.phases, ∀ d ∈ phase.deps, Precedes order d phase.name
  triggers : ∀ phase ∈ ast.phases, ∀ runIf, phase.runIf = some runIf →
    Precedes order runIf.phase phase.name

/-- Every `run_if` names a phase that its own phase depends on, directly or through others. -/
def TriggersAreDependencies (ast : PolicyAst) : Prop :=
  ∀ phase ∈ ast.phases, ∀ runIf, phase.runIf = some runIf →
    Relation.TransGen (DependsOn ast) runIf.phase phase.name

theorem Precedes.trans {order : List String} {a b c : String} (hab : Precedes order a b)
    (hbc : Precedes order b c) : Precedes order a c :=
  ⟨hab.1, hbc.2.1, lt_trans hab.2.2 hbc.2.2⟩

/-- What stands before a phase at its only place precedes it. -/
theorem precedes_of_split {before after : List String} {a b : String}
    (hnodup : (before ++ b :: after).Nodup) (ha : a ∈ before) :
    Precedes (before ++ b :: after) a b := by
  have hb : b ∉ before := fun h =>
    (List.nodup_append.mp hnodup).2.2 b h b List.mem_cons_self rfl
  refine ⟨List.mem_append_left _ ha, List.mem_append_right _ List.mem_cons_self, ?_⟩
  rw [List.idxOf_append_of_mem ha, List.idxOf_append_of_notMem hb, List.idxOf_cons_self]
  exact Nat.lt_add_right 0 (List.idxOf_lt_length_of_mem ha)

section
variable {env : CompileEnv} {ast : PolicyAst} {partition : PartitionPoint} {order : List String}

/-- The sort of a validated policy lists each phase once, after its dependencies. -/
theorem Validated.order_spec (h : Validated env ast)
    (hsort : topologicalSort partition ast = .ok order) :
    order.Perm ast.phaseNames ∧ ∀ d p, DependsOn ast d p → Precedes order d p := by
  obtain ⟨rfl, hall⟩ := (topologicalSort_eq_ok_iff partition h.distinct).mp hsort
  obtain ⟨hnodup, hknown, -, hordered⟩ := sortedPhases_spec partition h.distinct
  refine ⟨?_, ?_⟩
  · rw [List.perm_ext_iff_of_nodup hnodup h.distinct]
    exact fun p => ⟨hknown p, hall p⟩
  · intro d p hdep
    obtain ⟨-, hadj⟩ := (dependsOn_iff h.distinct).mp hdep
    obtain ⟨phase, hphase, rfl, -⟩ := hdep.2
    obtain ⟨before, after, hsplit⟩ := List.append_of_mem (hall _ (mem_phaseNames hphase))
    rw [hsplit] at hnodup ⊢
    exact precedes_of_split hnodup (hordered before _ after hsplit d hadj)

theorem Validated.precedes_of_transGen (h : Validated env ast)
    (hsort : topologicalSort partition ast = .ok order) {d p : String}
    (hdep : Relation.TransGen (DependsOn ast) d p) : Precedes order d p := by
  induction hdep with
  | single hdep => exact (h.order_spec hsort).2 _ _ hdep
  | tail _ hdep ih => exact ih.trans ((h.order_spec hsort).2 _ _ hdep)

theorem phaseOrder_of_compileAst {policy : CompiledPolicy}
    (h : compileAst env partition ast = .ok policy) :
    topologicalSort partition ast = .ok policy.phaseOrder := by
  simp only [compileAst, compileAstWithComposition, bind, Except.bind] at h
  split at h
  · cases h
  · cases hsort : topologicalSort partition ast with
    | error e => simp [hsort, Except.mapError] at h
    | ok order =>
      simp only [hsort, Except.mapError, pure, Except.pure, Except.ok.injEq] at h
      rw [← h]

/-- The compiled order of a policy whose `run_if`s name dependencies respects every ordering
the policy expresses. -/
theorem phaseOrder_respects_ordering {policy : CompiledPolicy}
    (hvalid : validate env ast = .ok ()) (hcompile : compileAst env partition ast = .ok policy)
    (htriggers : TriggersAreDependencies ast) : RespectsOrdering ast policy.phaseOrder := by
  have hvalidated := validated_of_validate hvalid
  have hsort := phaseOrder_of_compileAst hcompile
  have hspec := hvalidated.order_spec hsort
  refine ⟨hspec.1, ?_, ?_⟩
  · intro phase hphase d hd
    have hdeclared := (dependsOnErrors_eq_nil_iff.mp (hvalidated.dependencies phase hphase) d hd).1
    exact hspec.2 d phase.name ⟨hdeclared, phase, hphase, rfl, hd⟩
  · intro phase hphase runIf hrun
    exact hvalidated.precedes_of_transGen hsort (htriggers phase hphase runIf hrun)

end

/-- `policy "p" { phase b { depends_on: [a] run_if a.modified } phase a { container mkv } }` -/
def triggerWithDependency : PolicyAst where
  name := "p"
  phases := [
    { name := "b"
      dependsOn := some ["a"]
      runIf := some ⟨"a", .modified⟩
      span := ⟨13, 58, 1, 14⟩ },
    { name := "a"
      operations := [⟨.container "mkv", ⟨69, 82, 1, 70⟩⟩]
      span := ⟨59, 84, 1, 60⟩ }]
  span := ⟨0, 86, 1, 1⟩

/-- `policy "p" { phase b { run_if a.modified } phase a { container mkv } }` -/
def triggerAlone : PolicyAst where
  name := "p"
  phases := [
    { name := "b"
      runIf := some ⟨"a", .modified⟩
      span := ⟨13, 42, 1, 14⟩ },
    { name := "a"
      operations := [⟨.container "mkv", ⟨53, 66, 1, 54⟩⟩]
      span := ⟨43, 68, 1, 44⟩ }]
  span := ⟨0, 70, 1, 1⟩

theorem triggerWithDependency_order :
    ∃ policy, validate oneBadPattern triggerWithDependency = .ok () ∧
      compileAst oneBadPattern linearPartitionPoint triggerWithDependency = .ok policy ∧
      RespectsOrdering triggerWithDependency policy.phaseOrder := by
  have hvalid : validate oneBadPattern triggerWithDependency = .ok () := by decide
  have htriggers : TriggersAreDependencies triggerWithDependency := by
    intro phase hphase runIf hrun
    simp only [triggerWithDependency, List.mem_cons, List.not_mem_nil, or_false] at hphase
    rcases hphase with rfl | rfl
    · cases hrun
      exact .single ⟨by decide, _, List.mem_cons_self, rfl, by decide⟩
    · cases hrun
  obtain ⟨policy, hcompile⟩ := (compileAst_succeeds linearPartitionPoint hvalid).mpr (by
    simp [triggerWithDependency, OperationNode.UncheckedOk])
  exact ⟨policy, hvalid, hcompile, phaseOrder_respects_ordering hvalid hcompile htriggers⟩

/-- A phase can come before the one its `run_if` looks at. -/
theorem triggerAlone_runs_first :
    ∃ policy, validate oneBadPattern triggerAlone = .ok () ∧
      compileAst oneBadPattern linearPartitionPoint triggerAlone = .ok policy ∧
      policy.phaseOrder = ["b", "a"] ∧ ¬ RespectsOrdering triggerAlone policy.phaseOrder := by
  have hvalid : validate oneBadPattern triggerAlone = .ok () := by decide
  have hstart : sortStart triggerAlone = ⟨["a", "b"], inDegree triggerAlone, []⟩ := by
    simp [sortStart, triggerAlone, PolicyAst.phaseNames, inDegree, PhaseNode.deps, List.mergeSort]
  have hsorted : sortedPhases linearPartitionPoint triggerAlone = ["b", "a"] := by
    rw [sortedPhases, hstart]
    rfl
  have hsort : topologicalSort linearPartitionPoint triggerAlone = .ok ["b", "a"] := by
    rw [topologicalSort, hsorted]
    rfl
  obtain ⟨policy, hcompile⟩ := (compileAst_succeeds linearPartitionPoint hvalid).mpr (by
    simp [triggerAlone, OperationNode.UncheckedOk])
  have horder : policy.phaseOrder = ["b", "a"] := by
    have := phaseOrder_of_compileAst hcompile
    rw [hsort, Except.ok.injEq] at this
    exact this.symm
  refine ⟨policy, hvalid, hcompile, horder, ?_⟩
  intro hrespects
  have htrigger := hrespects.triggers _ List.mem_cons_self _ rfl
  rw [horder] at htrigger
  have hlt := htrigger.2.2
  revert hlt
  decide

end Voom.Dsl
