-- SUMMARY: The graph of phase dependencies: the three checks of the validator and the compiler's sort.
import Mathlib.Data.List.Dedup
import Voom.Dsl.Ast
import Voom.Lib.Dfs
import Voom.Lib.Kahn

/-!
# Phase dependencies

`validate_phase_references`, `validate_cycle_detection`, `validate_reachability` and
`topological_sort` walk the same graph, each in its own way. With distinct phase names
all of them are decided by whether a phase has only declared phases, and no cycle,
behind it.
-/

namespace Voom.Dsl

open Lib

namespace PolicyAst

/-- The declared phases. -/
def phaseNames (ast : PolicyAst) : List String := ast.phases.map (·.name)

/-- The dependencies of a phase; of several with one name, those of the last. -/
def adjacency (ast : PolicyAst) (name : String) : List String :=
  ((ast.phases.reverse.find? (·.name = name)).map (·.deps)).getD []

end PolicyAst

/-! ## References -/

/-- What `validate_phase_references` says of the dependencies of a phase. -/
def dependsOnErrors (ast : PolicyAst) (phase : PhaseNode) : List DslError :=
  phase.deps.flatMap fun dep =>
    (if dep ∉ ast.phaseNames then
      [validationAt phase.span ("phase \"" ++ phase.name ++ "\" depends on unknown phase \"" ++ dep ++
        "\"")]
    else []) ++
    (if dep = phase.name then
      [validationAt phase.span ("phase \"" ++ phase.name ++ "\" depends on itself")]
    else [])

/-- What it says of `run_if`. -/
def runIfErrors (ast : PolicyAst) (phase : PhaseNode) : List DslError :=
  match phase.runIf with
  | none => []
  | some runIf =>
    if runIf.phase ∉ ast.phaseNames then
      [validationAt phase.span ("phase \"" ++ phase.name ++
        "\" has run_if referencing unknown phase \"" ++ runIf.phase ++ "\"")]
    else []

def validatePhaseReferences (ast : PolicyAst) : List DslError :=
  ast.phases.flatMap fun phase => dependsOnErrors ast phase ++ runIfErrors ast phase

/-! ## Cycles -/

/-- Every name the search can come to. -/
def PolicyAst.allNames (ast : PolicyAst) : List String :=
  ast.phaseNames ++ ast.phases.flatMap (·.deps)

/-- The cycles the search reports. -/
def detectedCycles (ast : PolicyAst) : List (List String) :=
  Dfs.detectAll ast.adjacency ast.allNames.length ast.phaseNames {}

def cycleError (ast : PolicyAst) (cycle : List String) : DslError :=
  let start := cycle.getLast?.getD ""
  let span := ((ast.phases.find? (·.name = start)).map (·.span)).getD default
  validationAt span ("circular dependency: " ++ " → ".intercalate cycle)

def validateCycleDetection (ast : PolicyAst) : List DslError :=
  (detectedCycles ast).map (cycleError ast)

/-! ## Reachability -/

/-- A phase is marked if its declared dependencies are. -/
def markable (ast : PolicyAst) (reachable : List String) (phase : PhaseNode) : Bool :=
  phase.deps.all fun d => d ∉ ast.phaseNames || d ∈ reachable

/-- One pass over the phases, and whether it marked any. -/
def markPass (ast : PolicyAst) : List PhaseNode → List String × Bool → List String × Bool
  | [], acc => acc
  | phase :: rest, (reachable, changed) =>
    if phase.name ∈ reachable then markPass ast rest (reachable, changed)
    else if markable ast reachable phase then markPass ast rest (phase.name :: reachable, true)
    else markPass ast rest (reachable, changed)

/-- Passes until one marks nothing. -/
def markLoop (ast : PolicyAst) : Nat → List String → List String
  | 0, reachable => reachable
  | fuel + 1, reachable =>
    match markPass ast ast.phases (reachable, false) with
    | (reachable, true) => markLoop ast fuel reachable
    | (reachable, false) => reachable

def reachablePhases (ast : PolicyAst) : List String :=
  let roots := (ast.phases.filter fun phase => phase.deps.isEmpty).map (·.name)
  markLoop ast (ast.phases.length + 1) roots

def validateReachability (ast : PolicyAst) : List DslError :=
  ast.phases.flatMap fun phase =>
    if phase.name ∉ reachablePhases ast then
      [validationAt phase.span ("phase \"" ++ phase.name ++ "\" is unreachable")]
    else []

/-! ## The sort -/

/-- `partition_point`: meaningful on a partitioned list, and in range on any. -/
structure PartitionPoint where
  point : (String → Bool) → List String → Nat
  bounded : ∀ p xs, point p xs ≤ xs.length
  partitioned : ∀ p front back, (∀ x ∈ front, p x = true) → (∀ x ∈ back, p x = false) →
    point p (front ++ back) = front.length

section
variable (pp : PartitionPoint)

/-- The phases that name the given one, once for each time they do. -/
def successors (ast : PolicyAst) (name : String) : List String :=
  ast.phases.flatMap fun phase => (phase.deps.filter (· = name)).map fun _ => phase.name

def inDegree (ast : PolicyAst) (name : String) : Nat :=
  ((ast.phases.filter (·.name = name)).map (·.deps.length)).sum

def insertionPoint (queue : List String) (name : String) : Nat :=
  pp.point (fun x => name < x) queue

def sortStart (ast : PolicyAst) : Kahn.State String where
  queue := (ast.phaseNames.dedup.filter fun name => inDegree ast name = 0).mergeSort (· ≤ ·)
  degree := inDegree ast
  result := []

def sortedPhases (ast : PolicyAst) : List String :=
  (Kahn.run (insertionPoint pp) (successors ast) ast.phases.length (sortStart ast)).result

/-- `topological_sort`. -/
def topologicalSort (ast : PolicyAst) : Except DslError (List String) :=
  let result := sortedPhases pp ast
  if result.length ≠ ast.phases.length then
    let stuck := (ast.phaseNames.dedup.filter (· ∉ result)).mergeSort (· ≤ ·)
    let hasUnknownDep := stuck.any fun name =>
      match ast.phases.find? (·.name = name) with
      | none => false
      | some phase => phase.deps.any (· ∉ ast.phaseNames)
    if hasUnknownDep then
      .error (.compile ("phases [" ++ ", ".intercalate stuck ++ "] reference unknown dependencies"))
    else
      .error (.compile ("circular dependency involving phases: [" ++ ", ".intercalate stuck ++ "]"))
  else .ok result

end

/-! ## Phases by name -/

section
variable {ast : PolicyAst}

theorem adjacency_of_mem (hdistinct : ast.phaseNames.Nodup) {phase : PhaseNode}
    (hmem : phase ∈ ast.phases) : ast.adjacency phase.name = phase.deps := by
  unfold PolicyAst.adjacency
  cases hfind : ast.phases.reverse.find? (·.name = phase.name) with
  | none =>
    have hnone := List.find?_eq_none.mp hfind phase (List.mem_reverse.mpr hmem)
    simp at hnone
  | some found =>
    have hname : found.name = phase.name := by simpa using List.find?_some hfind
    have hfound := List.mem_reverse.mp (List.mem_of_find?_eq_some hfind)
    obtain rfl := List.inj_on_of_nodup_map hdistinct hfound hmem hname
    rfl

theorem exists_phase {name : String} (h : name ∈ ast.phaseNames) :
    ∃ phase ∈ ast.phases, phase.name = name := List.mem_map.mp h

theorem mem_phaseNames {phase : PhaseNode} (h : phase ∈ ast.phases) :
    phase.name ∈ ast.phaseNames := List.mem_map_of_mem h

/-- Only declared phases have dependencies. -/
theorem exists_phase_of_mem_adjacency {d p : String} (h : d ∈ ast.adjacency p) :
    ∃ phase ∈ ast.phases, phase.name = p ∧ d ∈ phase.deps := by
  unfold PolicyAst.adjacency at h
  cases hfind : ast.phases.reverse.find? (·.name = p) with
  | none =>
    rw [hfind] at h
    cases h
  | some found =>
    rw [hfind] at h
    have hname : found.name = p := by simpa using List.find?_some hfind
    exact ⟨found, List.mem_reverse.mp (List.mem_of_find?_eq_some hfind), hname, h⟩

theorem mem_allNames_of_adjacency {d p : String} (h : d ∈ ast.adjacency p) : d ∈ ast.allNames := by
  obtain ⟨phase, hmem, -, hd⟩ := exists_phase_of_mem_adjacency h
  exact List.mem_append_right _ (List.mem_flatMap.mpr ⟨phase, hmem, hd⟩)

/-- `depends_on` between declared phases: `d` must run before `p`. -/
def DependsOn (ast : PolicyAst) (d p : String) : Prop :=
  d ∈ ast.phaseNames ∧ ∃ phase ∈ ast.phases, phase.name = p ∧ d ∈ phase.deps

theorem dependsOn_iff (hdistinct : ast.phaseNames.Nodup) {d p : String} :
    DependsOn ast d p ↔ d ∈ ast.phaseNames ∧ d ∈ ast.adjacency p := by
  refine and_congr_right fun _ => ⟨?_, exists_phase_of_mem_adjacency⟩
  rintro ⟨phase, hmem, rfl, hd⟩
  rw [adjacency_of_mem hdistinct hmem]
  exact hd

/-! ## The detector -/

theorem allNames_closed : ∀ x ∈ ast.allNames, ∀ d ∈ ast.adjacency x, d ∈ ast.allNames :=
  fun _ _ _ hd => mem_allNames_of_adjacency hd

theorem phaseNames_subset : ∀ p ∈ ast.phaseNames, p ∈ ast.allNames :=
  fun _ hp => List.mem_append_left _ hp

/-- Each reported cycle is a walk along dependencies back to its beginning. -/
theorem detectedCycles_isCycle : ∀ cycle ∈ detectedCycles ast, Dfs.IsCycle ast.adjacency cycle :=
  Dfs.isCycle_of_mem_detectAll allNames_closed le_rfl phaseNames_subset fun _ => List.not_mem_nil

/-- No phase that has a cycle behind it is safe. -/
theorem not_acc_of_transGen {α : Type*} {r : α → α → Prop} {x : α}
    (h : Relation.TransGen r x x) : ¬ Acc r x := by
  have hself : ∀ y, Acc (Relation.TransGen r) y → ¬ Relation.TransGen r y y := by
    intro y hy
    induction hy with
    | intro y _ ih => exact fun hself => ih y hself hself
  exact fun hacc => hself x hacc.transGen h

theorem detectedCycles_eq_nil_iff :
    detectedCycles ast = [] ↔
      ∀ p ∈ ast.phaseNames, Acc (fun d p => d ∈ ast.adjacency p) p := by
  constructor
  · intro hnone
    refine Dfs.acc_of_detectAll_eq_nil allNames_closed le_rfl phaseNames_subset
      (fun _ => List.not_mem_nil) (fun _ hx => ?_) hnone
    exact absurd hx List.not_mem_nil
  · intro hacc
    by_contra hne
    obtain ⟨cycle, hcycle⟩ := List.exists_mem_of_ne_nil _ hne
    obtain ⟨x, -, hx⟩ := (detectedCycles_isCycle cycle hcycle).transGen
    obtain ⟨d, hd, -⟩ := Relation.TransGen.head'_iff.mp hx
    obtain ⟨phase, hmem, rfl, -⟩ := exists_phase_of_mem_adjacency hd
    exact not_acc_of_transGen (Relation.transGen_swap.mp hx) (hacc _ (mem_phaseNames hmem))

/-! ## Reachability -/

theorem markPass_mono (phases : List PhaseNode) (acc : List String × Bool) {p : String}
    (h : p ∈ acc.1) : p ∈ (markPass ast phases acc).1 := by
  induction phases generalizing acc with
  | nil => exact h
  | cons phase rest ih =>
    obtain ⟨reachable, changed⟩ := acc
    simp only [markPass]
    split
    · exact ih _ h
    · split
      · exact ih _ (List.mem_cons_of_mem _ h)
      · exact ih _ h

/-- A pass that marks nothing has found nothing to mark. -/
theorem markPass_stable (phases : List PhaseNode) {reachable : List String}
    (h : (markPass ast phases (reachable, false)).2 = false) :
    (markPass ast phases (reachable, false)).1 = reachable ∧
      ∀ phase ∈ phases, markable ast reachable phase = true → phase.name ∈ reachable := by
  have hkeeps : ∀ (phases : List PhaseNode) (reachable : List String),
      (markPass ast phases (reachable, true)).2 = true := by
    intro phases
    induction phases with
    | nil => exact fun _ => rfl
    | cons phase rest ih =>
      intro reachable
      simp only [markPass]
      split
      · exact ih _
      · split <;> exact ih _
  induction phases with
  | nil => exact ⟨rfl, fun _ h => absurd h List.not_mem_nil⟩
  | cons phase rest ih =>
    simp only [markPass] at h ⊢
    split at h
    · rename_i hin
      rw [if_pos hin]
      obtain ⟨heq, hall⟩ := ih h
      exact ⟨heq, List.forall_mem_cons.mpr ⟨fun _ => hin, hall⟩⟩
    · rename_i hout
      split at h
      · rw [hkeeps] at h
        cases h
      · rename_i hnot
        rw [if_neg hout, if_neg hnot]
        obtain ⟨heq, hall⟩ := ih h
        exact ⟨heq, List.forall_mem_cons.mpr ⟨fun hmark => absurd hmark hnot, hall⟩⟩

/-- A pass that marks something leaves fewer phases unmarked. -/
theorem markPass_progress {phases : List PhaseNode} (hsub : ∀ phase ∈ phases, phase ∈ ast.phases)
    {reachable : List String} (h : (markPass ast phases (reachable, false)).2 = true) :
    Dfs.unvisited ast.phaseNames (markPass ast phases (reachable, false)).1 <
      Dfs.unvisited ast.phaseNames reachable := by
  induction phases with
  | nil => cases h
  | cons phase rest ih =>
    rw [List.forall_mem_cons] at hsub
    simp only [markPass] at h ⊢
    split at h
    · rename_i hin
      rw [if_pos hin]
      exact ih hsub.2 h
    · rename_i hout
      rw [if_neg hout]
      split at h
      · rename_i hmark
        rw [if_pos hmark]
        have hle : Dfs.unvisited ast.phaseNames
            (markPass ast rest (phase.name :: reachable, true)).1 ≤
              Dfs.unvisited ast.phaseNames (phase.name :: reachable) :=
          Dfs.unvisited_le fun p hp => markPass_mono rest _ hp
        exact lt_of_le_of_lt hle (Dfs.unvisited_cons_lt (mem_phaseNames hsub.1) hout)
      · rename_i hnot
        rw [if_neg hnot]
        exact ih hsub.2 h

/-- The loop ends with everything marked that can be. -/
theorem markLoop_stable {fuel : Nat} {reachable : List String}
    (hfuel : Dfs.unvisited ast.phaseNames reachable < fuel) :
    ∀ phase ∈ ast.phases, markable ast (markLoop ast fuel reachable) phase = true →
      phase.name ∈ markLoop ast fuel reachable := by
  induction fuel generalizing reachable with
  | zero => omega
  | succ fuel ih =>
    simp only [markLoop]
    split
    · rename_i reachable' heq
      have hlt := markPass_progress (fun _ h => h) (congrArg Prod.snd heq)
      simp only [heq] at hlt
      exact ih (by omega)
    · rename_i reachable' heq
      obtain ⟨hsame, hstable⟩ := markPass_stable ast.phases (congrArg Prod.snd heq)
      simp only [heq] at hsame
      rw [hsame]
      exact hstable

/-- With no cycle behind any phase, all are reachable. -/
theorem validateReachability_eq_nil (hdistinct : ast.phaseNames.Nodup)
    (hacc : ∀ p ∈ ast.phaseNames, Acc (fun d p => d ∈ ast.adjacency p) p) :
    validateReachability ast = [] := by
  have hstable : ∀ phase ∈ ast.phases, markable ast (reachablePhases ast) phase = true →
      phase.name ∈ reachablePhases ast := by
    apply markLoop_stable
    have hle : Dfs.unvisited ast.phaseNames
        ((ast.phases.filter fun phase => phase.deps.isEmpty).map (·.name)) ≤
          ast.phaseNames.length := List.countP_le_length
    have hlength : ast.phaseNames.length = ast.phases.length := List.length_map ..
    omega
  have hreach : ∀ p, Acc (fun d p => d ∈ ast.adjacency p) p → p ∈ ast.phaseNames →
      p ∈ reachablePhases ast := by
    intro p hp
    induction hp with
    | intro p _ ih =>
      intro hdeclared
      obtain ⟨phase, hmem, rfl⟩ := exists_phase hdeclared
      refine hstable phase hmem (List.all_eq_true.mpr fun d hd => ?_)
      by_cases hknown : d ∈ ast.phaseNames
      · have hdep : d ∈ ast.adjacency phase.name := by
          rw [adjacency_of_mem hdistinct hmem]
          exact hd
        simp [ih d hdep hknown]
      · simp [hknown]
  refine List.flatMap_eq_nil_iff.mpr fun phase hmem => ?_
  have hin := hreach phase.name (hacc _ (mem_phaseNames hmem)) (mem_phaseNames hmem)
  rw [if_neg (not_not.mpr hin)]

/-! ## The sort -/

theorem split_phase (hdistinct : ast.phaseNames.Nodup) {phase : PhaseNode}
    (hmem : phase ∈ ast.phases) :
    ∃ front back, ast.phases = front ++ phase :: back ∧ (∀ q ∈ front, q.name ≠ phase.name) ∧
      ∀ q ∈ back, q.name ≠ phase.name := by
  obtain ⟨front, back, heq⟩ := List.append_of_mem hmem
  refine ⟨front, back, heq, ?_⟩
  rw [PolicyAst.phaseNames, heq, List.map_append, List.map_cons, List.nodup_middle,
    List.nodup_cons, List.mem_append, List.mem_map, List.mem_map] at hdistinct
  simp only [not_or, not_exists, not_and] at hdistinct
  exact hdistinct.1

theorem count_successors (hdistinct : ast.phaseNames.Nodup) (d p : String) :
    (successors ast d).count p =
      if p ∈ ast.phaseNames then (ast.adjacency p).count d else 0 := by
  have hzero : ∀ phases : List PhaseNode, (∀ q ∈ phases, q.name ≠ p) →
      (phases.flatMap fun q => (q.deps.filter (· = d)).map fun _ => q.name).count p = 0 := by
    intro phases hne
    rw [List.count_eq_zero, List.mem_flatMap]
    rintro ⟨q, hq, hp⟩
    obtain ⟨-, -, hname⟩ := List.mem_map.mp hp
    exact hne q hq hname
  unfold successors
  split
  · rename_i hp
    obtain ⟨phase, hmem, rfl⟩ := exists_phase hp
    obtain ⟨front, back, heq, hfront, hback⟩ := split_phase hdistinct hmem
    rw [adjacency_of_mem hdistinct hmem, heq, List.flatMap_append, List.flatMap_cons,
      List.count_append, List.count_append, hzero front hfront, hzero back hback, Nat.zero_add,
      Nat.add_zero, List.map_const', List.count_replicate_self, List.count_eq_length_filter]
    rfl
  · rename_i hp
    refine hzero ast.phases fun q hq heq => hp ?_
    exact heq ▸ mem_phaseNames hq

theorem inDegree_eq (hdistinct : ast.phaseNames.Nodup) {p : String} (hp : p ∈ ast.phaseNames) :
    inDegree ast p = (ast.adjacency p).length := by
  obtain ⟨phase, hmem, rfl⟩ := exists_phase hp
  obtain ⟨front, back, heq, hfront, hback⟩ := split_phase hdistinct hmem
  have hnone : ∀ phases : List PhaseNode, (∀ q ∈ phases, q.name ≠ phase.name) →
      phases.filter (·.name = phase.name) = [] := by
    intro phases hne
    exact List.filter_eq_nil_iff.mpr fun q hq => by simpa using hne q hq
  rw [adjacency_of_mem hdistinct hmem]
  simp [inDegree, heq, hnone front hfront, hnone back hback]

variable (pp : PartitionPoint)

theorem sortStart_inv (hdistinct : ast.phaseNames.Nodup) :
    Kahn.Inv ast.phaseNames ast.adjacency [] (sortStart ast) := by
  have hmem : ∀ p, p ∈ (sortStart ast).queue ↔ p ∈ ast.phaseNames ∧ inDegree ast p = 0 := by
    intro p
    simp [sortStart, List.mem_dedup]
  refine ⟨?_, ?_, ?_, ?_, ?_⟩
  · have hperm : ((sortStart ast).result ++ (sortStart ast).queue).Perm
        (ast.phaseNames.dedup.filter fun name => inDegree ast name = 0) := List.mergeSort_perm ..
    exact hperm.nodup_iff.mpr ((List.nodup_dedup _).filter _)
  · exact fun p hp => ((hmem p).mp hp).1
  · intro p hp
    show inDegree ast p = _
    rw [inDegree_eq hdistinct hp, List.count_nil, Nat.add_zero]
    simp [sortStart]
  · intro p hp
    show p ∈ (sortStart ast).queue ↔ inDegree ast p = 0
    rw [hmem p, and_iff_right hp]
  · intro before p after heq
    simp [sortStart] at heq

/-- What the sort comes to. -/
theorem sortedPhases_spec (hdistinct : ast.phaseNames.Nodup) :
    (sortedPhases pp ast).Nodup ∧ (∀ p ∈ sortedPhases pp ast, p ∈ ast.phaseNames) ∧
      (∀ p ∈ ast.phaseNames, p ∈ sortedPhases pp ast ↔
        ∀ d ∈ ast.adjacency p, d ∈ sortedPhases pp ast) ∧
      ∀ before p after, sortedPhases pp ast = before ++ p :: after →
        ∀ d ∈ ast.adjacency p, d ∈ before := by
  have hfuel : ast.phaseNames.length ≤ ast.phases.length := le_of_eq (List.length_map ..)
  have hat : ∀ queue n, insertionPoint pp queue n ≤ queue.length :=
    fun queue n => pp.bounded _ queue
  obtain ⟨hinv, hqueue⟩ :=
    (sortStart_inv hdistinct).run_done (count_successors hdistinct) hat hfuel
  refine ⟨hinv.nodup.of_append_left, fun p hp => hinv.known p (List.mem_append_left _ hp), ?_,
    hinv.ordered⟩
  exact fun p hp => hinv.mem_result hqueue hp

/-- The sort succeeds if it leaves no phase out. -/
theorem topologicalSort_eq_ok_iff (hdistinct : ast.phaseNames.Nodup) {order : List String} :
    topologicalSort pp ast = .ok order ↔
      order = sortedPhases pp ast ∧ ∀ p ∈ ast.phaseNames, p ∈ sortedPhases pp ast := by
  obtain ⟨hnodup, hknown, -, -⟩ := sortedPhases_spec pp hdistinct
  have hlength : ast.phaseNames.length = ast.phases.length := List.length_map ..
  have hall : (sortedPhases pp ast).length = ast.phases.length ↔
      ∀ p ∈ ast.phaseNames, p ∈ sortedPhases pp ast := by
    constructor
    · intro heq p hp
      have hsub := List.subperm_of_subset hnodup hknown
      exact (hsub.perm_of_length_le (by omega)).mem_iff.mpr hp
    · intro hmem
      have hperm := (List.subperm_of_subset hnodup hknown).antisymm
        (List.subperm_of_subset hdistinct hmem)
      rw [hperm.length_eq, hlength]
  simp only [topologicalSort]
  by_cases heq : (sortedPhases pp ast).length = ast.phases.length
  · rw [if_neg (not_not.mpr heq), Except.ok.injEq, and_iff_left (hall.mp heq)]
    exact eq_comm
  · rw [if_pos heq]
    have hnot := fun h => heq (hall.mpr h)
    constructor
    · intro h
      split at h <;> cases h
    · rintro ⟨-, h⟩
      exact absurd h hnot

/-- The sort succeeds exactly if every phase has only declared phases and no cycle behind it. -/
theorem topologicalSort_ok_iff (hdistinct : ast.phaseNames.Nodup) :
    (∃ order, topologicalSort pp ast = .ok order) ↔
      (∀ phase ∈ ast.phases, ∀ d ∈ phase.deps, d ∈ ast.phaseNames) ∧
        ∀ p ∈ ast.phaseNames, Acc (fun d p => d ∈ ast.adjacency p) p := by
  obtain ⟨hnodup, hknown, hmem, hordered⟩ := sortedPhases_spec pp hdistinct
  simp only [topologicalSort_eq_ok_iff pp hdistinct, exists_eq_left]
  constructor
  · intro hall
    refine ⟨fun phase hphase d hd => ?_, fun p hp => ?_⟩
    · have hin := (hmem _ (mem_phaseNames hphase)).mp (hall _ (mem_phaseNames hphase))
      rw [adjacency_of_mem hdistinct hphase] at hin
      exact hknown d (hin d hd)
    · exact Kahn.acc_of_ordered hordered (hall p hp)
  · rintro ⟨hdeclared, hacc⟩ p hp
    have hstep : ∀ p, Acc (fun d p => d ∈ ast.adjacency p) p → p ∈ ast.phaseNames →
        p ∈ sortedPhases pp ast := by
      intro p hp
      induction hp with
      | intro p _ ih =>
        intro hp
        refine (hmem p hp).mpr fun d hd => ih d hd ?_
        obtain ⟨phase, hphase, -, hd⟩ := exists_phase_of_mem_adjacency hd
        exact hdeclared phase hphase d hd
    exact hstep p (hacc p hp) hp

/-! ## The checks agree -/

theorem dependsOnErrors_eq_nil_iff {phase : PhaseNode} :
    dependsOnErrors ast phase = [] ↔
      ∀ d ∈ phase.deps, d ∈ ast.phaseNames ∧ d ≠ phase.name := by
  simp only [dependsOnErrors, List.flatMap_eq_nil_iff, List.append_eq_nil_iff]
  refine forall₂_congr fun d _ => and_congr ?_ ?_
  · by_cases h : d ∈ ast.phaseNames <;> simp [h]
  · by_cases h : d = phase.name <;> simp [h]

/-- Each step of a reported cycle goes from a phase to a declared one it depends on. -/
theorem detectedCycles_dependsOn (hdistinct : ast.phaseNames.Nodup) {cycle : List String}
    (h : cycle ∈ detectedCycles ast) : cycle.IsChain fun p d => DependsOn ast d p := by
  have hcycle := detectedCycles_isCycle cycle h
  refine hcycle.1.imp_of_mem_imp fun p d _ hd hdep => (dependsOn_iff hdistinct).mpr ⟨?_, hdep⟩
  -- every phase of a cycle has a dependency, so it is declared
  obtain ⟨_, hnext⟩ := hcycle.exists_dep d hd
  obtain ⟨phase, hmem, rfl, -⟩ := exists_phase_of_mem_adjacency hnext
  exact mem_phaseNames hmem

/-- Where the detector reports something there is a cycle. -/
theorem exists_cycle_of_reported (hdistinct : ast.phaseNames.Nodup)
    (hne : validateCycleDetection ast ≠ []) : ∃ p, Relation.TransGen (DependsOn ast) p p := by
  have hsome : detectedCycles ast ≠ [] := fun hnil => hne (by simp [validateCycleDetection, hnil])
  obtain ⟨cycle, hcycle⟩ := List.exists_mem_of_ne_nil _ hsome
  obtain ⟨-, p, mid, rfl⟩ := detectedCycles_isCycle cycle hcycle
  have hchain := detectedCycles_dependsOn hdistinct hcycle
  exact ⟨p, Relation.transGen_swap.mp (Dfs.transGen_of_isChain hchain)⟩

theorem validateCycleDetection_eq_nil_iff :
    validateCycleDetection ast = [] ↔
      ∀ p ∈ ast.phaseNames, Acc (fun d p => d ∈ ast.adjacency p) p := by
  rw [← detectedCycles_eq_nil_iff, validateCycleDetection, List.map_eq_nil_iff]

/-- `topological_sort` succeeds exactly if the validator has nothing to say about
`depends_on`, and the detector reports a cycle exactly if there is one. -/
theorem graph_checks_agree (hdistinct : ast.phaseNames.Nodup) :
    ((∃ order, topologicalSort pp ast = .ok order) ↔
      (∀ phase ∈ ast.phases, dependsOnErrors ast phase = []) ∧ validateCycleDetection ast = [] ∧
        validateReachability ast = []) ∧
    (validateCycleDetection ast ≠ [] ↔ ∃ p, Relation.TransGen (DependsOn ast) p p) ∧
    ∀ cycle ∈ detectedCycles ast, (∃ p mid, cycle = p :: mid ++ [p]) ∧
      cycle.IsChain fun p d => DependsOn ast d p := by
  refine ⟨?_, ?_, fun cycle hcycle => ?_⟩
  · rw [topologicalSort_ok_iff pp hdistinct, validateCycleDetection_eq_nil_iff]
    constructor
    · rintro ⟨hdeclared, hacc⟩
      refine ⟨fun phase hmem => ?_, hacc, validateReachability_eq_nil hdistinct hacc⟩
      refine dependsOnErrors_eq_nil_iff.mpr fun d hd => ⟨hdeclared phase hmem d hd, ?_⟩
      rintro rfl
      rw [← adjacency_of_mem hdistinct hmem] at hd
      exact not_acc_of_transGen (.single hd) (hacc _ (mem_phaseNames hmem))
    · rintro ⟨hrefs, hacc, -⟩
      refine ⟨fun phase hmem d hd => ?_, hacc⟩
      exact (dependsOnErrors_eq_nil_iff.mp (hrefs phase hmem) d hd).1
  · constructor
    · exact exists_cycle_of_reported hdistinct
    · rintro ⟨p, hp⟩ hnil
      obtain ⟨q, hq, -⟩ := Relation.TransGen.head'_iff.mp hp
      have hsub : Subrelation (DependsOn ast) fun d p => d ∈ ast.adjacency p :=
        fun {_ _} h => ((dependsOn_iff hdistinct).mp h).2
      exact not_acc_of_transGen hp (hsub.accessible (validateCycleDetection_eq_nil_iff.mp hnil p hq.1))
  · obtain ⟨-, hback⟩ := detectedCycles_isCycle cycle hcycle
    exact ⟨hback, detectedCycles_dependsOn hdistinct hcycle⟩

end

/-- `partition_point` by a search from the front. -/
def linearPartitionPoint : PartitionPoint where
  point p xs := (xs.takeWhile p).length
  bounded p xs := (List.takeWhile_sublist p).length_le
  partitioned p front back hfront hback := by
    have hnil : back.takeWhile p = [] := by
      cases back with
      | nil => rfl
      | cons x back => simp [hback x (List.mem_cons_self ..)]
    rw [List.takeWhile_append_of_pos hfront, hnil, List.append_nil]

/-- Two pairs of phases, each waiting for the other. -/
def twoCycles : PolicyAst where
  name := "cyclic"
  phases := [{ name := "a", dependsOn := some ["b"] }, { name := "b", dependsOn := some ["a"] },
    { name := "c", dependsOn := some ["d"] }, { name := "d", dependsOn := some ["c"] }]

/-- Both cycles are reported, and the phases are not sorted. -/
theorem twoCycles_reported :
    twoCycles.phaseNames.Nodup ∧ detectedCycles twoCycles = [["a", "b", "a"], ["c", "d", "c"]] ∧
      (∀ cycle ∈ detectedCycles twoCycles, (∃ p mid, cycle = p :: mid ++ [p]) ∧
        cycle.IsChain fun p d => DependsOn twoCycles d p) ∧
      ¬ ∃ order, topologicalSort linearPartitionPoint twoCycles = .ok order := by
  have hdistinct : twoCycles.phaseNames.Nodup := by decide
  have hcycles : detectedCycles twoCycles = [["a", "b", "a"], ["c", "d", "c"]] := by
    decide
  obtain ⟨hsort, -, hreal⟩ := graph_checks_agree linearPartitionPoint hdistinct
  refine ⟨hdistinct, hcycles, hreal, fun hok => ?_⟩
  have hnone := (hsort.mp hok).2.1
  rw [validateCycleDetection, hcycles] at hnone
  cases hnone

end Voom.Dsl
