-- SUMMARY: When the phase order does not depend on the order in which the phases are declared.
import Mathlib.Data.List.TakeWhile
import Mathlib.Data.String.Basic
import Voom.Dsl.PhaseOrder
import Voom.Lib.BinarySearch

/-!
# Declaration order

The sort inserts a phase that has become ready where a descending queue has it, and takes
phases from the end of the queue, the smallest name first. The queue starts in ascending
order, though, so the two directions meet as soon as two phases are ready at the start.
-/

namespace Voom.Dsl

open Lib

/-- Emit, of the ready phases, always the one whose name is the smallest. -/
def smallestFirst (ast : PolicyAst) : List String :=
  Kahn.greedy (fun a b => a ≤ b) ast.phaseNames ast.adjacency ast.phases.length []

/-- Emit, of the ready phases, always the one whose name is the largest. -/
def largestFirst (ast : PolicyAst) : List String :=
  Kahn.greedy (fun a b => b ≤ a) ast.phaseNames ast.adjacency ast.phases.length []

/-- The phases in another order. -/
def Redeclared (ast ast' : PolicyAst) : Prop := ast'.phases.Perm ast.phases

/-- However its phases are declared, the policy has one order. -/
def HasOrder (partition : PartitionPoint) (ast : PolicyAst) (order : List String) : Prop :=
  ∀ ast', Redeclared ast ast' → topologicalSort partition ast' = .ok order

/-- The phases that wait for no other. -/
def initialPhases (ast : PolicyAst) : List PhaseNode := ast.phases.filter (·.deps = [])

/-! ## The order of names -/

theorem le_name_refl (a : String) : decide (a ≤ a) = true := by simp

theorem le_name_antisymm (a b : String) (hab : decide (a ≤ b) = true)
    (hba : decide (b ≤ a) = true) : a = b :=
  le_antisymm (by simpa using hab) (by simpa using hba)

/-- A queue that is popped at its smallest name is descending. -/
theorem sorted_iff {queue : List String} :
    Kahn.Sorted (fun a b => decide (a ≤ b)) queue ↔ queue.Pairwise (fun a b => b ≤ a) := by
  simp [Kahn.Sorted]

variable {partition : PartitionPoint} {ast ast' : PolicyAst}

/-- The insertion keeps a descending queue descending. -/
theorem insertionPoint_sorted (queue : List String) (name : String)
    (h : Kahn.Sorted (fun a b => decide (a ≤ b)) queue) :
    Kahn.Sorted (fun a b => decide (a ≤ b))
      (queue.insertIdx (insertionPoint partition queue name) name) := by
  rw [sorted_iff] at h ⊢
  have hsplit := List.takeWhile_append_dropWhile (p := fun x => decide (name < x)) (l := queue)
  generalize hfront : queue.takeWhile (fun x => decide (name < x)) = front at hsplit
  generalize hback : queue.dropWhile (fun x => decide (name < x)) = back at hsplit
  subst hsplit
  obtain ⟨hf, hb, hfb⟩ := List.pairwise_append.mp h
  have habove : ∀ x ∈ front, name < x := by
    intro x hx
    rw [← hfront] at hx
    exact of_decide_eq_true (List.mem_takeWhile_imp (p := fun x => decide (name < x)) hx)
  have hbelow : ∀ x ∈ back, x ≤ name := by
    cases back with
    | nil => simp
    | cons first rest =>
      -- the first that is not above the name is followed by smaller names
      have hfirst : ¬ name < first := by
        have hhead := List.head?_dropWhile_not (fun x => decide (name < x)) (front ++ first :: rest)
        rw [hback] at hhead
        exact of_decide_eq_false hhead
      intro x hx
      rcases List.mem_cons.mp hx with rfl | hx
      · exact not_lt.mp hfirst
      · exact ((List.pairwise_cons.mp hb).1 x hx).trans (not_lt.mp hfirst)
  have hpoint : insertionPoint partition (front ++ back) name = front.length := by
    refine partition.partitioned _ front back (fun x hx => ?_) fun x hx => ?_
    · exact decide_eq_true (habove x hx)
    · exact decide_eq_false (not_lt.mpr (hbelow x hx))
  rw [hpoint, BinarySearch.insertIdx_append_self]
  refine List.pairwise_append.mpr ⟨hf, List.pairwise_cons.mpr ⟨hbelow, hb⟩, fun a ha b hmem => ?_⟩
  rcases List.mem_cons.mp hmem with rfl | hmem
  · exact le_of_lt (habove a ha)
  · exact hfb a ha b hmem

/-! ## The start of the sort -/

theorem mem_sortStart_queue (hdistinct : ast.phaseNames.Nodup) {p : String} :
    p ∈ (sortStart ast).queue ↔ ∃ phase ∈ initialPhases ast, phase.name = p := by
  rw [(sortStart_inv hdistinct).mem_queue, Kahn.mem_ready]
  simp only [sortStart, List.not_mem_nil, not_false_eq_true, true_and, imp_false]
  constructor
  · rintro ⟨hp, hnone⟩
    obtain ⟨phase, hmem, rfl⟩ := exists_phase hp
    rw [adjacency_of_mem hdistinct hmem] at hnone
    refine ⟨phase, List.mem_filter.mpr ⟨hmem, ?_⟩, rfl⟩
    simpa using List.eq_nil_iff_forall_not_mem.mpr hnone
  · rintro ⟨phase, hmem, rfl⟩
    obtain ⟨hphase, hdeps⟩ := List.mem_filter.mp hmem
    have hdeps : phase.deps = [] := by simpa using hdeps
    refine ⟨mem_phaseNames hphase, fun d hd => ?_⟩
    rw [adjacency_of_mem hdistinct hphase, hdeps] at hd
    cases hd

theorem nodup_sortStart_queue (hdistinct : ast.phaseNames.Nodup) : (sortStart ast).queue.Nodup :=
  (sortStart_inv hdistinct).nodup

theorem length_sortStart_queue (hdistinct : ast.phaseNames.Nodup) :
    (sortStart ast).queue.length = (initialPhases ast).length := by
  have hnames : ((initialPhases ast).map (·.name)).Nodup :=
    hdistinct.sublist (List.Sublist.map _ List.filter_sublist)
  rw [← List.length_map (f := fun phase : PhaseNode => phase.name)]
  refine List.Perm.length_eq ((List.perm_ext_iff_of_nodup
    (nodup_sortStart_queue hdistinct) hnames).mpr fun p => ?_)
  rw [mem_sortStart_queue hdistinct, List.mem_map]

/-- The queue starts ascending. -/
theorem sortStart_queue_ascending (ast : PolicyAst) :
    (sortStart ast).queue.Pairwise (fun a b => a ≤ b) := by
  have hsorted := @List.pairwise_mergeSort _ (fun a b : String => decide (a ≤ b))
    (by simpa using fun a b c => le_trans) (by simpa using le_total)
    (ast.phaseNames.dedup.filter fun name => inDegree ast name = 0)
  simpa [sortStart] using hsorted

/-- With at most one phase ready at the start, the sort emits the smallest ready name in every
round. -/
theorem sortedPhases_eq_smallestFirst (hdistinct : ast.phaseNames.Nodup)
    (hone : (initialPhases ast).length ≤ 1) : sortedPhases partition ast = smallestFirst ast := by
  have hqueue : Kahn.Sorted (fun a b => decide (a ≤ b)) (sortStart ast).queue := by
    rw [← length_sortStart_queue hdistinct] at hone
    match hq : (sortStart ast).queue, hone with
    | [], _ => exact List.Pairwise.nil
    | [_], _ => exact List.pairwise_singleton ..
  exact Kahn.run_eq_greedy le_name_refl le_name_antisymm insertionPoint_sorted
    (count_successors hdistinct) (fun queue n => partition.bounded _ queue)
    (sortStart_inv hdistinct) hqueue ast.phases.length

/-- The first phase of the sort is the largest of those ready at the start. -/
theorem head_sortedPhases {first : String} (hlast : (sortStart ast).queue.getLast? = some first) :
    ∃ rest, sortedPhases partition ast = first :: rest := by
  have hphases : ast.phases ≠ [] := by
    rintro hnil
    simp [sortStart, PolicyAst.phaseNames, hnil] at hlast
  obtain ⟨fuel, hfuel⟩ := Nat.exists_eq_succ_of_ne_zero (List.length_pos_iff.mpr hphases).ne'
  have hprefix : [first] <+: sortedPhases partition ast := by
    rw [sortedPhases, hfuel, Kahn.run]
    simp only [Kahn.step, hlast, Option.map_some]
    refine List.IsPrefix.trans ?_ (Kahn.prefix_run ..)
    rw [Kahn.foldl_relax_result]
    exact List.prefix_refl _
  obtain ⟨rest, hrest⟩ := hprefix
  exact ⟨rest, hrest.symm⟩

/-- The first phase of the greedy order stands before all that are ready at the start. -/
theorem head_smallestFirst (hdistinct : ast.phaseNames.Nodup) {first : String}
    {rest : List String} (h : smallestFirst ast = first :: rest) :
    ∀ p ∈ (sortStart ast).queue, first ≤ p := by
  have hready := fun p => (sortStart_inv hdistinct).mem_queue (p := p)
  have hphases : ast.phases ≠ [] := by
    rintro hnil
    simp [smallestFirst, hnil, Kahn.greedy] at h
  obtain ⟨fuel, hfuel⟩ := Nat.exists_eq_succ_of_ne_zero (List.length_pos_iff.mpr hphases).ne'
  rw [smallestFirst, hfuel, Kahn.greedy] at h
  cases hextreme : Kahn.extreme (fun a b => decide (a ≤ b))
      (Kahn.ready ast.phaseNames ast.adjacency []) with
  | none => simp [hextreme] at h
  | some p =>
    simp only [hextreme, List.nil_append] at h
    have hprefix : [p] <+: first :: rest := h ▸ Kahn.prefix_greedy ..
    obtain rfl : p = first := by simpa using hprefix
    have hall := ((Kahn.extreme_eq_some_iff le_name_antisymm).mp hextreme).2
    exact fun q hq => by simpa using hall q ((hready q).mp hq)

/-! ## Redeclaring phases -/

theorem Redeclared.phaseNames (h : Redeclared ast ast') :
    ast'.phaseNames.Perm ast.phaseNames := h.map _

theorem Redeclared.initialPhases (h : Redeclared ast ast') :
    (initialPhases ast').length = (initialPhases ast).length := (h.filter _).length_eq

theorem Redeclared.adjacency (h : Redeclared ast ast') (hdistinct : ast.phaseNames.Nodup)
    {p : String} (hp : p ∈ ast.phaseNames) : ast'.adjacency p = ast.adjacency p := by
  obtain ⟨phase, hmem, rfl⟩ := exists_phase hp
  rw [adjacency_of_mem hdistinct hmem,
    adjacency_of_mem (h.phaseNames.nodup_iff.mpr hdistinct) (h.mem_iff.mpr hmem)]

theorem Redeclared.smallestFirst (h : Redeclared ast ast') (hdistinct : ast.phaseNames.Nodup) :
    smallestFirst ast' = smallestFirst ast := by
  unfold Dsl.smallestFirst
  rw [h.length_eq]
  refine (Kahn.greedy_congr le_name_antisymm (fun p => h.phaseNames.mem_iff.symm)
    (fun p hp => ?_) _ _).symm
  exact (h.adjacency hdistinct hp).symm

/-- The dependencies of a policy without cycles end somewhere. -/
theorem acc_of_acyclic (hdistinct : ast.phaseNames.Nodup)
    (hacyclic : ∀ p, ¬ Relation.TransGen (DependsOn ast) p p) :
    ∀ p ∈ ast.phaseNames, Acc (fun d p => d ∈ ast.adjacency p) p := by
  rw [← validateCycleDetection_eq_nil_iff]
  by_contra hne
  obtain ⟨p, hp⟩ := exists_cycle_of_reported hdistinct hne
  exact hacyclic p hp

/-- Where phases depend only on phases that wait for none there is no cycle. -/
theorem acyclic_of_starts (h : ∀ d p, DependsOn ast d p → ∀ e, ¬ DependsOn ast e d) :
    ∀ p, ¬ Relation.TransGen (DependsOn ast) p p := by
  intro p hp
  obtain ⟨_, hfirst, -⟩ := Relation.TransGen.head'_iff.mp hp
  obtain ⟨_, -, hlast⟩ := Relation.TransGen.tail'_iff.mp hp
  exact h _ _ hfirst _ hlast

theorem Redeclared.topologicalSort (h : Redeclared ast ast') (hdistinct : ast.phaseNames.Nodup)
    (hacyclic : ∀ p, ¬ Relation.TransGen (DependsOn ast) p p)
    (hdeclared : ∀ phase ∈ ast.phases, ∀ d ∈ phase.deps, d ∈ ast.phaseNames) :
    topologicalSort partition ast' = .ok (sortedPhases partition ast') := by
  have hdistinct' := h.phaseNames.nodup_iff.mpr hdistinct
  have hdeclared' : ∀ phase ∈ ast'.phases, ∀ d ∈ phase.deps, d ∈ ast'.phaseNames := by
    intro phase hphase d hd
    exact h.phaseNames.mem_iff.mpr (hdeclared phase (h.mem_iff.mp hphase) d hd)
  have hacyclic' : ∀ p, ¬ Relation.TransGen (DependsOn ast') p p := by
    refine fun p hp => hacyclic p (hp.lift id fun d p hdep => ?_)
    obtain ⟨hd, phase, hphase, hrest⟩ := hdep
    exact ⟨h.phaseNames.mem_iff.mp hd, phase, h.mem_iff.mp hphase, hrest⟩
  obtain ⟨order, horder⟩ := (topologicalSort_ok_iff partition hdistinct').mpr
    ⟨hdeclared', acc_of_acyclic hdistinct' hacyclic'⟩
  rw [horder, ((topologicalSort_eq_ok_iff partition hdistinct').mp horder).1]

/-- The sort emits the smallest ready name in every round, however the phases are declared,
exactly if every dependency is declared and at most one phase has none. -/
theorem has_smallestFirst_order_iff (hdistinct : ast.phaseNames.Nodup)
    (hacyclic : ∀ p, ¬ Relation.TransGen (DependsOn ast) p p) :
    HasOrder partition ast (smallestFirst ast) ↔
      (∀ phase ∈ ast.phases, ∀ d ∈ phase.deps, d ∈ ast.phaseNames) ∧
        (initialPhases ast).length ≤ 1 := by
  constructor
  · intro h
    have hsort := h ast (List.Perm.refl _)
    refine ⟨((topologicalSort_ok_iff partition hdistinct).mp ⟨_, hsort⟩).1, ?_⟩
    rw [← length_sortStart_queue hdistinct]
    cases hlast : (sortStart ast).queue.getLast? with
    | none => simp [List.getLast?_eq_none_iff.mp hlast]
    | some first =>
      -- the sort starts with the largest name, the greedy order with the smallest
      obtain ⟨rest, hhead⟩ : ∃ rest, sortedPhases partition ast = first :: rest :=
        head_sortedPhases hlast
      rw [← ((topologicalSort_eq_ok_iff partition hdistinct).mp hsort).1] at hhead
      have hsmallest := head_smallestFirst hdistinct hhead
      have hqueue := List.dropLast_append_getLast? first hlast
      have hascending := sortStart_queue_ascending ast
      have hnodup := nodup_sortStart_queue hdistinct
      rw [← hqueue] at hascending hnodup hsmallest ⊢
      cases hfront : (sortStart ast).queue.dropLast with
      | nil => simp
      | cons p front =>
        rw [hfront] at hascending hnodup hsmallest
        have hle := (List.pairwise_append.mp hascending).2.2 p List.mem_cons_self first
          (List.mem_singleton_self _)
        have hge := hsmallest p (List.mem_append_left _ List.mem_cons_self)
        exact absurd (le_antisymm hle hge) ((List.nodup_append.mp hnodup).2.2 p
          List.mem_cons_self first (List.mem_singleton_self _))
  · rintro ⟨hdeclared, hone⟩ ast' hperm
    have hdistinct' := hperm.phaseNames.nodup_iff.mpr hdistinct
    rw [hperm.topologicalSort hdistinct hacyclic hdeclared,
      sortedPhases_eq_smallestFirst hdistinct' (hperm.initialPhases ▸ hone),
      hperm.smallestFirst hdistinct]

/-- `partition_point` as the standard library computes it. -/
def binaryPartitionPoint : PartitionPoint where
  point := BinarySearch.partitionPoint
  bounded := BinarySearch.partitionPoint_bounded
  partitioned _ _ _ := BinarySearch.partitionPoint_append

/-- Three phases to start with, and two that wait for the last of them. -/
def threeStarts : PolicyAst where
  name := "p"
  phases := [{ name := "b" }, { name := "d" }, { name := "z" },
    { name := "c", dependsOn := some ["z"] }, { name := "e", dependsOn := some ["z"] }]

/-- The same phases, the two that wait in the other order. -/
def threeStartsSwapped : PolicyAst where
  name := "p"
  phases := [{ name := "b" }, { name := "d" }, { name := "z" },
    { name := "e", dependsOn := some ["z"] }, { name := "c", dependsOn := some ["z"] }]

/-- The order of the phases follows the order of their declaration, and goes up and down. -/
theorem threeStarts_order :
    threeStarts.phaseNames.Nodup ∧
      (∀ p, ¬ Relation.TransGen (DependsOn threeStarts) p p) ∧
      Redeclared threeStarts threeStartsSwapped ∧
      topologicalSort binaryPartitionPoint threeStarts = .ok ["z", "c", "d", "b", "e"] ∧
      topologicalSort binaryPartitionPoint threeStartsSwapped = .ok ["z", "d", "b", "c", "e"] ∧
      ¬ (∃ order, HasOrder binaryPartitionPoint threeStarts order) ∧
      smallestFirst threeStarts = ["b", "d", "z", "c", "e"] ∧
      largestFirst threeStarts = ["z", "e", "d", "c", "b"] := by
  have hdepends : ∀ d p, DependsOn threeStarts d p → d = "z" ∧ p ≠ "z" := by
    rintro d p ⟨-, phase, hphase, rfl, hd⟩
    simp only [threeStarts, List.mem_cons, List.not_mem_nil, or_false] at hphase
    rcases hphase with rfl | rfl | rfl | rfl | rfl <;> simp_all [PhaseNode.deps]
  have hacyclic := acyclic_of_starts fun d p h e he => (hdepends e d he).2 (hdepends d p h).1
  have hstart : sortStart threeStarts = ⟨["b", "d", "z"], inDegree threeStarts, []⟩ := by
    simp [sortStart, threeStarts, PolicyAst.phaseNames, inDegree, PhaseNode.deps, List.mergeSort]
  have hstart' : sortStart threeStartsSwapped =
      ⟨["b", "d", "z"], inDegree threeStartsSwapped, []⟩ := by
    simp [sortStart, threeStartsSwapped, PolicyAst.phaseNames, inDegree, PhaseNode.deps,
      List.mergeSort]
  have hsort : topologicalSort binaryPartitionPoint threeStarts =
      .ok ["z", "c", "d", "b", "e"] := by
    have : sortedPhases binaryPartitionPoint threeStarts = ["z", "c", "d", "b", "e"] := by
      rw [sortedPhases, hstart]
      decide
    rw [topologicalSort, this]
    rfl
  have hsort' : topologicalSort binaryPartitionPoint threeStartsSwapped =
      .ok ["z", "d", "b", "c", "e"] := by
    have : sortedPhases binaryPartitionPoint threeStartsSwapped = ["z", "d", "b", "c", "e"] := by
      rw [sortedPhases, hstart']
      decide
    rw [topologicalSort, this]
    rfl
  have hswapped : Redeclared threeStarts threeStartsSwapped := by
    simp only [Redeclared, threeStarts, threeStartsSwapped]
    exact (List.Perm.swap ..).cons _ |>.cons _ |>.cons _
  refine ⟨by decide, hacyclic, hswapped, hsort, hsort', ?_, by decide, by decide⟩
  rintro ⟨order, horder⟩
  have hfirst := hsort.symm.trans (horder _ (List.Perm.refl _))
  have hsecond := hsort'.symm.trans (horder _ hswapped)
  exact absurd (hfirst.trans hsecond.symm) (by decide)

/-- One phase to start with, and two that wait for it. -/
def oneStart : PolicyAst where
  name := "p"
  phases := [{ name := "z" }, { name := "e", dependsOn := some ["z"] },
    { name := "c", dependsOn := some ["z"] }]

theorem oneStart_order :
    HasOrder binaryPartitionPoint oneStart (smallestFirst oneStart) ∧
      smallestFirst oneStart = ["z", "c", "e"] := by
  have hdistinct : oneStart.phaseNames.Nodup := by decide
  have hdepends : ∀ d p, DependsOn oneStart d p → d = "z" ∧ p ≠ "z" := by
    rintro d p ⟨-, phase, hphase, rfl, hd⟩
    simp only [oneStart, List.mem_cons, List.not_mem_nil, or_false] at hphase
    rcases hphase with rfl | rfl | rfl <;> simp_all [PhaseNode.deps]
  have hacyclic := acyclic_of_starts fun d p h e he => (hdepends e d he).2 (hdepends d p h).1
  refine ⟨(has_smallestFirst_order_iff hdistinct hacyclic).mpr ⟨?_, by decide⟩, by decide⟩
  intro phase hphase d hd
  simp only [oneStart, List.mem_cons, List.not_mem_nil, or_false] at hphase
  rcases hphase with rfl | rfl | rfl <;> simp_all [PhaseNode.deps, oneStart, PolicyAst.phaseNames]

end Voom.Dsl
