-- SUMMARY: Kahn's algorithm with an arbitrary queue discipline: it orders what has no cycle behind it.
import Mathlib.Data.List.Count
import Mathlib.Data.List.InsertIdx
import Mathlib.Data.List.Nodup
import Mathlib.Logic.Function.Basic

/-!
# Kahn's algorithm

A node is queued when the last of its dependencies, counted with repetition, has
been taken from the queue. Where it is queued is left open: the result is ordered
and complete for every discipline.
-/

namespace Voom.Lib.Kahn

variable {α : Type*} [DecidableEq α]

structure State (α : Type*) where
  queue : List α
  degree : α → Nat
  result : List α

section
variable (insertAt : List α → α → Nat)

/-- One dependency of `n` less; `n` is queued when it was the last. -/
def relax (st : State α) (n : α) : State α :=
  let degree := Function.update st.degree n (st.degree n - 1)
  if degree n = 0 then
    { st with degree, queue := st.queue.insertIdx (insertAt st.queue n) n }
  else { st with degree }

/-- Take the last node of the queue. -/
def step (succ : α → List α) (st : State α) : Option (State α) :=
  st.queue.getLast?.map fun node =>
    (succ node).foldl (relax insertAt)
      { st with queue := st.queue.dropLast, result := st.result ++ [node] }

/-- Until the queue is empty, for at most the given number of rounds. -/
def run (succ : α → List α) : Nat → State α → State α
  | 0, st => st
  | fuel + 1, st =>
    match step insertAt succ st with
    | none => st
    | some st => run succ fuel st

end

theorem foldl_relax_result (insertAt : List α → α → Nat) (rest : List α) (st : State α) :
    (rest.foldl (relax insertAt) st).result = st.result := by
  induction rest generalizing st with
  | nil => rfl
  | cons n rest ih =>
    rw [List.foldl_cons, ih]
    unfold relax
    dsimp only
    split <;> rfl

/-! ## The invariant -/

/-- With `rest` the successors of the last node that are still to be visited. -/
structure Inv (nodes : List α) (deps : α → List α) (rest : List α) (st : State α) : Prop where
  nodup : (st.result ++ st.queue).Nodup
  known : ∀ p ∈ st.result ++ st.queue, p ∈ nodes
  degree : ∀ p ∈ nodes, st.degree p = (deps p).countP (· ∉ st.result) + rest.count p
  queued : ∀ p ∈ nodes, p ∈ st.result ++ st.queue ↔ st.degree p = 0
  ordered : ∀ before p after, st.result = before ++ p :: after → ∀ d ∈ deps p, d ∈ before

/-- Of the elements outside a list, those equal to `x` are inside once `x` is added. -/
theorem countP_notMem_concat {done : List α} {x : α} (hx : x ∉ done) (ds : List α) :
    ds.countP (· ∉ done) = ds.countP (· ∉ done ++ [x]) + ds.count x := by
  induction ds with
  | nil => rfl
  | cons d ds ih =>
    rw [List.countP_cons, List.countP_cons, List.count_cons, ih]
    by_cases heq : d = x
    · subst heq
      simp [hx, Nat.add_assoc]
    · simp [heq]
      omega

namespace Inv

variable {nodes : List α} {deps : α → List α} {insertAt : List α → α → Nat} {st : State α}

theorem relax {n : α} {rest : List α} (h : Inv nodes deps (n :: rest) st) (hn : n ∈ nodes)
    (hat : insertAt st.queue n ≤ st.queue.length) :
    Inv nodes deps rest (relax insertAt st n) := by
  have hdegree := h.degree n hn
  rw [List.count_cons_self] at hdegree
  have hfresh : n ∉ st.result ++ st.queue := by
    rw [h.queued n hn]
    omega
  -- only the degree of `n` changes
  have hcount : ∀ p ∈ nodes, Function.update st.degree n (st.degree n - 1) p =
      (deps p).countP (· ∉ st.result) + rest.count p := by
    intro p hp
    by_cases heq : p = n
    · subst heq
      rw [Function.update_self]
      omega
    · rw [Function.update_of_ne heq, h.degree p hp, List.count_cons_of_ne (Ne.symm heq)]
  have hother : ∀ p, p ≠ n → Function.update st.degree n (st.degree n - 1) p = st.degree p :=
    fun p hp => Function.update_of_ne hp ..
  unfold Kahn.relax
  dsimp only
  split
  · rename_i hzero
    have hperm : (st.result ++ st.queue.insertIdx (insertAt st.queue n) n).Perm
        (n :: (st.result ++ st.queue)) :=
      (List.Perm.append_left _ (List.perm_insertIdx n st.queue hat)).trans List.perm_middle
    refine ⟨?_, ?_, hcount, fun p hp => ?_, h.ordered⟩
    · exact hperm.nodup_iff.mpr (List.nodup_cons.mpr ⟨hfresh, h.nodup⟩)
    · intro p hp
      rcases List.mem_cons.mp (hperm.mem_iff.mp hp) with rfl | hp
      · exact hn
      · exact h.known p hp
    · dsimp only
      rw [hperm.mem_iff, List.mem_cons]
      by_cases heq : p = n
      · subst heq
        simp only [true_or, hzero]
      · simp only [heq, false_or, hother p heq]
        exact h.queued p hp
  · rename_i hpos
    refine ⟨h.nodup, h.known, hcount, fun p hp => ?_, h.ordered⟩
    dsimp only
    by_cases heq : p = n
    · subst heq
      simp only [hpos, iff_false]
      exact hfresh
    · rw [hother p heq]
      exact h.queued p hp

theorem foldl {rest : List α} (h : Inv nodes deps rest st) (hrest : ∀ n ∈ rest, n ∈ nodes)
    (hat : ∀ queue n, insertAt queue n ≤ queue.length) :
    Inv nodes deps [] (rest.foldl (Kahn.relax insertAt) st) := by
  induction rest generalizing st with
  | nil => exact h
  | cons n rest ih =>
    rw [List.forall_mem_cons] at hrest
    exact ih (h.relax hrest.1 (hat _ _)) hrest.2

/-- Taking a node turns its successors into the ones still to be visited. -/
theorem pop {succ : α → List α}
    (hsucc : ∀ d p, (succ d).count p = if p ∈ nodes then (deps p).count d else 0)
    (h : Inv nodes deps [] st) {node : α} (hlast : st.queue.getLast? = some node) :
    Inv nodes deps (succ node)
      { st with queue := st.queue.dropLast, result := st.result ++ [node] } := by
  have hqueue : st.queue.dropLast ++ [node] = st.queue := List.dropLast_append_getLast? node hlast
  have hperm : ((st.result ++ [node]) ++ st.queue.dropLast).Perm (st.result ++ st.queue) := by
    rw [List.append_assoc]
    refine List.Perm.append_left _ ?_
    conv_rhs => rw [← hqueue]
    exact List.perm_append_comm
  have hmem : node ∈ st.result ++ st.queue :=
    hperm.mem_iff.mp (List.mem_append_left _ (List.mem_append_right _ (List.mem_singleton_self _)))
  have hnode : node ∈ nodes := h.known node hmem
  have hnotin : node ∉ st.result := by
    intro hin
    have hnodup := hperm.nodup_iff.mpr h.nodup
    rw [List.append_assoc, List.nodup_append] at hnodup
    exact hnodup.2.2 node hin node (by simp) rfl
  have hdone : ∀ d ∈ deps node, d ∈ st.result := by
    have hzero := (h.queued node hnode).mp hmem
    rw [h.degree node hnode, List.count_nil, Nat.add_zero, List.countP_eq_zero] at hzero
    exact fun d hd => by simpa using hzero d hd
  refine ⟨hperm.nodup_iff.mpr h.nodup, fun p hp => h.known p (hperm.mem_iff.mp hp),
    fun p hp => ?_, fun p hp => ?_, ?_⟩ <;> dsimp only
  · rw [h.degree p hp, List.count_nil, Nat.add_zero, hsucc, if_pos hp]
    exact countP_notMem_concat hnotin (deps p)
  · rw [hperm.mem_iff]
    exact h.queued p hp
  · intro before p after heq d hd
    rcases List.append_eq_append_iff.mp heq with ⟨mid, hbefore, hmid⟩ | ⟨mid, hresult, hmid⟩
    · cases mid with
      | nil =>
        obtain ⟨rfl, -⟩ := List.cons.inj hmid
        rw [hbefore, List.append_nil]
        exact hdone d hd
      | cons x mid =>
        obtain ⟨-, hnil⟩ := List.cons.inj hmid
        simp at hnil
    · cases mid with
      | nil =>
        obtain ⟨rfl, -⟩ := List.cons.inj hmid
        rw [List.append_nil] at hresult
        exact hresult ▸ hdone d hd
      | cons x mid =>
        obtain ⟨rfl, -⟩ := List.cons.inj hmid
        exact h.ordered before p mid hresult d hd

end Inv

/-! ## Whole runs -/

section
variable {nodes : List α} {deps succ : α → List α} {insertAt : List α → α → Nat} {st : State α}

theorem Inv.step (hsucc : ∀ d p, (succ d).count p = if p ∈ nodes then (deps p).count d else 0)
    (hat : ∀ queue n, insertAt queue n ≤ queue.length) (h : Inv nodes deps [] st) {st' : State α}
    (hstep : step insertAt succ st = some st') :
    Inv nodes deps [] st' ∧ st'.result.length = st.result.length + 1 := by
  obtain ⟨node, hlast, rfl⟩ := Option.map_eq_some_iff.mp hstep
  have hrest : ∀ n ∈ succ node, n ∈ nodes := by
    intro n hn
    by_contra hnot
    have hzero := hsucc node n
    rw [if_neg hnot, List.count_eq_zero] at hzero
    exact hzero hn
  refine ⟨(h.pop hsucc hlast).foldl hrest hat, ?_⟩
  rw [foldl_relax_result, List.length_append, List.length_singleton]

theorem Inv.run (hsucc : ∀ d p, (succ d).count p = if p ∈ nodes then (deps p).count d else 0)
    (hat : ∀ queue n, insertAt queue n ≤ queue.length) (h : Inv nodes deps [] st) (fuel : Nat) :
    Inv nodes deps [] (run insertAt succ fuel st) ∧
      ((run insertAt succ fuel st).queue = [] ∨
        st.result.length + fuel ≤ (run insertAt succ fuel st).result.length) := by
  induction fuel generalizing st with
  | zero => exact ⟨h, .inr (Nat.le_refl _)⟩
  | succ fuel ih =>
    cases hstep : Kahn.step insertAt succ st with
    | none =>
      simp only [Kahn.run, hstep]
      exact ⟨h, .inl (List.getLast?_eq_none_iff.mp (Option.map_eq_none_iff.mp hstep))⟩
    | some st' =>
      simp only [Kahn.run, hstep]
      obtain ⟨hinv, hlength⟩ := h.step hsucc hat hstep
      obtain ⟨hrun, hdone⟩ := ih hinv
      exact ⟨hrun, hdone.imp_right fun hle => by omega⟩

/-- As many rounds as there are nodes are enough. -/
theorem Inv.run_done (hsucc : ∀ d p, (succ d).count p = if p ∈ nodes then (deps p).count d else 0)
    (hat : ∀ queue n, insertAt queue n ≤ queue.length) (h : Inv nodes deps [] st) {fuel : Nat}
    (hfuel : nodes.length ≤ fuel) :
    Inv nodes deps [] (Kahn.run insertAt succ fuel st) ∧
      (Kahn.run insertAt succ fuel st).queue = [] := by
  obtain ⟨hinv, hdone⟩ := h.run hsucc hat fuel
  refine ⟨hinv, hdone.elim id fun hle => ?_⟩
  have hlength := (List.subperm_of_subset hinv.nodup hinv.known).length_le
  rw [List.length_append] at hlength
  exact List.length_eq_zero_iff.mp (by omega)

/-- What is left out has a dependency that is left out. -/
theorem Inv.mem_result (h : Inv nodes deps [] st) (hqueue : st.queue = []) {p : α}
    (hp : p ∈ nodes) : p ∈ st.result ↔ ∀ d ∈ deps p, d ∈ st.result := by
  have hqueued := h.queued p hp
  rw [hqueue, List.append_nil, h.degree p hp, List.count_nil, Nat.add_zero,
    List.countP_eq_zero] at hqueued
  rw [hqueued]
  exact forall₂_congr fun d _ => by simp

end

omit [DecidableEq α] in
/-- An order in which every node comes after its dependencies has no cycle. -/
theorem acc_of_ordered {deps : α → List α} {order : List α}
    (h : ∀ before p after, order = before ++ p :: after → ∀ d ∈ deps p, d ∈ before) {p : α}
    (hp : p ∈ order) : Acc (fun d p => d ∈ deps p) p := by
  obtain ⟨before, after, heq⟩ := List.append_of_mem hp
  -- by induction on how many nodes come before
  induction hlength : before.length using Nat.strongRecOn generalizing p before after with
  | _ n ih =>
    refine Acc.intro p fun d hd => ?_
    obtain ⟨front, back, rfl⟩ := List.append_of_mem (h before p after heq d hd)
    rw [List.append_assoc, List.cons_append] at heq
    refine ih front.length ?_ ?_ front _ heq rfl
    · rw [← hlength, List.length_append, List.length_cons]
      omega
    · rw [heq]
      exact List.mem_append_right _ (List.mem_cons_self ..)

/-! ## Emitting the first of what is ready -/

/-- The element that stands before all others. -/
def extreme (before : α → α → Bool) (xs : List α) : Option α :=
  xs.find? fun x => xs.all (before x)

/-- What has not been emitted and waits for nothing. -/
def ready (nodes : List α) (deps : α → List α) (done : List α) : List α :=
  nodes.filter fun p => p ∉ done ∧ ∀ d ∈ deps p, d ∈ done

/-- Always emit the first of what is ready. -/
def greedy (before : α → α → Bool) (nodes : List α) (deps : α → List α) :
    Nat → List α → List α
  | 0, done => done
  | fuel + 1, done =>
    match extreme before (ready nodes deps done) with
    | none => done
    | some p => greedy before nodes deps fuel (done ++ [p])

section
variable {before : α → α → Bool} {nodes : List α} {deps : α → List α}

omit [DecidableEq α] in
theorem extreme_eq_some_iff (hanti : ∀ a b, before a b = true → before b a = true → a = b)
    {xs : List α} {x : α} :
    extreme before xs = some x ↔ x ∈ xs ∧ ∀ y ∈ xs, before x y = true := by
  constructor
  · intro h
    exact ⟨List.mem_of_find?_eq_some h, by simpa using List.find?_some h⟩
  · rintro ⟨hx, hall⟩
    cases hfind : extreme before xs with
    | none =>
      have hnone := List.find?_eq_none.mp hfind x hx
      exact absurd (List.all_eq_true.mpr hall) hnone
    | some y =>
      have hy : ∀ z ∈ xs, before y z = true := by simpa using List.find?_some hfind
      rw [hanti y x (hy x hx) (hall y (List.mem_of_find?_eq_some hfind))]

omit [DecidableEq α] in
theorem extreme_congr (hanti : ∀ a b, before a b = true → before b a = true → a = b)
    {xs ys : List α} (h : ∀ x, x ∈ xs ↔ x ∈ ys) : extreme before xs = extreme before ys := by
  refine Option.ext fun x => ?_
  simp only [extreme_eq_some_iff hanti, h]

theorem mem_ready {done : List α} {p : α} :
    p ∈ ready nodes deps done ↔ p ∈ nodes ∧ p ∉ done ∧ ∀ d ∈ deps p, d ∈ done := by
  simp [ready]

theorem greedy_congr (hanti : ∀ a b, before a b = true → before b a = true → a = b)
    {nodes' : List α} {deps' : α → List α} (hnodes : ∀ p, p ∈ nodes ↔ p ∈ nodes')
    (hdeps : ∀ p ∈ nodes, deps p = deps' p) (fuel : Nat) (done : List α) :
    greedy before nodes deps fuel done = greedy before nodes' deps' fuel done := by
  induction fuel generalizing done with
  | zero => rfl
  | succ fuel ih =>
    have hready : ∀ p, p ∈ ready nodes deps done ↔ p ∈ ready nodes' deps' done := by
      intro p
      rw [mem_ready, mem_ready, hnodes p]
      refine and_congr_right fun hp => ?_
      rw [hdeps p ((hnodes p).mpr hp)]
    simp only [greedy, extreme_congr hanti hready, ih]

theorem prefix_greedy (fuel : Nat) (done : List α) : done <+: greedy before nodes deps fuel done := by
  induction fuel generalizing done with
  | zero => exact List.prefix_refl done
  | succ fuel ih =>
    simp only [greedy]
    split
    · exact List.prefix_refl done
    · exact (List.prefix_append done _).trans (ih _)

theorem prefix_run (insertAt : List α → α → Nat) (succ : α → List α) (fuel : Nat) (st : State α) :
    st.result <+: (run insertAt succ fuel st).result := by
  induction fuel generalizing st with
  | zero => exact List.prefix_refl _
  | succ fuel ih =>
    simp only [run]
    split
    · exact List.prefix_refl _
    · rename_i st' hstep
      obtain ⟨node, -, rfl⟩ := Option.map_eq_some_iff.mp hstep
      refine List.IsPrefix.trans ?_ (ih _)
      rw [foldl_relax_result]
      exact List.prefix_append ..

variable {insertAt : List α → α → Nat} {succ : α → List α} {st : State α}

/-- Between two rounds the queue holds what is ready. -/
theorem Inv.mem_queue (h : Inv nodes deps [] st) {p : α} :
    p ∈ st.queue ↔ p ∈ ready nodes deps st.result := by
  have hqueued : ∀ hp : p ∈ nodes,
      p ∈ st.result ++ st.queue ↔ ∀ d ∈ deps p, d ∈ st.result := by
    intro hp
    rw [h.queued p hp, h.degree p hp, List.count_nil, Nat.add_zero, List.countP_eq_zero]
    exact forall₂_congr fun d _ => by simp
  rw [mem_ready]
  constructor
  · intro hp
    have hmem := List.mem_append_right st.result hp
    refine ⟨h.known p hmem, fun hdone => ?_, (hqueued (h.known p hmem)).mp hmem⟩
    exact (List.nodup_append.mp h.nodup).2.2 p hdone p hp rfl
  · rintro ⟨hnode, hnot, hdeps⟩
    exact (List.mem_append.mp ((hqueued hnode).mpr hdeps)).resolve_left hnot

/-- A queue with its first element last. -/
def Sorted (before : α → α → Bool) (queue : List α) : Prop :=
  queue.Pairwise fun a b => before b a = true

omit [DecidableEq α] in
theorem Sorted.getLast (hrefl : ∀ a, before a a = true) {queue : List α} {node : α}
    (h : Sorted before queue) (hlast : queue.getLast? = some node) :
    ∀ p ∈ queue, before node p = true := by
  have hqueue : queue.dropLast ++ [node] = queue := List.dropLast_append_getLast? node hlast
  intro p hp
  rw [Sorted, ← hqueue, List.pairwise_append] at h
  rw [← hqueue, List.mem_append, List.mem_singleton] at hp
  rcases hp with hp | rfl
  · exact h.2.2 p hp node (List.mem_singleton_self node)
  · exact hrefl p

theorem Sorted.relax (hinsert : ∀ queue n, Sorted before queue →
      Sorted before (queue.insertIdx (insertAt queue n) n)) (h : Sorted before st.queue) (n : α) :
    Sorted before (Kahn.relax insertAt st n).queue := by
  unfold Kahn.relax
  dsimp only
  split
  · exact hinsert st.queue n h
  · exact h

theorem Sorted.foldl (hinsert : ∀ queue n, Sorted before queue →
      Sorted before (queue.insertIdx (insertAt queue n) n)) (h : Sorted before st.queue)
    (rest : List α) : Sorted before (rest.foldl (Kahn.relax insertAt) st).queue := by
  induction rest generalizing st with
  | nil => exact h
  | cons n rest ih => exact ih (h.relax hinsert n)

/-- With a queue that starts sorted and an insertion that keeps it so, every round emits the
first of what is ready. -/
theorem run_eq_greedy (hrefl : ∀ a, before a a = true)
    (hanti : ∀ a b, before a b = true → before b a = true → a = b)
    (hinsert : ∀ queue n, Sorted before queue →
      Sorted before (queue.insertIdx (insertAt queue n) n))
    (hsucc : ∀ d p, (succ d).count p = if p ∈ nodes then (deps p).count d else 0)
    (hat : ∀ queue n, insertAt queue n ≤ queue.length) (h : Inv nodes deps [] st)
    (hsorted : Sorted before st.queue) (fuel : Nat) :
    (run insertAt succ fuel st).result = greedy before nodes deps fuel st.result := by
  induction fuel generalizing st with
  | zero => rfl
  | succ fuel ih =>
    simp only [run, greedy]
    rw [extreme_congr hanti fun p => h.mem_queue.symm]
    cases hlast : st.queue.getLast? with
    | none =>
      rw [List.getLast?_eq_none_iff.mp hlast]
      simp [step, hlast, extreme]
    | some node =>
      have hextreme : extreme before st.queue = some node :=
        (extreme_eq_some_iff hanti).mpr
          ⟨List.mem_of_getLast? hlast, hsorted.getLast hrefl hlast⟩
      have hstep : step insertAt succ st = some ((succ node).foldl (Kahn.relax insertAt)
          { st with queue := st.queue.dropLast, result := st.result ++ [node] }) := by
        simp [step, hlast]
      have hdrop : Sorted before st.queue.dropLast :=
        hsorted.sublist (List.dropLast_sublist st.queue)
      simp only [hstep, hextreme]
      rw [ih (h.step hsucc hat hstep).1 (Sorted.foldl hinsert hdrop _), foldl_relax_result]

end

end Voom.Lib.Kahn
