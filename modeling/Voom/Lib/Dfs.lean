-- SUMMARY: Depth-first search for cycles that stops at the first one it closes: what it reports and what its silence means.
import Mathlib.Data.List.Chain
import Mathlib.Logic.Relation
import Mathlib.Order.WellFounded

/-!
# Cycle detection

The search keeps the nodes it has entered, those it has not left yet, and the path to
the current node. It stops in the middle when it closes a cycle, so what is visited is
left half-updated; only the path and the stack agree at all times.
-/

namespace Voom.Lib.Dfs

variable {α : Type*} [DecidableEq α]

structure Search (α : Type*) where
  visited : List α := []
  inStack : List α := []
  path : List α := []

namespace Search

def enter (node : α) (st : Search α) : Search α :=
  { visited := node :: st.visited, inStack := node :: st.inStack, path := st.path ++ [node] }

def leave (node : α) (st : Search α) : Search α :=
  { st with inStack := st.inStack.filter (· ≠ node), path := st.path.dropLast }

end Search

/-- The loop over the dependencies of a node. -/
def visitDeps (visit : α → Search α → Search α × Bool) :
    List α → Search α → Search α × Bool
  | [], st => (st, false)
  | dep :: rest, st =>
    if dep ∉ st.visited then
      match visit dep st with
      | (st, true) => (st, true)
      | (st, false) => visitDeps visit rest st
    else if dep ∈ st.inStack then ({ st with path := st.path ++ [dep] }, true)
    else visitDeps visit rest st

/-- Visit a node, to at most the given depth; true if a cycle was closed. -/
def visit (deps : α → List α) : Nat → α → Search α → Search α × Bool
  | 0, _, st => (st, false)
  | fuel + 1, node, st =>
    match visitDeps (visit deps fuel) (deps node) (st.enter node) with
    | (st, true) => (st, true)
    | (st, false) => (st.leave node, false)

/-- The part of a path from the first visit of its last node on. -/
def cycleOf (path : List α) : List α :=
  match path.getLast? with
  | none => []
  | some last => path.dropWhile (· ≠ last)

/-- The cycles found from the given roots, one search after the other. -/
def detectAll (deps : α → List α) (fuel : Nat) : List α → Search α → List (List α)
  | [], _ => []
  | root :: roots, st =>
    if root ∉ st.visited then
      match visit deps fuel root { st with path := [] } with
      | (st, true) => cycleOf st.path :: detectAll deps fuel roots { st with inStack := [] }
      | (st, false) => detectAll deps fuel roots st
    else detectAll deps fuel roots st

/-! ## One search -/

section
variable (deps : α → List α)

/-- The stack is the path, and each node of the path a dependency of the one before. -/
structure OnPath (st : Search α) : Prop where
  stack : ∀ x, x ∈ st.inStack ↔ x ∈ st.path
  visited : ∀ x ∈ st.path, x ∈ st.visited
  chain : st.path.IsChain fun x y => y ∈ deps x

/-- A path that closed a cycle. -/
def Closed (path : List α) : Prop :=
  path.IsChain (fun x y => y ∈ deps x) ∧ ∃ front last, path = front ++ [last] ∧ last ∈ front

/-- No cycle lies behind a node that the search has left. -/
def LeftSafely (st : Search α) : Prop :=
  ∀ x ∈ st.visited, x ∉ st.inStack → Acc (fun d p => d ∈ deps p) x

/-- A search that comes back without a cycle. -/
structure Returned (st st' : Search α) : Prop where
  path : st'.path = st.path
  stack : ∀ x, x ∈ st'.inStack ↔ x ∈ st.inStack
  visited : ∀ x ∈ st.visited, x ∈ st'.visited
  safe : LeftSafely deps st → LeftSafely deps st'

/-- What a visit of the node comes to. -/
def VisitSpec (node : α) (st : Search α) (result : Search α × Bool) : Prop :=
  (result.2 = true ∧ Closed deps result.1.path) ∨
    (result.2 = false ∧ Returned deps st result.1 ∧ node ∈ result.1.visited)

variable {deps}

omit [DecidableEq α] in
theorem Returned.refl (st : Search α) : Returned deps st st :=
  ⟨rfl, fun _ => Iff.rfl, fun _ h => h, id⟩

omit [DecidableEq α] in
theorem Returned.trans {st₁ st₂ st₃ : Search α} (h₁ : Returned deps st₁ st₂)
    (h₂ : Returned deps st₂ st₃) : Returned deps st₁ st₃ where
  path := h₂.path.trans h₁.path
  stack x := (h₂.stack x).trans (h₁.stack x)
  visited x hx := h₂.visited x (h₁.visited x hx)
  safe h := h₂.safe (h₁.safe h)

omit [DecidableEq α] in
theorem OnPath.returned {st st' : Search α} (h : OnPath deps st) (hret : Returned deps st st') :
    OnPath deps st' where
  stack x := by rw [hret.stack x, hret.path, h.stack x]
  visited x hx := hret.visited x (h.visited x (hret.path ▸ hx))
  chain := hret.path ▸ h.chain

/-- The number of nodes not yet visited. -/
def unvisited (nodes visited : List α) : Nat := nodes.countP (· ∉ visited)

theorem unvisited_le {nodes visited visited' : List α} (h : ∀ x ∈ visited, x ∈ visited') :
    unvisited nodes visited' ≤ unvisited nodes visited := by
  refine List.countP_mono_left fun x _ hx => ?_
  simp only [decide_eq_true_eq] at hx ⊢
  exact fun hmem => hx (h x hmem)

theorem unvisited_cons_lt {nodes visited : List α} {node : α} (hnode : node ∈ nodes)
    (hfresh : node ∉ visited) : unvisited nodes (node :: visited) < unvisited nodes visited := by
  have hcons : ∀ x ∈ visited, x ∈ node :: visited := fun x hx => List.mem_cons_of_mem _ hx
  obtain ⟨front, back, rfl⟩ := List.append_of_mem hnode
  have hfront : unvisited front (node :: visited) ≤ unvisited front visited := unvisited_le hcons
  have hback : unvisited back (node :: visited) ≤ unvisited back visited := unvisited_le hcons
  have hself : node ∈ node :: visited := List.mem_cons_self ..
  unfold unvisited at *
  simp only [List.countP_append, List.countP_cons, hfresh, hself, not_true_eq_false,
    not_false_eq_true, decide_true, decide_false, Bool.false_eq_true, if_true, if_false]
  omega

/-- The loop over dependencies, when each visit it makes is as it should be. -/
theorem visitDeps_spec {visit : α → Search α → Search α × Bool} {st₀ : Search α} {node : α}
    (hvisit : ∀ dep ∈ deps node, ∀ st, dep ∉ st.visited → Returned deps st₀ st → OnPath deps st →
      (st.path ++ [dep]).IsChain (fun x y => y ∈ deps x) → VisitSpec deps dep st (visit dep st))
    {front : List α} (hpath : st₀.path = front ++ [node]) {ds : List α}
    (hds : ∀ d ∈ ds, d ∈ deps node) {st : Search α} (hon : OnPath deps st)
    (hret : Returned deps st₀ st) :
    ((visitDeps visit ds st).2 = true ∧ Closed deps (visitDeps visit ds st).1.path) ∨
      ((visitDeps visit ds st).2 = false ∧ Returned deps st (visitDeps visit ds st).1 ∧
        ∀ d ∈ ds, d ∈ (visitDeps visit ds st).1.visited ∧ d ∉ st.inStack) := by
  induction ds generalizing st with
  | nil => exact .inr ⟨rfl, .refl st, fun d hd => absurd hd List.not_mem_nil⟩
  | cons dep rest ih =>
    rw [List.forall_mem_cons] at hds
    obtain ⟨hdep, hds⟩ := hds
    have hchain : (st.path ++ [dep]).IsChain fun x y => y ∈ deps x := by
      have hst := hon.chain
      rw [hret.path, hpath] at hst ⊢
      refine List.isChain_append.mpr ⟨hst, List.isChain_singleton _, ?_⟩
      intro x hx y hy
      rw [List.getLast?_concat, Option.mem_some_iff] at hx
      rw [List.head?_cons, Option.mem_some_iff] at hy
      exact hx ▸ hy ▸ hdep
    -- the dependency itself is settled, the others by the induction hypothesis
    have hnext : ∀ st', Returned deps st st' → dep ∈ st'.visited → dep ∉ st.inStack →
        ((visitDeps visit rest st').2 = true ∧ Closed deps (visitDeps visit rest st').1.path) ∨
          ((visitDeps visit rest st').2 = false ∧ Returned deps st (visitDeps visit rest st').1 ∧
            ∀ d ∈ dep :: rest, d ∈ (visitDeps visit rest st').1.visited ∧ d ∉ st.inStack) := by
      intro st' hret' hmem hout
      rcases ih hds (hon.returned hret') (hret.trans hret') with hfound | ⟨hfalse, hrest, hall⟩
      · exact .inl hfound
      · refine .inr ⟨hfalse, hret'.trans hrest, List.forall_mem_cons.mpr ⟨?_, fun d hd => ?_⟩⟩
        · exact ⟨hrest.visited dep hmem, hout⟩
        · rw [← hret'.stack d]
          exact hall d hd
    simp only [visitDeps]
    split
    · rename_i hfresh
      have hspec := hvisit dep hdep st hfresh hret hon hchain
      have hout : dep ∉ st.inStack := by
        rw [hon.stack dep]
        exact fun hin => hfresh (hon.visited dep hin)
      split
      · rename_i st' heq
        rw [heq] at hspec
        rcases hspec with ⟨-, hclosed⟩ | ⟨hfalse, -⟩
        · exact .inl ⟨rfl, hclosed⟩
        · cases hfalse
      · rename_i st' heq
        rw [heq] at hspec
        rcases hspec with ⟨htrue, -⟩ | ⟨-, hret', hmem⟩
        · cases htrue
        · exact hnext st' hret' hmem hout
    · rename_i hseen
      split
      · rename_i hin
        exact .inl ⟨rfl, hchain, st.path, dep, rfl, (hon.stack dep).mp hin⟩
      · rename_i hout
        exact hnext st (.refl st) (not_not.mp hseen) hout

/-- Leaving a node whose dependencies have all been left. -/
theorem Returned.leave {node : α} {st st' : Search α} (hret : Returned deps (st.enter node) st')
    (hon : OnPath deps st) (hfresh : node ∉ st.visited)
    (hall : ∀ d ∈ deps node, d ∈ st'.visited ∧ d ∉ (st.enter node).inStack) :
    Returned deps st (st'.leave node) := by
  have hout : node ∉ st.inStack := by
    rw [hon.stack node]
    exact fun hin => hfresh (hon.visited node hin)
  have hstack : ∀ x, x ∈ (st'.leave node).inStack ↔ x ∈ st.inStack := by
    intro x
    simp only [Search.leave, List.mem_filter, hret.stack x, Search.enter, List.mem_cons,
      decide_eq_true_eq]
    constructor
    · rintro ⟨hx, hne⟩
      exact hx.resolve_left hne
    · intro hx
      exact ⟨.inr hx, fun heq => hout (heq ▸ hx)⟩
  refine ⟨?_, hstack, fun x hx => hret.visited x (List.mem_cons_of_mem _ hx), fun hsafe x hx hx' => ?_⟩
  · simp [Search.leave, hret.path, Search.enter]
  · have hsafe' : LeftSafely deps st' := by
      refine hret.safe fun y hy hy' => ?_
      simp only [Search.enter, List.mem_cons, not_or] at hy hy'
      exact hsafe y (hy.resolve_left hy'.1) hy'.2
    by_cases heq : x = node
    · subst heq
      refine Acc.intro x fun d hd => ?_
      obtain ⟨hmem, hnot⟩ := hall d hd
      rw [← hret.stack d] at hnot
      exact hsafe' d hmem hnot
    · refine hsafe' x hx fun hin => hx' ?_
      exact List.mem_filter.mpr ⟨hin, by simpa using heq⟩

theorem visit_spec {nodes : List α} (hclosed : ∀ x ∈ nodes, ∀ d ∈ deps x, d ∈ nodes)
    {fuel : Nat} {node : α} (hnode : node ∈ nodes) {st : Search α} (hfresh : node ∉ st.visited)
    (hon : OnPath deps st) (hchain : (st.path ++ [node]).IsChain fun x y => y ∈ deps x)
    (hfuel : unvisited nodes st.visited ≤ fuel) : VisitSpec deps node st (visit deps fuel node st) := by
  induction fuel generalizing node st with
  | zero =>
    have hlt := unvisited_cons_lt hnode hfresh
    omega
  | succ fuel ih =>
    have hlt := unvisited_cons_lt hnode hfresh
    have henter : OnPath deps (st.enter node) := by
      refine ⟨fun x => ?_, fun x hx => ?_, hchain⟩
      · simp only [Search.enter, List.mem_cons, List.mem_append, List.not_mem_nil, or_false,
          hon.stack x]
        exact or_comm
      · simp only [Search.enter, List.mem_cons, List.mem_append, List.not_mem_nil, or_false] at hx ⊢
        exact hx.symm.imp_right (hon.visited x)
    have hvisit : ∀ dep ∈ deps node, ∀ st', dep ∉ st'.visited →
        Returned deps (st.enter node) st' → OnPath deps st' →
        (st'.path ++ [dep]).IsChain (fun x y => y ∈ deps x) →
        VisitSpec deps dep st' (visit deps fuel dep st') := by
      intro dep hdep st' hfresh' hret hon' hchain'
      have hle : unvisited nodes st'.visited ≤ unvisited nodes (node :: st.visited) :=
        unvisited_le hret.visited
      exact ih (hclosed node hnode dep hdep) hfresh' hon' hchain' (by omega)
    have hloop := visitDeps_spec hvisit rfl (fun d hd => hd) henter (.refl _)
    simp only [visit]
    split
    · rename_i st' heq
      rw [heq] at hloop
      rcases hloop with ⟨-, hfound⟩ | ⟨hfalse, -⟩
      · exact .inl ⟨rfl, hfound⟩
      · cases hfalse
    · rename_i st' heq
      rw [heq] at hloop
      rcases hloop with ⟨htrue, -⟩ | ⟨-, hret, hall⟩
      · cases htrue
      · exact .inr ⟨rfl, hret.leave hon hfresh hall, hret.visited node (List.mem_cons_self ..)⟩

/-! ## All searches -/

variable (deps) in
/-- A walk along dependencies that comes back to where it began. -/
def IsCycle (cycle : List α) : Prop :=
  cycle.IsChain (fun x y => y ∈ deps x) ∧ ∃ x mid, cycle = x :: mid ++ [x]

theorem cycleOf_isCycle {path : List α} (h : Closed deps path) : IsCycle deps (cycleOf path) := by
  obtain ⟨hchain, front, last, rfl, hmem⟩ := h
  obtain ⟨before, mid, rfl, hbefore⟩ := List.eq_append_cons_of_mem hmem
  have hcycle : cycleOf (before ++ last :: mid ++ [last]) = last :: mid ++ [last] := by
    have hskip : ∀ x ∈ before, decide (x ≠ last) = true := by
      intro x hx
      rw [decide_eq_true_eq]
      exact fun heq => hbefore (heq ▸ hx)
    simp only [cycleOf, List.getLast?_concat]
    rw [List.append_assoc, List.dropWhile_append_of_pos hskip, List.cons_append, List.dropWhile_cons_of_neg (by simp)]
  rw [hcycle]
  refine ⟨?_, last, mid, rfl⟩
  rw [List.append_assoc] at hchain
  exact hchain.right_of_append

omit [DecidableEq α] in
theorem transGen_of_isChain {r : α → α → Prop} {x y : α} {mid : List α}
    (h : (x :: mid ++ [y]).IsChain r) : Relation.TransGen r x y := by
  induction mid generalizing x with
  | nil => exact .single (List.isChain_cons_cons.mp h).1
  | cons z mid ih =>
    obtain ⟨hstep, hrest⟩ := List.isChain_cons_cons.mp h
    exact .head hstep (ih hrest)

omit [DecidableEq α] in
theorem exists_next_of_isChain {r : α → α → Prop} {l : List α} {y : α}
    (h : (l ++ [y]).IsChain r) : ∀ x ∈ l, ∃ z, r x z := by
  induction l with
  | nil => exact fun _ hx => absurd hx List.not_mem_nil
  | cons x l ih =>
    cases l with
    | nil =>
      obtain ⟨hstep, -⟩ := List.isChain_cons_cons.mp h
      exact List.forall_mem_cons.mpr ⟨⟨y, hstep⟩, fun _ hx => absurd hx List.not_mem_nil⟩
    | cons z l =>
      obtain ⟨hstep, hrest⟩ := List.isChain_cons_cons.mp h
      exact List.forall_mem_cons.mpr ⟨⟨z, hstep⟩, ih hrest⟩

omit [DecidableEq α] in
/-- Every node of a cycle has a dependency. -/
theorem IsCycle.exists_dep {cycle : List α} (h : IsCycle deps cycle) :
    ∀ x ∈ cycle, ∃ d, d ∈ deps x := by
  obtain ⟨hchain, first, mid, rfl⟩ := h
  have hnext := exists_next_of_isChain hchain
  intro x hx
  rcases List.mem_append.mp hx with hx | hx
  · exact hnext x hx
  · rw [List.mem_singleton.mp hx]
    exact hnext first (List.mem_cons_self ..)

omit [DecidableEq α] in
theorem IsCycle.transGen {cycle : List α} (h : IsCycle deps cycle) :
    ∃ x ∈ cycle, Relation.TransGen (fun p d => d ∈ deps p) x x := by
  obtain ⟨hchain, x, mid, rfl⟩ := h
  exact ⟨x, List.mem_cons_self .., transGen_of_isChain hchain⟩

omit [DecidableEq α] in
/-- Between two searches the stack is empty. -/
theorem onPath_start {st : Search α} (hstack : ∀ x, x ∉ st.inStack) :
    OnPath deps { st with path := [] } where
  stack x := by simp [hstack x]
  visited x hx := absurd hx List.not_mem_nil
  chain := List.isChain_nil

section
variable {nodes : List α} {fuel : Nat}

theorem root_spec (hclosed : ∀ x ∈ nodes, ∀ d ∈ deps x, d ∈ nodes) (hfuel : nodes.length ≤ fuel)
    {root : α} (hroot : root ∈ nodes) {st : Search α} (hfresh : root ∉ st.visited)
    (hstack : ∀ x, x ∉ st.inStack) :
    VisitSpec deps root { st with path := [] } (visit deps fuel root { st with path := [] }) :=
  visit_spec hclosed hroot hfresh (onPath_start hstack) (List.isChain_singleton _)
    (List.countP_le_length.trans hfuel)

/-- Every cycle that is reported is one. -/
theorem isCycle_of_mem_detectAll (hclosed : ∀ x ∈ nodes, ∀ d ∈ deps x, d ∈ nodes)
    (hfuel : nodes.length ≤ fuel) {roots : List α} (hroots : ∀ r ∈ roots, r ∈ nodes)
    {st : Search α} (hstack : ∀ x, x ∉ st.inStack) :
    ∀ cycle ∈ detectAll deps fuel roots st, IsCycle deps cycle := by
  induction roots generalizing st with
  | nil => exact fun _ h => absurd h List.not_mem_nil
  | cons root roots ih =>
    rw [List.forall_mem_cons] at hroots
    simp only [detectAll]
    split
    · rename_i hfresh
      have hspec := root_spec hclosed hfuel hroots.1 hfresh hstack
      split
      · rename_i st' heq
        rw [heq] at hspec
        rcases hspec with ⟨-, hcycle⟩ | ⟨hfalse, -⟩
        · refine List.forall_mem_cons.mpr ⟨cycleOf_isCycle hcycle, ih hroots.2 fun x => ?_⟩
          exact List.not_mem_nil
        · cases hfalse
      · rename_i st' heq
        rw [heq] at hspec
        rcases hspec with ⟨htrue, -⟩ | ⟨-, hret, -⟩
        · cases htrue
        · exact ih hroots.2 fun x => by simpa [hret.stack x] using hstack x
    · exact ih hroots.2 hstack

/-- If nothing is reported no cycle lies behind any root. -/
theorem acc_of_detectAll_eq_nil (hclosed : ∀ x ∈ nodes, ∀ d ∈ deps x, d ∈ nodes)
    (hfuel : nodes.length ≤ fuel) {roots : List α} (hroots : ∀ r ∈ roots, r ∈ nodes)
    {st : Search α} (hstack : ∀ x, x ∉ st.inStack) (hsafe : LeftSafely deps st)
    (hnone : detectAll deps fuel roots st = []) :
    ∀ r ∈ roots, Acc (fun d p => d ∈ deps p) r := by
  induction roots generalizing st with
  | nil => exact fun _ h => absurd h List.not_mem_nil
  | cons root roots ih =>
    rw [List.forall_mem_cons] at hroots
    simp only [detectAll] at hnone
    split at hnone
    · rename_i hfresh
      have hspec := root_spec hclosed hfuel hroots.1 hfresh hstack
      split at hnone
      · cases hnone
      · rename_i st' heq
        rw [heq] at hspec
        rcases hspec with ⟨htrue, -⟩ | ⟨-, hret, hmem⟩
        · cases htrue
        · have hstack' : ∀ x, x ∉ st'.inStack := fun x => by simpa [hret.stack x] using hstack x
          have hsafe' : LeftSafely deps st' := hret.safe hsafe
          exact List.forall_mem_cons.mpr ⟨hsafe' root hmem (hstack' root),
            ih hroots.2 hstack' hsafe' hnone⟩
    · rename_i hseen
      exact List.forall_mem_cons.mpr ⟨hsafe root (not_not.mp hseen) (hstack root),
        ih hroots.2 hstack hsafe hnone⟩

end

end

end Voom.Lib.Dfs
