-- SUMMARY: Ledgers of items that come in one by one and are settled from the front.
import Mathlib.Data.List.Basic
import Mathlib.Tactic.Common

/-!
# Ledgers

A ledger lists items in the order they came in. An item waits until it is
settled, and then has its fate. Items are settled from the front: the ones that
have waited longest first.
-/

namespace Voom.Lib

abbrev Ledger (Item Fate : Type*) := List (Item × Option Fate)

namespace Ledger

variable {Item Fate : Type*}

def items (ledger : Ledger Item Fate) : List Item := ledger.map Prod.fst

def waiting (ledger : Ledger Item Fate) : List Item :=
  ledger.filterMap fun (item, fate) => if fate.isNone then some item else none

/-- The items of one fate, in the order they came in. -/
def settled [DecidableEq Fate] (fate : Fate) (ledger : Ledger Item Fate) : List Item :=
  ledger.filterMap fun (item, fate') => if fate' = some fate then some item else none

/-- Settle so many of the items that wait. -/
def settle (fate : Fate) : Nat → Ledger Item Fate → Ledger Item Fate
  | 0, ledger => ledger
  | _, [] => []
  | count + 1, (item, none) :: ledger => (item, some fate) :: settle fate count ledger
  | count + 1, (item, some fate') :: ledger => (item, some fate') :: settle fate (count + 1) ledger

/-- No item waits in front of one with this fate. -/
def Orderly (fate : Fate) (ledger : Ledger Item Fate) : Prop :=
  ledger.Pairwise fun earlier later => earlier.2 = none → later.2 ≠ some fate

/-! ## New items -/

theorem items_append (ledger later : Ledger Item Fate) :
    items (ledger ++ later) = items ledger ++ items later := List.map_append

theorem waiting_append (ledger later : Ledger Item Fate) :
    waiting (ledger ++ later) = waiting ledger ++ waiting later := List.filterMap_append

theorem settled_append [DecidableEq Fate] (fate : Fate) (ledger later : Ledger Item Fate) :
    settled fate (ledger ++ later) = settled fate ledger ++ settled fate later :=
  List.filterMap_append

theorem waiting_cons_some (item : Item) (fate : Fate) (ledger : Ledger Item Fate) :
    waiting ((item, some fate) :: ledger) = waiting ledger := rfl

theorem waiting_cons_none (item : Item) (ledger : Ledger Item Fate) :
    waiting ((item, none) :: ledger) = item :: waiting ledger := rfl

theorem settled_cons [DecidableEq Fate] (fate : Fate) (entry : Item × Option Fate)
    (ledger : Ledger Item Fate) :
    settled fate (entry :: ledger) = settled fate [entry] ++ settled fate ledger :=
  settled_append fate [entry] ledger

/-- An item that comes in with another fate or waits leaves a ledger orderly. -/
theorem Orderly.concat {fate : Fate} {ledger : Ledger Item Fate} (h : Orderly fate ledger)
    (item : Item) {fate' : Option Fate} (hfate : fate' ≠ some fate) :
    Orderly fate (ledger ++ [(item, fate')]) := by
  apply List.pairwise_append.mpr
  refine ⟨h, List.pairwise_singleton _ _, ?_⟩
  intro earlier _ later hlater _
  rw [List.mem_singleton.mp hlater]
  exact hfate

/-! ## Settling -/

@[simp] theorem settle_nil (fate : Fate) (count : Nat) :
    settle fate count ([] : Ledger Item Fate) = [] := by
  cases count <;> rfl

@[simp] theorem settle_zero (fate : Fate) (ledger : Ledger Item Fate) :
    settle fate 0 ledger = ledger := by
  cases ledger <;> rfl

theorem settle_cons_none (fate : Fate) (count : Nat) (item : Item) (ledger : Ledger Item Fate) :
    settle fate (count + 1) ((item, none) :: ledger) =
      (item, some fate) :: settle fate count ledger := rfl

theorem settle_cons_some (fate : Fate) (count : Nat) (item : Item) (fate' : Fate)
    (ledger : Ledger Item Fate) :
    settle fate count ((item, some fate') :: ledger) =
      (item, some fate') :: settle fate count ledger := by
  cases count with
  | zero => rw [settle_zero, settle_zero]
  | succ count => rfl

/-- Induction along a ledger of which so many items are settled. -/
theorem settle_induction {P : Nat → Ledger Item Fate → Prop} (zero : ∀ ledger, P 0 ledger)
    (nil : ∀ count, P count [])
    (waits : ∀ count item ledger, P count ledger → P (count + 1) ((item, none) :: ledger))
    (done : ∀ count item fate ledger, P count ledger → P count ((item, some fate) :: ledger))
    (count : Nat) (ledger : Ledger Item Fate) : P count ledger := by
  induction ledger generalizing count with
  | nil => exact nil count
  | cons entry ledger ih =>
    obtain ⟨item, _ | fate⟩ := entry
    · cases count with
      | zero => exact zero _
      | succ count => exact waits count item ledger (ih count)
    · exact done count item fate ledger (ih count)

@[simp] theorem items_settle (fate : Fate) (count : Nat) (ledger : Ledger Item Fate) :
    items (settle fate count ledger) = items ledger := by
  induction count, ledger using settle_induction with
  | zero ledger => rw [settle_zero]
  | nil count => rw [settle_nil]
  | waits count item ledger ih => exact congrArg (item :: ·) ih
  | done count item fate' ledger ih =>
    rw [settle_cons_some]
    exact congrArg (item :: ·) ih

/-- The items settled no longer wait. -/
theorem waiting_settle (fate : Fate) (count : Nat) (ledger : Ledger Item Fate) :
    waiting (settle fate count ledger) = (waiting ledger).drop count := by
  induction count, ledger using settle_induction with
  | zero ledger => rw [settle_zero, List.drop_zero]
  | nil count => simp [waiting]
  | waits count item ledger ih => simpa [waiting, settle_cons_none] using ih
  | done count item fate' ledger ih => simpa [waiting, settle_cons_some] using ih

variable [DecidableEq Fate]

theorem settled_settle_of_ne {fate fate' : Fate} (h : fate' ≠ fate) (count : Nat)
    (ledger : Ledger Item Fate) :
    settled fate' (settle fate count ledger) = settled fate' ledger := by
  induction count, ledger using settle_induction with
  | zero ledger => rw [settle_zero]
  | nil count => rw [settle_nil]
  | waits count item ledger ih => simpa [settled, settle_cons_none, h.symm] using ih
  | done count item earlier ledger ih =>
    rw [settle_cons_some, settled_cons fate' _ (settle _ _ _), settled_cons fate' _ ledger, ih]

theorem length_settled_settle (fate : Fate) (count : Nat) (ledger : Ledger Item Fate) :
    (settled fate (settle fate count ledger)).length =
      (settled fate ledger).length + min count (waiting ledger).length := by
  induction count, ledger using settle_induction with
  | zero ledger => simp
  | nil count => simp [settled, waiting]
  | waits count item ledger ih =>
    rw [settle_cons_none, settled_cons fate _ (settle _ _ _), settled_cons fate _ ledger,
      List.length_append, List.length_append, ih, waiting_cons_none, List.length_cons]
    simp only [settled, List.filterMap_cons, List.filterMap_nil, if_true, List.length_singleton,
      reduceCtorEq, if_false, List.length_nil]
    omega
  | done count item earlier ledger ih =>
    rw [settle_cons_some, settled_cons fate _ (settle _ _ _), settled_cons fate _ ledger,
      List.length_append, List.length_append, ih, waiting_cons_some, Nat.add_assoc]

theorem settled_eq_nil_of_orderly {fate : Fate} {item : Item} {ledger : Ledger Item Fate}
    (h : Orderly fate ((item, none) :: ledger)) : settled fate ledger = [] := by
  apply List.filterMap_eq_nil_iff.mpr
  rintro ⟨later, fate'⟩ hlater
  have hne := (List.pairwise_cons.mp h).1 _ hlater rfl
  exact if_neg hne

/-- In an orderly ledger the items settled come behind the ones settled before. -/
theorem settled_settle {fate : Fate} {ledger : Ledger Item Fate} (h : Orderly fate ledger)
    (count : Nat) :
    settled fate (settle fate count ledger) =
      settled fate ledger ++ (waiting ledger).take count := by
  induction count, ledger using settle_induction with
  | zero ledger => simp
  | nil count => simp [settled, waiting]
  | waits count item ledger ih =>
    have hnone := settled_eq_nil_of_orderly h
    have ih := ih (List.pairwise_cons.mp h).2
    rw [hnone, List.nil_append] at ih
    rw [settle_cons_none, settled_cons fate _ (settle _ _ _), settled_cons fate _ ledger, ih, hnone]
    simp [settled, waiting_cons_none]
  | done count item earlier ledger ih =>
    have ih := ih (List.pairwise_cons.mp h).2
    rw [settle_cons_some, settled_cons fate _ (settle _ _ _), settled_cons fate _ ledger, ih,
      waiting_cons_some, List.append_assoc]

omit [DecidableEq Fate] in
/-- Settling from the front leaves a ledger orderly for every fate. -/
theorem Orderly.settle {fate : Fate} {ledger : Ledger Item Fate} (h : Orderly fate ledger)
    (fate' : Fate) (count : Nat) : Orderly fate (settle fate' count ledger) := by
  induction count, ledger using settle_induction with
  | zero ledger => rwa [settle_zero]
  | nil count => rwa [settle_nil]
  | waits count item ledger ih =>
    apply List.pairwise_cons.mpr
    exact ⟨fun _ _ hnone => (nomatch hnone), ih (List.pairwise_cons.mp h).2⟩
  | done count item earlier ledger ih =>
    rw [settle_cons_some]
    apply List.pairwise_cons.mpr
    exact ⟨fun _ _ hnone => (nomatch hnone), ih (List.pairwise_cons.mp h).2⟩

/-! ## Ledgers where no item waits -/

omit [DecidableEq Fate] in
theorem exists_fates {ledger : Ledger Item Fate} (h : waiting ledger = []) :
    ∃ fates : List (Item × Fate), ledger = fates.map fun (item, fate) => (item, some fate) := by
  induction ledger with
  | nil => exact ⟨[], rfl⟩
  | cons entry ledger ih =>
    obtain ⟨item, fate⟩ := entry
    cases fate with
    | none => exact absurd h (List.cons_ne_nil _ _)
    | some fate =>
      obtain ⟨fates, rfl⟩ := ih h
      exact ⟨(item, fate) :: fates, rfl⟩

theorem settled_map_some (fate : Fate) (fates : List (Item × Fate)) :
    settled fate (fates.map fun (item, fate) => (item, some fate)) =
      (fates.filter (·.2 = fate)).map Prod.fst := by
  induction fates with
  | nil => rfl
  | cons entry fates ih =>
    obtain ⟨item, fate'⟩ := entry
    simp only [settled] at ih
    simp only [settled, List.map_cons, List.filterMap_cons, List.filter_cons, Option.some.injEq,
      decide_eq_true_eq]
    split <;> simp_all

end Ledger

end Voom.Lib
