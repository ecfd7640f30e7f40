-- SUMMARY: Results with a log of what happened on the way, and short-circuit evaluation over them.
import Mathlib.Tactic.Common

/-!
# Logged

A result together with the events on the way to it. Conjunction and disjunction stop where the
result is known, so what comes after leaves nothing in the log.
-/

namespace Voom.Lib

structure Logged (ε α : Type*) where
  value : α
  log : List ε

namespace Logged

variable {ε α : Type*}

/-- Nothing happens on the way. -/
def silent (value : α) : Logged ε α := ⟨value, []⟩

def not (x : Logged ε Bool) : Logged ε Bool := ⟨!x.value, x.log⟩

def and (x y : Logged ε Bool) : Logged ε Bool :=
  if x.value then ⟨y.value, x.log ++ y.log⟩ else x

def or (x y : Logged ε Bool) : Logged ε Bool :=
  if x.value then x else ⟨y.value, x.log ++ y.log⟩

/-- Some item passes; the items after the first that does are not looked at. -/
def any (p : α → Logged ε Bool) : List α → Logged ε Bool
  | [] => silent false
  | a :: rest => (p a).or (any p rest)

/-- The number of items that pass. -/
def countP (p : α → Logged ε Bool) (items : List α) : Logged ε Nat :=
  ⟨items.countP fun a => (p a).value, items.flatMap fun a => (p a).log⟩

@[simp] theorem silent_value (value : α) : (silent value : Logged ε α).value = value := rfl

@[simp] theorem silent_log (value : α) : (silent value : Logged ε α).log = [] := rfl

@[simp] theorem not_value (x : Logged ε Bool) : x.not.value = !x.value := rfl

@[simp] theorem not_log (x : Logged ε Bool) : x.not.log = x.log := rfl

@[simp] theorem and_value (x y : Logged ε Bool) : (x.and y).value = (x.value && y.value) := by
  unfold Logged.and
  cases hx : x.value <;> simp [hx]

@[simp] theorem or_value (x y : Logged ε Bool) : (x.or y).value = (x.value || y.value) := by
  unfold Logged.or
  cases hx : x.value <;> simp [hx]

@[simp] theorem any_value (p : α → Logged ε Bool) (items : List α) :
    (any p items).value = items.any fun a => (p a).value := by
  induction items with
  | nil => rfl
  | cons a rest ih => rw [any, or_value, ih, List.any_cons]

@[simp] theorem countP_value (p : α → Logged ε Bool) (items : List α) :
    (countP p items).value = items.countP fun a => (p a).value := rfl

theorem mem_and_log {x y : Logged ε Bool} {e : ε} (h : e ∈ (x.and y).log) :
    e ∈ x.log ∨ e ∈ y.log := by
  unfold Logged.and at h
  split at h
  · exact List.mem_append.mp h
  · exact .inl h

theorem mem_or_log {x y : Logged ε Bool} {e : ε} (h : e ∈ (x.or y).log) :
    e ∈ x.log ∨ e ∈ y.log := by
  unfold Logged.or at h
  split at h
  · exact .inl h
  · exact List.mem_append.mp h

theorem mem_any_log {p : α → Logged ε Bool} {items : List α} {e : ε}
    (h : e ∈ (any p items).log) : ∃ a ∈ items, e ∈ (p a).log := by
  induction items with
  | nil => exact absurd h List.not_mem_nil
  | cons a rest ih =>
    rcases mem_or_log h with h | h
    · exact ⟨a, List.mem_cons_self, h⟩
    · obtain ⟨b, hb, h⟩ := ih h
      exact ⟨b, List.mem_cons_of_mem a hb, h⟩

theorem mem_countP_log {p : α → Logged ε Bool} {items : List α} {e : ε}
    (h : e ∈ (countP p items).log) : ∃ a ∈ items, e ∈ (p a).log :=
  List.mem_flatMap.mp h

end Logged

end Voom.Lib
