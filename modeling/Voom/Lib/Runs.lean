-- SUMMARY: The runs of a list between separators.
import Mathlib.Data.List.Basic
import Mathlib.Data.List.TakeWhile
import Mathlib.Tactic.Common

/-!
# Runs

The longest parts of a list without a separator in them, like the words of a
line or the paragraphs of a text. Several separators in a row separate once.
-/

namespace Voom.Lib

variable {α : Type*} (p : α → Bool)

def runs (l : List α) : List (List α) := (l.splitOnP p).filter fun run => !run.isEmpty

variable {p}

/-- What stands before and behind a separator has its own runs. -/
theorem runs_append_cons {a : α} (ha : p a = true) (front behind : List α) :
    runs p (front ++ a :: behind) = runs p front ++ runs p behind := by
  unfold runs
  rw [List.splitOnP_append_cons front behind ha, List.filter_append]

theorem runs_cons_sep {a : α} (ha : p a = true) (behind : List α) :
    runs p (a :: behind) = runs p behind := runs_append_cons ha [] behind

theorem runs_of_forall {l : List α} (h : ∀ a ∈ l, p a = false) (hne : l ≠ []) : runs p l = [l] := by
  unfold runs
  rw [List.splitOnP_eq_singleton h]
  simp [hne]

/-- What starts without separators has its first run there. -/
theorem runs_append {front : List α} (hfront : ∀ a ∈ front, p a = false) (hne : front ≠ [])
    (l : List α) :
    runs p (front ++ l) = (front ++ l.takeWhile (!p ·)) :: runs p (l.dropWhile (!p ·)) := by
  have hrun : ∀ a ∈ front ++ l.takeWhile (!p ·), p a = false := by
    intro a ha
    obtain ha | ha := List.mem_append.mp ha
    · exact hfront a ha
    · simpa using List.mem_takeWhile_imp ha
  have hsplit := List.takeWhile_append_dropWhile (p := (!p ·)) (l := l)
  conv_lhs => rw [← hsplit, ← List.append_assoc]
  cases hrest : l.dropWhile (!p ·) with
  | nil =>
    rw [List.append_nil]
    exact runs_of_forall hrun (by simp [hne])
  | cons a rest =>
    -- The run ends at a separator.
    have ha : p a = true := by
      have hhead := List.head_dropWhile_not (!p ·) (by rw [hrest]; simp)
      simpa [hrest] using hhead
    rw [runs_append_cons ha, runs_of_forall hrun (by simp [hne]), runs_cons_sep ha]
    rfl

theorem runs_eq_nil_iff {l : List α} : runs p l = [] ↔ ∀ a ∈ l, p a = true := by
  induction l with
  | nil => exact ⟨fun _ => List.forall_mem_nil _, fun _ => rfl⟩
  | cons a l ih =>
    rw [List.forall_mem_cons]
    cases ha : p a with
    | true => rw [runs_cons_sep ha, ih, eq_self, true_and]
    | false =>
      have hfirst := runs_append (show ∀ b ∈ [a], p b = false by simpa using ha) (by simp) l
      rw [List.singleton_append] at hfirst
      simp [hfirst]

end Voom.Lib
