-- SUMMARY: Wrapping arithmetic of machine integers, signed around zero.
import Mathlib.Algebra.Order.Ring.Int
import Mathlib.Data.Int.ModEq

/-!
# Machine integers

A signed type holds the integers from `-half` up to `half`; arithmetic that leaves it goes round.
Wrapping early or late comes to the same, so a computation is right if its result fits.
-/

namespace Voom.Lib.MachineInt

/-- The value of a signed type that stands for an integer. -/
def wrapSigned (half x : Int) : Int := (x + half) % (2 * half) - half

/-- The sum of an unsigned type, added up from the left. -/
def wrapSum (size : Nat) (xs : List Nat) : Nat := xs.foldl (fun acc x => (acc + x) % size) 0

variable {half x y : Int}

theorem wrapSigned_range (hhalf : 0 < half) (x : Int) :
    -half ≤ wrapSigned half x ∧ wrapSigned half x < half := by
  have hpos : 0 < 2 * half := by omega
  have hnonneg := Int.emod_nonneg (x + half) (ne_of_gt hpos)
  have hlt := Int.emod_lt_of_pos (x + half) hpos
  unfold wrapSigned
  omega

/-- Wrapping keeps the integer up to whole turns. -/
theorem wrapSigned_modEq (half x : Int) : wrapSigned half x ≡ x [ZMOD 2 * half] := by
  have h := (Int.mod_modEq (x + half) (2 * half)).sub_right half
  rwa [add_sub_cancel_right] at h

theorem wrapSigned_eq_self_iff (hhalf : 0 < half) :
    wrapSigned half x = x ↔ -half ≤ x ∧ x < half := by
  constructor
  · intro h
    rw [← h]
    exact wrapSigned_range hhalf x
  · rintro ⟨hlow, hhigh⟩
    unfold wrapSigned
    rw [Int.emod_eq_of_lt (by omega) (by omega), add_sub_cancel_right]

/-- Integers that differ by whole turns wrap alike. -/
theorem wrapSigned_congr (h : x ≡ y [ZMOD 2 * half]) : wrapSigned half x = wrapSigned half y := by
  unfold wrapSigned
  rw [h.add_right half]

/-- The difference of wrapped integers is the wrapped difference. -/
theorem wrapSigned_sub (half x y : Int) :
    wrapSigned half (wrapSigned half x - wrapSigned half y) = wrapSigned half (x - y) :=
  wrapSigned_congr ((wrapSigned_modEq half x).sub (wrapSigned_modEq half y))

theorem wrapSum_eq (size : Nat) (xs : List Nat) : wrapSum size xs = xs.sum % size := by
  have hfold (acc : Nat) : xs.foldl (fun acc x => (acc + x) % size) (acc % size) =
      (acc + xs.sum) % size := by
    induction xs generalizing acc with
    | nil => simp
    | cons x xs ih =>
      rw [List.foldl_cons, List.sum_cons, Nat.mod_add_mod, ih, Nat.add_assoc]
  simpa [wrapSum] using hfold 0

end Voom.Lib.MachineInt
