-- SUMMARY: Fair schedules: a system that can always move and only falls comes to its end.
import Mathlib.Data.Set.Basic
import Mathlib.Tactic.Common

/-!
# Fair schedules

A schedule says who acts next, for ever. It is fair to an actor that acts again
and again. Where a measure falls with every step that changes something, and some
actor can change something until the system is done, every fair schedule gets it
done, whatever else acts in between.
-/

namespace Voom.Lib

variable {σ α : Type*} (step : σ → α → σ)

/-- The state before each step of a schedule. -/
def trace (s : σ) (schedule : Nat → α) : Nat → σ
  | 0 => s
  | n + 1 => step (trace s schedule n) (schedule n)

/-- The actors act again and again. -/
def Fair (actors : Set α) (schedule : Nat → α) : Prop :=
  ∀ a ∈ actors, ∀ n, ∃ m, n ≤ m ∧ schedule m = a

structure Progress (Inv Done : σ → Prop) (actors : Set α) (measure : σ → Nat) : Prop where
  keeps : ∀ s a, Inv s → Inv (step s a)
  falls : ∀ s a, Inv s → step s a ≠ s → measure (step s a) < measure s
  free : ∀ s, Inv s → ¬Done s → ∃ a ∈ actors, step s a ≠ s

namespace Progress

variable {step} {Inv Done : σ → Prop} {actors : Set α} {measure : σ → Nat} {s : σ}
  {schedule : Nat → α}

theorem trace_inv (h : Progress step Inv Done actors measure) (hs : Inv s) (n : Nat) :
    Inv (trace step s schedule n) := by
  induction n with
  | zero => exact hs
  | succ n ih => exact h.keeps _ _ ih

/-- Until the system is done, something happens. -/
theorem exists_lt (h : Progress step Inv Done actors measure) (hs : Inv s)
    (hfair : Fair actors schedule) {k : Nat} (hdone : ¬Done (trace step s schedule k)) :
    ∃ n, measure (trace step s schedule n) < measure (trace step s schedule k) := by
  obtain ⟨a, ha, hfree⟩ := h.free _ (h.trace_inv hs k) hdone
  obtain ⟨m, hkm, hm⟩ := hfair a ha k
  by_contra! hle
  -- nothing has changed when the actor acts again, so it moves now
  have hsame (d : Nat) : trace step s schedule (k + d) = trace step s schedule k := by
    induction d with
    | zero => rfl
    | succ d ih =>
      by_contra hmove
      have hmove : trace step s schedule (k + d + 1) ≠ trace step s schedule (k + d) := by
        rwa [ih]
      have hlt : measure (trace step s schedule (k + d + 1)) <
          measure (trace step s schedule (k + d)) :=
        h.falls _ _ (h.trace_inv hs (k + d)) hmove
      rw [ih] at hlt
      exact absurd hlt (Nat.not_lt.mpr (hle (k + d + 1)))
  obtain ⟨d, rfl⟩ := Nat.exists_eq_add_of_le hkm
  have hmove : trace step s schedule (k + d + 1) ≠ trace step s schedule (k + d) := by
    rw [hsame d]
    have hstep : trace step s schedule (k + d + 1) = step (trace step s schedule k) a := by
      rw [trace, hsame d, hm]
    rwa [hstep]
  exact hmove ((hsame (d + 1)).trans (hsame d).symm)

/-- Every fair schedule gets the system done. -/
theorem eventually_done (h : Progress step Inv Done actors measure) (hs : Inv s)
    (hfair : Fair actors schedule) : ∃ n, Done (trace step s schedule n) := by
  by_contra! hdone
  have hfall (bound : Nat) : ∀ k, measure (trace step s schedule k) < bound → False := by
    induction bound with
    | zero => exact fun k hk => absurd hk (Nat.not_lt_zero _)
    | succ bound ih =>
      intro k hk
      obtain ⟨n, hn⟩ := h.exists_lt hs hfair (hdone k)
      exact ih n (by omega)
  exact hfall _ 0 (Nat.lt_succ_self _)

end Progress

end Voom.Lib
