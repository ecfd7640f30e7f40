-- SUMMARY: Runs of a step function: properties along a run, and the invariant rule for them.
import Mathlib.Data.List.Basic

/-!
# Runs

A system is a step function over states and inputs, a run a list of inputs. A
property of steps holds `Along` a run if it holds of every step the run takes;
`Along.of_invariant` derives one such property from another.
-/

namespace Voom.Lib

variable {σ α : Type*} (step : σ → α → σ)

/-- `P` holds of each step of the run, at the state the step starts from. -/
def Along (P : σ → α → Prop) : σ → List α → Prop
  | _, [] => True
  | s, a :: as => P s a ∧ Along P (step s a) as

namespace Along

variable {step} {P Q : σ → α → Prop} {Inv : σ → Prop}

/-- An invariant that steps meeting `P` preserve holds at the end of a run. -/
theorem invariant (hstep : ∀ s a, Inv s → P s a → Inv (step s a)) {s : σ} {as : List α}
    (hinv : Inv s) (hrun : Along step P s as) : Inv (as.foldl step s) := by
  induction as generalizing s with
  | nil => exact hinv
  | cons a as ih => exact ih (hstep s a hinv hrun.1) hrun.2

/-- The invariant rule: what follows at one step from an invariant and a
condition follows along every run whose steps meet the condition. -/
theorem of_invariant (hstep : ∀ s a, Inv s → P s a → Inv (step s a))
    (hlocal : ∀ s a, Inv s → P s a → Q s a) {s : σ} {as : List α}
    (hinv : Inv s) (hrun : Along step P s as) : Along step Q s as := by
  induction as generalizing s with
  | nil => trivial
  | cons a as ih =>
    exact ⟨hlocal s a hinv hrun.1, ih (hstep s a hinv hrun.1) hrun.2⟩

/-- What holds at the end of a run and is never gained on the way holds all along. -/
theorem of_end (hback : ∀ s a, Inv (step s a) → Inv s) {s : σ} {as : List α}
    (hend : Inv (as.foldl step s)) : Along step (fun s _ => Inv s) s as := by
  have hstart (s : σ) (as : List α) (h : Inv (as.foldl step s)) : Inv s := by
    induction as generalizing s with
    | nil => exact h
    | cons a as ih => exact hback s a (ih _ h)
  induction as generalizing s with
  | nil => trivial
  | cons a as ih => exact ⟨hstart s (a :: as) hend, ih hend⟩

/-- A property of the inputs alone. -/
theorem of_forall_mem {as : List α} (h : ∀ a ∈ as, ∀ s, P s a) (s : σ) : Along step P s as := by
  induction as generalizing s with
  | nil => trivial
  | cons a as ih =>
    exact ⟨h a List.mem_cons_self s, ih (fun b hb => h b (List.mem_cons_of_mem _ hb)) _⟩

theorem mono (h : ∀ s a, P s a → Q s a) {s : σ} {as : List α} (hrun : Along step P s as) :
    Along step Q s as := by
  induction as generalizing s with
  | nil => trivial
  | cons a as ih => exact ⟨h s a hrun.1, ih hrun.2⟩

theorem and {s : σ} {as : List α} (hP : Along step P s as) (hQ : Along step Q s as) :
    Along step (fun s a => P s a ∧ Q s a) s as := by
  induction as generalizing s with
  | nil => trivial
  | cons a as ih => exact ⟨⟨hP.1, hQ.1⟩, ih hP.2 hQ.2⟩

/-- The two parts of a run, the second from where the first leads. -/
theorem append_iff {s : σ} {as bs : List α} :
    Along step P s (as ++ bs) ↔ Along step P s as ∧ Along step P (as.foldl step s) bs := by
  induction as generalizing s with
  | nil => simp [Along]
  | cons a as ih => simp only [List.cons_append, Along, ih, List.foldl_cons, and_assoc]

/-- The last step of a run, at the state the others lead to. -/
theorem last {s : σ} {as : List α} {a : α} (hrun : Along step P s (as ++ [a])) :
    P (as.foldl step s) a := by
  induction as generalizing s with
  | nil => exact hrun.1
  | cons b as ih => exact ih hrun.2

end Along

end Voom.Lib
