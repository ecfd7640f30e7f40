-- SUMMARY: Plan lifecycle dispatch: the events of one plan, and the outcome read off the bus's answers.
import Voom.Kernel.Bus

/-!
# Plan lifecycle dispatch

`PlanDispatcher` publishes the lifecycle events of a plan on the bus:
`PlanExecuting` first, then `PlanCreated`, and later one of `PlanCompleted`,
`PlanSkipped` and `PlanFailed`. `PlanOutcome.fromEventResult` reads the results
of the `PlanCreated` round.
-/

namespace Voom.Process

open Kernel

variable {σ : Type}

namespace PlanDispatcher

def executingEvent (plan : Plan) (file : MediaFile) : Event :=
  .planExecuting ⟨plan.id, file.path, plan.phaseName, plan.actions.length⟩

def completedEvent (plan : Plan) (file : MediaFile) (keepBackups : Bool) : Event :=
  .planCompleted ⟨plan.id, file.path, plan.phaseName, plan.actions.length, keepBackups⟩

/-- Dispatch `PlanExecuting` and then `PlanCreated`. The results of the first
round are logged and dropped. -/
def begin (subs : List (Subscriber σ)) (plan : Plan) (file : MediaFile) (st : BusState σ) :
    BusState σ × List EventResult :=
  let (st, _) := publish subs (executingEvent plan file) st
  publish subs (.planCreated plan) st

def created (subs : List (Subscriber σ)) (plan : Plan) (st : BusState σ) : BusState σ :=
  (publish subs (.planCreated plan) st).1

def completed (subs : List (Subscriber σ)) (plan : Plan) (file : MediaFile) (keepBackups : Bool)
    (st : BusState σ) : BusState σ :=
  (publish subs (completedEvent plan file keepBackups) st).1

def skipped (subs : List (Subscriber σ)) (plan : Plan) (file : MediaFile) (reason : String)
    (st : BusState σ) : BusState σ :=
  (publish subs (.planSkipped ⟨plan.id, file.path, plan.phaseName, reason⟩) st).1

def failed (subs : List (Subscriber σ)) (event : PlanFailedEvent) (st : BusState σ) : BusState σ :=
  (publish subs (.planFailed event) st).1

end PlanDispatcher

/-! ## Outcomes -/

inductive PlanOutcome where
  | success (executor : String)
  | failed (event : PlanFailedEvent)
  deriving DecidableEq, Repr

namespace PlanOutcome

/-- The first plugin to claim, the first execution error and the first
execution detail decide. -/
def fromEventResult (results : List EventResult) (plan : Plan) (file : MediaFile) : PlanOutcome :=
  let claimedName := (results.find? (·.claimed)).map (·.pluginName)
  let execError := results.findSome? (·.executionError)
  let execDetail := results.findSome? (·.executionDetail)
  match claimedName, execError with
  | some name, none => .success name
  | _, some error =>
    .failed { planId := plan.id, path := file.path, phaseName := plan.phaseName, error,
              pluginName := claimedName, executionDetail := execDetail }
  | none, none =>
    .failed { planId := plan.id, path := file.path, phaseName := plan.phaseName,
              error := "no executor available for plan" }

/-- Success is a claim without any execution error. -/
theorem fromEventResult_success_iff {results : List EventResult} {plan : Plan} {file : MediaFile} :
    (∃ executor, fromEventResult results plan file = .success executor) ↔
      (∃ r ∈ results, r.claimed = true) ∧ ∀ r ∈ results, r.executionError = none := by
  have hclaimed : (results.find? (·.claimed)).map (·.pluginName) = none ↔
      ∀ r ∈ results, r.claimed = false := by
    simp
  have herror : results.findSome? (·.executionError) = none ↔
      ∀ r ∈ results, r.executionError = none := by
    simp
  rw [← herror]
  simp only [fromEventResult]
  cases hc : (results.find? (·.claimed)).map (·.pluginName) with
  | none =>
    have hno : ¬ ∃ r ∈ results, r.claimed = true := by
      rintro ⟨r, hr, hclaim⟩
      simp [hclaimed.mp hc r hr] at hclaim
    cases he : results.findSome? (·.executionError) <;> simp [hno]
  | some name =>
    have hyes : ∃ r ∈ results, r.claimed = true := by
      by_contra hno
      have hnone := hclaimed.mpr fun r hr => by
        by_contra hclaim
        exact hno ⟨r, hr, by simpa using hclaim⟩
      rw [hnone] at hc
      cases hc
    cases he : results.findSome? (·.executionError) <;> simp [hyes]

/-- A failed outcome is about the plan and the path it was executed for. -/
theorem fromEventResult_failed {results : List EventResult} {plan : Plan} {file : MediaFile}
    {event : PlanFailedEvent} (h : fromEventResult results plan file = .failed event) :
    event.planId = plan.id ∧ event.path = file.path ∧ event.phaseName = plan.phaseName := by
  simp only [fromEventResult] at h
  split at h
  · cases h
  · cases h
    exact ⟨rfl, rfl, rfl⟩
  · cases h
    exact ⟨rfl, rfl, rfl⟩

end PlanOutcome

/-- `execute_single_plan`: begin the plan and read its outcome. Closing it is up
to the caller. -/
def executeSinglePlan (subs : List (Subscriber σ)) (plan : Plan) (file : MediaFile)
    (st : BusState σ) : BusState σ × PlanOutcome :=
  let (st, results) := PlanDispatcher.begin subs plan file st
  (st, PlanOutcome.fromEventResult results plan file)

end Voom.Process
