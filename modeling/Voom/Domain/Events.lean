-- SUMMARY: The events of the bus, the results handlers return, and the summary of a plan execution.
import Voom.Domain.Plan

/-!
# Events

Every event kind of the program is listed in `EventType`. An event carries the
payload some modelled handler reads; a kind no modelled handler looks into is
kept as `Event.other`.
-/

namespace Voom

inductive EventType where
  | fileDiscovered | rootWalkCompleted | fileIntrospected | fileIntrospectionFailed
  | metadataEnriched | subtitleGenerated
  | planCreated | planExecuting | planCompleted | planSkipped | planFailed
  | jobStarted | jobProgress | jobCompleted | jobEnqueueRequested
  | toolDetected | executorCapabilities | pluginError | healthStatus
  | scanComplete | introspectSessionCompleted | retentionCompleted
  | verifyCompleted | fileQuarantined
  deriving DecidableEq, Repr, Inhabited

structure PlanExecutingEvent where
  planId : Uuid
  path : Path
  phaseName : String
  actionCount : Nat
  deriving DecidableEq, Repr

structure PlanCompletedEvent where
  planId : Uuid
  path : Path
  phaseName : String
  actionsApplied : Nat
  keepBackups : Bool
  deriving DecidableEq, Repr

structure PlanSkippedEvent where
  planId : Uuid
  path : Path
  phaseName : String
  skipReason : String
  deriving DecidableEq, Repr

structure PlanFailedEvent where
  planId : Uuid
  path : Path
  phaseName : String
  error : String
  pluginName : Option String := none
  executionDetail : Option ExecutionDetail := none
  deriving DecidableEq, Repr

structure PluginErrorEvent where
  pluginName : String
  eventType : EventType
  error : String
  deriving DecidableEq, Repr

structure SubtitleGeneratedEvent where
  path : Path
  subtitlePath : Path
  language : String
  forced : Bool
  title : Option String := none
  scanSession : Option Uuid := none
  deriving DecidableEq, Repr

inductive Event where
  | planCreated (plan : Plan)
  | planExecuting (evt : PlanExecutingEvent)
  | planCompleted (evt : PlanCompletedEvent)
  | planSkipped (evt : PlanSkippedEvent)
  | planFailed (evt : PlanFailedEvent)
  | pluginError (evt : PluginErrorEvent)
  | subtitleGenerated (evt : SubtitleGeneratedEvent)
  | fileIntrospected (file : MediaFile)
  | verifyCompleted (fileId : Uuid) (path : Path) (mode : VerificationMode)
  | fileQuarantined (fileId : Uuid) (src dst : Path) (reason : String)
  | other (kind : EventType)
  deriving DecidableEq, Repr

namespace Event

def eventType : Event → EventType
  | .planCreated _ => .planCreated
  | .planExecuting _ => .planExecuting
  | .planCompleted _ => .planCompleted
  | .planSkipped _ => .planSkipped
  | .planFailed _ => .planFailed
  | .pluginError _ => .pluginError
  | .subtitleGenerated _ => .subtitleGenerated
  | .fileIntrospected _ => .fileIntrospected
  | .verifyCompleted _ _ _ => .verifyCompleted
  | .fileQuarantined _ _ _ _ => .fileQuarantined
  | .other kind => kind

/-- The events of the plan lifecycle, which tell plugins that a plan is in motion. -/
def isLifecycle : Event → Bool
  | .planCreated _ | .planExecuting _ | .planCompleted _ | .planSkipped _ | .planFailed _ => true
  | _ => false

end Event

/-! ## Errors and results -/

inductive StorageErrorKind where
  | constraintViolation | notFound | other
  deriving DecidableEq, Repr, Inhabited

inductive VoomError where
  | plugin (plugin message : String)
  | wasm (message : String)
  | storage (kind : StorageErrorKind) (message : String)
  | toolNotFound (tool : String)
  | toolExecution (tool message : String)
  | validation (message : String)
  | io (message : String)
  | other (message : String)
  deriving DecidableEq, Repr, Inhabited

/-- The display text of an error. -/
def VoomError.toText : VoomError → String
  | .plugin name message => "plugin error: " ++ name ++ ": " ++ message
  | .wasm message => "wasm error: " ++ message
  | .storage _ message => "storage error: " ++ message
  | .toolNotFound tool => "tool not found: " ++ tool
  | .toolExecution tool message => "tool execution error: " ++ tool ++ ": " ++ message
  | .validation message => "validation error: " ++ message
  | .io message => "I/O error: " ++ message
  | .other message => message

/-- What a plugin returns after processing an event. -/
structure EventResult where
  pluginName : String
  producedEvents : List Event := []
  claimed : Bool := false
  executionError : Option String := none
  executionDetail : Option ExecutionDetail := none
  deriving DecidableEq, Repr

namespace EventResult

def planSucceeded (pluginName : String) : EventResult :=
  { pluginName, claimed := true }

def planFailed (pluginName error : String) : EventResult :=
  { pluginName, claimed := true, executionError := some error }

/-- Wrap the outcome of an executor's plan execution. Only an execution in
which every reported action failed, or one that returned an error, is turned
into a failed result. -/
def fromPlanExecution (pluginName : String) :
    Except VoomError (List ActionResult) → EventResult
  | .ok results =>
    let actionsApplied := (results.filter (·.success)).length
    let detail := results.findSome? (·.executionDetail)
    if actionsApplied = 0 ∧ results ≠ [] then
      let errorMsg := (results.findSome? (·.error)).getD "all actions failed"
      { planFailed pluginName errorMsg with executionDetail := detail }
    else
      { planSucceeded pluginName with executionDetail := detail }
  | .error e => planFailed pluginName e.toText

@[simp] theorem fromPlanExecution_claimed (name : String)
    (r : Except VoomError (List ActionResult)) : (fromPlanExecution name r).claimed = true := by
  unfold fromPlanExecution
  split
  · dsimp only
    split <;> rfl
  · rfl

@[simp] theorem fromPlanExecution_producedEvents (name : String)
    (r : Except VoomError (List ActionResult)) :
    (fromPlanExecution name r).producedEvents = [] := by
  unfold fromPlanExecution
  split
  · dsimp only
    split <;> rfl
  · rfl

/-- An execution is reported as successful exactly when it returned results of
which at least one is a success, or no result at all. -/
theorem fromPlanExecution_ok_iff (name : String) (r : Except VoomError (List ActionResult)) :
    (fromPlanExecution name r).executionError = none ↔
      ∃ results, r = .ok results ∧ (results = [] ∨ ∃ x ∈ results, x.success = true) := by
  cases r with
  | error e => simp [fromPlanExecution, planFailed]
  | ok results =>
    have hlen : (results.filter (·.success)).length = 0 ↔ ∀ x ∈ results, x.success = false := by
      simp
    by_cases hall : (results.filter (·.success)).length = 0 ∧ results ≠ []
    · have hnone : ¬ ∃ x ∈ results, x.success = true := by
        rintro ⟨x, hx, hs⟩
        simp [hlen.mp hall.1 x hx] at hs
      simp [fromPlanExecution, hall, planFailed, hnone]
    · have hsome : results = [] ∨ ∃ x ∈ results, x.success = true := by
        by_contra hcon
        push Not at hcon
        exact hall ⟨hlen.mpr fun x hx => by simpa using hcon.2 x hx, hcon.1⟩
      simp only [fromPlanExecution]
      rw [if_neg hall]
      simp [planSucceeded, hsome]

end EventResult

end Voom
