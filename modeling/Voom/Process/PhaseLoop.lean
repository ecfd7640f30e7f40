-- SUMMARY: The loop over the phases of one file: its exits, the events it dispatches and the pending operations they leave.
import Voom.Process.Pipeline
import Voom.Recovery.Recover

/-!
# process_single_file_execute_inner

Every phase is one round of the loop. What the world answers in a round (the
evaluator, the token, the safeguards, the executors behind the bus, the store) is
given by a `PhaseRound`; the loop keeps the variables of the function and the
events it has dispatched, in order.
-/

namespace Voom.Process

open Recovery

/-! ## Safeguard violations as metadata -/

def safeguardKindName : SafeguardKind → String
  | .allTracksRemoved => "all_tracks_removed"
  | .noVideoTrack => "no_video_track"
  | .noAudioTrack => "no_audio_track"
  | .outputLarger => "output_larger"
  | .diskSpaceLow => "disk_space_low"
  | .durationShrunk => "duration_shrunk"
  | .containerIncompatible => "container_incompatible"

def violationJson (v : SafeguardViolation) : Json :=
  .object [("kind", .string (safeguardKindName v.kind)), ("message", .string v.message),
    ("phase_name", .string v.phaseName)]

def tagViolations (file : MediaFile) (violations : List SafeguardViolation) : MediaFile :=
  { file with
    pluginMetadata := file.pluginMetadata.filter (·.1 ≠ "safeguard_violations") ++
      [("safeguard_violations", .array (violations.map violationJson))] }

/-! ## Rounds -/

inductive PhaseOutcomeKind where
  | completed
  | skipped (reason : String)
  | failed
  deriving DecidableEq, Repr

/-- The answers of one round. The evaluator plans for the phase it is asked for. -/
structure PhaseRound where
  phaseName : String
  /-- The token, at the head of the loop. -/
  cancelled : Bool := false
  evaluated : Except String (Option Plan)
  evaluated_phase : ∀ plan, evaluated = .ok (some plan) → plan.phaseName = phaseName
  savingsBelowThreshold : Bool := false
  /-- The token, while the plan waits for its slot. -/
  cancelledWaiting : Bool := false
  /-- `apply_auto_crop_detection`: an error, or the file with a new detection. -/
  autoCrop : Except String (Option MediaFile) := .ok none
  /-- The message of the disk-space safeguard, if it fires. -/
  diskSpace : Option String := none
  /-- The answers of the plugins to `PlanCreated`. -/
  results : List EventResult := []
  sizeIncrease : Option String := none
  durationShrink : Option String := none
  recordFailure : Except String Unit := .ok ()
  recordTransition : Except String Unit := .ok ()
  /-- The file as it is introspected after the execution. -/
  newFile : MediaFile

/-- What a file is processed with. -/
structure PhaseContext where
  keepBackups : Bool
  scanSession : Uuid

/-- The variables of the function, the counters it shares, and the events it has
dispatched. -/
structure LoopState where
  currentFile : MediaFile
  phaseOutcomes : String → Option EvaluationOutcome := fun _ => none
  anyExecuted : Bool := false
  modifiedCounted : Bool := false
  plansEvaluated : Nat := 0
  failedPlanCount : Nat := 0
  allPlans : List Plan := []
  phaseStats : List (String × PhaseOutcomeKind) := []
  modifiedCount : Nat := 0
  backupBytes : Nat := 0
  dispatched : List Event := []

/-- How the loop goes on after a round. -/
inductive Flow where
  | next
  | leave
  | fail (error : String)
  deriving DecidableEq, Repr

namespace LoopState

def dispatch (s : LoopState) (event : Event) : LoopState :=
  { s with dispatched := s.dispatched ++ [event] }

def setOutcome (s : LoopState) (phase : String) (outcome : EvaluationOutcome) : LoopState :=
  { s with phaseOutcomes := Function.update s.phaseOutcomes phase (some outcome) }

def recordPhaseStat (s : LoopState) (phase : String) (kind : PhaseOutcomeKind) : LoopState :=
  { s with phaseStats := s.phaseStats ++ [(phase, kind)] }

def countFailed (s : LoopState) : LoopState := { s with failedPlanCount := s.failedPlanCount + 1 }

/-! ## What a round does -/

/-- The violations of the plan are announced with the file, as metadata of it. -/
def dispatchSafeguardViolations (s : LoopState) (plan : Plan) : LoopState :=
  if plan.safeguardViolations.isEmpty then s
  else s.dispatch (.fileIntrospected (tagViolations s.currentFile plan.safeguardViolations))

def dispatchSkippedPlan (s : LoopState) (plan : Plan) (reason : String) : LoopState :=
  ((s.dispatch (.planCreated plan)).dispatch
    (.planSkipped ⟨plan.id, s.currentFile.path, plan.phaseName, reason⟩)).recordPhaseStat
      plan.phaseName (.skipped reason)

def dispatchPlanFailure (s : LoopState) (event : PlanFailedEvent) (phase : String) : LoopState :=
  (s.dispatch (.planFailed event)).recordPhaseStat phase .failed

/-- `record_safeguard_failure`, whose transition may fail to be recorded. -/
def recordSafeguardFailure (s : LoopState) (plan : Plan) (message : String) : LoopState :=
  s.dispatchPlanFailure
    { planId := plan.id, path := s.currentFile.path, phaseName := plan.phaseName, error := message }
    plan.phaseName

/-- A safeguard has fired: what it and the loop do about it. -/
def safeguardFailed (s : LoopState) (plan : Plan) (phase message : String) : LoopState × Flow :=
  (((s.recordSafeguardFailure plan message).setOutcome phase .safeguardFailed).countFailed, .next)

def handlePlanSuccess (ctx : PhaseContext) (r : PhaseRound) (s : LoopState) (plan : Plan) :
    LoopState × Flow :=
  let s :=
    if ctx.keepBackups then { s with backupBytes := s.backupBytes + s.currentFile.size } else s
  let s := s.dispatch (PlanDispatcher.completedEvent plan s.currentFile ctx.keepBackups)
  let s := s.recordPhaseStat plan.phaseName .completed
  match r.recordTransition with
  | .error e => (s, .fail e)
  | .ok () => ({ s with currentFile := r.newFile }, .next)

/-- `modified_count` counts a file once. -/
def countModified (s : LoopState) : LoopState :=
  { s with
    anyExecuted := true
    modifiedCount := if s.modifiedCounted then s.modifiedCount else s.modifiedCount + 1
    modifiedCounted := true }

/-- The execution of the plan and what follows it. -/
def executePlan (ctx : PhaseContext) (r : PhaseRound) (s : LoopState) (plan : Plan) :
    LoopState × Flow :=
  let s := (s.dispatch (PlanDispatcher.executingEvent plan s.currentFile)).dispatch
    (.planCreated plan)
  match PlanOutcome.fromEventResult r.results plan s.currentFile with
  | .success _ =>
    match r.sizeIncrease with
    | some message => s.safeguardFailed plan r.phaseName message
    | none =>
      match r.durationShrink with
      | some message => s.safeguardFailed plan r.phaseName message
      | none => handlePlanSuccess ctx r (s.countModified.setOutcome r.phaseName (.executed true)) plan
  | .failed event =>
    let s := s.dispatchPlanFailure event plan.phaseName
    match r.recordFailure with
    | .error e => (s, .fail e)
    | .ok () => ((s.setOutcome plan.phaseName .executionFailed).countFailed, .next)

/-- The disk-space safeguard and, unless the plan has one already, the wait for a slot. -/
def startPlan (ctx : PhaseContext) (r : PhaseRound) (s : LoopState) (plan : Plan) (hasSlot : Bool) :
    LoopState × Flow :=
  match r.diskSpace with
  | some message => s.safeguardFailed plan r.phaseName message
  | none => if !hasSlot && r.cancelledWaiting then (s, .leave) else executePlan ctx r s plan

/-- The round of a plan that needs crop detection first. -/
def cropPlan (ctx : PhaseContext) (r : PhaseRound) (s : LoopState) (plan : Plan) :
    LoopState × Flow :=
  if r.cancelledWaiting then (s, .leave)
  else
    match r.autoCrop with
    | .error error =>
      let s := s.dispatchPlanFailure
        { planId := plan.id, path := s.currentFile.path, phaseName := plan.phaseName, error,
          pluginName := some "ffmpeg-executor" } plan.phaseName
      ((s.setOutcome r.phaseName .executionFailed).countFailed, .next)
    | .ok none => startPlan ctx r s plan true
    | .ok (some file) => startPlan ctx r { s with currentFile := file } { plan with file } true

def runPlan (ctx : PhaseContext) (r : PhaseRound) (s : LoopState) (plan : Plan) :
    LoopState × Flow :=
  if r.savingsBelowThreshold then
    ((s.setOutcome r.phaseName .skipped).recordPhaseStat plan.phaseName
      (.skipped "estimated savings below threshold"), .next)
  else
    let s := s.dispatchSafeguardViolations plan
    match plan.skipReason with
    | some reason => ((s.setOutcome r.phaseName .skipped).dispatchSkippedPlan plan reason, .next)
    | none =>
      if plan.isEmpty then (s.setOutcome r.phaseName (.executed false), .next)
      else if planRequiresAutoCrop plan then cropPlan ctx r s plan
      else startPlan ctx r s plan false

def phaseRound (ctx : PhaseContext) (s : LoopState) (r : PhaseRound) : LoopState × Flow :=
  if r.cancelled then (s, .leave)
  else
    match r.evaluated with
    | .error e => (s, .fail ("evaluate dispatch failed for phase " ++ r.phaseName ++ ": " ++ e))
    | .ok none => (s, .next)
    | .ok (some plan) =>
      let plan := { plan with scanSession := some ctx.scanSession }
      runPlan ctx r
        { s with allPlans := s.allPlans ++ [plan], plansEvaluated := s.plansEvaluated + 1 } plan

/-! ## The loop -/

/-- The value of the function after its loop. -/
def finish (s : LoopState) (path : Path) : Except String (Option Json) :=
  if 0 < s.failedPlanCount then
    .error (toString s.failedPlanCount ++ " executable plan(s) failed for " ++ path.display)
  else
    .ok (some (.object [("path", .string path.display), ("needs_execution", .bool s.anyExecuted),
      ("plans_evaluated", .number (.int s.plansEvaluated))]))

def phaseLoop (ctx : PhaseContext) (path : Path) :
    List PhaseRound → LoopState → LoopState × Except String (Option Json)
  | [], s => (s, s.finish path)
  | r :: rounds, s =>
    match s.phaseRound ctx r with
    | (s, .next) => phaseLoop ctx path rounds s
    | (s, .leave) => (s, s.finish path)
    | (s, .fail e) => (s, .error e)

end LoopState

/-- `process_single_file_execute_inner`, with what `check_file_hash` answers. -/
def processSingleFileExecuteInner (ctx : PhaseContext) (file : MediaFile) (changed : Option Json)
    (rounds : List PhaseRound) : LoopState × Except String (Option Json) :=
  match changed with
  | some skipped => ({ currentFile := file }, .ok (some skipped))
  | none => LoopState.phaseLoop ctx file.path rounds { currentFile := file }

/-! ## The pending operations -/

/-- The answers of the store to one event. -/
structure StoreReply where
  inserted : Bool := true
  statusUpdated : Bool := true
  errorUpdated : Bool := true
  deleted : Bool := true
  now : Time

def StoreReply.succeeds (r : StoreReply) : Bool :=
  r.inserted && r.statusUpdated && r.errorUpdated && r.deleted

/-- What the handlers of `sqlite-store` do to the pending operations. A status or
an error that cannot be updated ends the handler before the deletion. -/
def storeOnEvent (r : StoreReply) (event : Event) (ops : List PendingOperation) :
    List PendingOperation :=
  match event with
  | .planExecuting e =>
    if r.inserted then insertPendingOp ⟨e.planId, e.path, e.phaseName, r.now⟩ ops else ops
  | .planCompleted e =>
    if r.statusUpdated && r.deleted then deletePendingOp e.planId ops else ops
  | .planFailed e =>
    if r.statusUpdated && r.errorUpdated && r.deleted then deletePendingOp e.planId ops else ops
  | _ => ops

/-- The pending operations after a series of events. -/
def pendingAfter (storage : Nat → StoreReply) (ops : List PendingOperation) (events : List Event) :
    List PendingOperation :=
  events.zipIdx.foldl (fun ops e => storeOnEvent (storage e.2) e.1 ops) ops

end Voom.Process
