-- SUMMARY: The wire forms of events, and what reading a written event gives.
import Voom.Wit.Events
import Voom.Wit.Plans

/-!
# Events on the wire

An event is a map of one entry, from the name of its variant to its payload. Every payload but
that of a job request has a codec, so it is read back as it was written.
-/

namespace Voom.Wit

open Lib

variable (env : WitEnv)

/-! ## Files and plans -/

def fileDiscovered : Codec F64 FileDiscoveredEvent :=
  .record (.field pathBuf <| .field (.unsigned 64) <| .field (.option .string) .nil)
    (fun e => (e.path, e.size, e.contentHash, ()))
    (fun (path, size, contentHash, ()) => { path, size, contentHash })
    fun _ => rfl

def rootWalkCompleted : Codec F64 RootWalkCompletedEvent :=
  .record (.field pathBuf <| .field env.uuid <| .field (.unsigned 64) .nil)
    (fun e => (e.root, e.session, e.durationMs, ()))
    (fun (root, session, durationMs, ()) => { root, session, durationMs })
    fun _ => rfl

def fileIntrospected : Codec F64 FileIntrospectedEvent :=
  .record (.field (mediaFile env) <| .defaulted (.option env.uuid) none .nil)
    (fun e => (e.file, e.scanSession, ()))
    (fun (file, scanSession, ()) => { file, scanSession })
    fun _ => rfl

def badFileSourceName : BadFileSource → String
  | .discovery => "discovery"
  | .introspection => "introspection"
  | .io => "io"
  | .parse => "parse"

def badFileSource : Codec F64 BadFileSource :=
  .units [.discovery, .introspection, .io, .parse] badFileSourceName
    (by intro x; cases x <;> rfl)

def fileIntrospectionFailed : Codec F64 FileIntrospectionFailedEvent :=
  .record
    (.field pathBuf <| .field (.unsigned 64) <| .field (.option .string) <| .field .string <|
      .field badFileSource .nil)
    (fun e => (e.path, e.size, e.contentHash, e.error, e.errorSource, ()))
    (fun (path, size, contentHash, error, errorSource, ()) =>
      { path, size, contentHash, error, errorSource })
    fun _ => rfl

def metadataEnriched : Codec F64 MetadataEnrichedEvent :=
  .record
    (.field pathBuf <| .field .string <| .field json <| .defaulted (.option env.uuid) none .nil)
    (fun e => (e.path, e.source, e.metadata, e.scanSession, ()))
    (fun (path, source, metadata, scanSession, ()) => { path, source, metadata, scanSession })
    fun _ => rfl

def subtitleGenerated : Codec F64 SubtitleGeneratedEvent :=
  .record
    (.field pathBuf <| .field pathBuf <| .field .string <| .field .bool <|
      .defaulted (.option .string) none <| .defaulted (.option env.uuid) none .nil)
    (fun e => (e.path, e.subtitlePath, e.language, e.forced, e.title, e.scanSession, ()))
    (fun (path, subtitlePath, language, forced, title, scanSession, ()) =>
      { path, subtitlePath, language, forced, title, scanSession })
    fun _ => rfl

def planCreated : Codec F64 PlanCreatedEvent :=
  .record (.field (plan env) .nil) (fun e => (e.plan, ())) (fun (plan, ()) => { plan })
    fun _ => rfl

def planExecuting : Codec F64 PlanExecutingEvent :=
  .record (.field env.uuid <| .field pathBuf <| .field .string <| .field (.unsigned 64) .nil)
    (fun e => (e.planId, e.path, e.phaseName, e.actionCount, ()))
    (fun (planId, path, phaseName, actionCount, ()) => { planId, path, phaseName, actionCount })
    fun _ => rfl

def planCompleted : Codec F64 PlanCompletedEvent :=
  .record
    (.field env.uuid <| .field pathBuf <| .field .string <| .field (.unsigned 64) <|
      .defaulted .bool false .nil)
    (fun e => (e.planId, e.path, e.phaseName, e.actionsApplied, e.keepBackups, ()))
    (fun (planId, path, phaseName, actionsApplied, keepBackups, ()) =>
      { planId, path, phaseName, actionsApplied, keepBackups })
    fun _ => rfl

def planSkipped : Codec F64 PlanSkippedEvent :=
  .record (.field env.uuid <| .field pathBuf <| .field .string <| .field .string .nil)
    (fun e => (e.planId, e.path, e.phaseName, e.skipReason, ()))
    (fun (planId, path, phaseName, skipReason, ()) => { planId, path, phaseName, skipReason })
    fun _ => rfl

def executionDetail : Codec F64 ExecutionDetail :=
  .record
    (.field .string <| .field (.option (.signed 32)) <| .field .string <|
      .field (.unsigned 64) .nil)
    (fun d => (d.command, d.exitCode, d.stderrTail, d.durationMs, ()))
    (fun (command, exitCode, stderrTail, durationMs, ()) =>
      { command, exitCode, stderrTail, durationMs })
    fun _ => rfl

instance : executionDetail.Present := by
  unfold executionDetail
  infer_instance

def planFailed : Codec F64 PlanFailedEvent :=
  .record
    (.field env.uuid <| .field pathBuf <| .field .string <| .field .string <|
      .defaulted (.option .string) none <| .defaulted (.option .string) none <|
      .defaulted (.list .string) [] <| .skipped executionDetail)
    (fun e => (e.planId, e.path, e.phaseName, e.error, e.errorCode, e.pluginName, e.errorChain,
      e.executionDetail, ()))
    (fun (planId, path, phaseName, error, errorCode, pluginName, errorChain,
        executionDetail, ()) =>
      { planId, path, phaseName, error, errorCode, pluginName, errorChain, executionDetail })
    fun _ => rfl

/-! ## Jobs -/

def jobStarted : Codec F64 JobStartedEvent :=
  .record (.field env.uuid <| .field .string .nil) (fun e => (e.jobId, e.description, ()))
    (fun (jobId, description, ()) => { jobId, description })
    fun _ => rfl

def jobProgress : Codec F64 JobProgressEvent :=
  .record (.field env.uuid <| .field .float <| .defaulted (.option .string) none .nil)
    (fun e => (e.jobId, e.progress, e.message, ()))
    (fun (jobId, progress, message, ()) => { jobId, progress, message })
    fun _ => rfl

def jobCompleted : Codec F64 JobCompletedEvent :=
  .record (.field env.uuid <| .field .bool <| .defaulted (.option .string) none .nil)
    (fun e => (e.jobId, e.success, e.message, ()))
    (fun (jobId, success, message, ()) => { jobId, success, message })
    fun _ => rfl

/-- A job request as the wire has it: the type is a name, and an absent payload is `null`. -/
def jobRequest : Codec F64 (String × Int × Json × String) :=
  .record (.field .string <| .field (.signed 32) <| .field json <| .field .string .nil)
    (fun (jobType, priority, payload, requester) => (jobType, priority, payload, requester, ()))
    (fun (jobType, priority, payload, requester, ()) => (jobType, priority, payload, requester))
    fun _ => rfl

namespace JobEnqueueRequestedEvent

def toRequest (e : JobEnqueueRequestedEvent) : String × Int × Json × String :=
  (e.jobType.asStr, e.priority, e.payload.getD .null, e.requester)

def ofRequest : String × Int × Json × String → JobEnqueueRequestedEvent
  | (jobType, priority, payload, requester) =>
    { jobType := .parse jobType, priority
      payload := if payload = .null then none else some payload
      requester }

theorem ofRequest_toRequest (e : JobEnqueueRequestedEvent) :
    ofRequest e.toRequest =
      { e with jobType := e.jobType.readBack, payload := e.payload.filter (· ≠ .null) } := by
  obtain ⟨jobType, priority, payload, requester⟩ := e
  simp only [toRequest, ofRequest, JobType.parse_asStr]
  congr 1
  cases payload with
  | none => rfl
  | some v => by_cases hv : v = .null <;> simp [hv, Option.filter_some]

end JobEnqueueRequestedEvent

/-! ## Tools and plugins -/

def toolDetected : Codec F64 ToolDetectedEvent :=
  .record (.field .string <| .field .string <| .field pathBuf .nil)
    (fun e => (e.toolName, e.version, e.path, ()))
    (fun (toolName, version, path, ()) => { toolName, version, path })
    fun _ => rfl

def codecCapabilities : Codec F64 CodecCapabilities :=
  .record
    (.field (.list .string) <| .field (.list .string) <| .defaulted (.list .string) [] <|
      .defaulted (.list .string) [] .nil)
    (fun c => (c.decoders, c.encoders, c.hwDecoders, c.hwEncoders, ()))
    (fun (decoders, encoders, hwDecoders, hwEncoders, ()) =>
      { decoders, encoders, hwDecoders, hwEncoders })
    fun _ => rfl

def executorParallelLimit : Codec F64 ExecutorParallelLimit :=
  .record (.field .string <| .field (.unsigned 64) .nil)
    (fun l => (l.resource, l.maxParallel, ()))
    (fun (resource, maxParallel, ()) => { resource, maxParallel })
    fun _ => rfl

def executorCapabilities : Codec F64 ExecutorCapabilitiesEvent :=
  .record
    (.field .string <| .field codecCapabilities <| .field (.list .string) <|
      .field (.list .string) <| .defaulted (.list executorParallelLimit) [] .nil)
    (fun e => (e.pluginName, e.codecs, e.formats, e.hwAccels, e.parallelLimits, ()))
    (fun (pluginName, codecs, formats, hwAccels, parallelLimits, ()) =>
      { pluginName, codecs, formats, hwAccels, parallelLimits })
    fun _ => rfl

def pluginError : Codec F64 PluginErrorEvent :=
  .record (.field .string <| .field .string <| .field .string .nil)
    (fun e => (e.pluginName, e.eventType, e.error, ()))
    (fun (pluginName, eventType, error, ()) => { pluginName, eventType, error })
    fun _ => rfl

def healthStatus : Codec F64 HealthStatusEvent :=
  .record (.field .string <| .field .bool <| .field (.option .string) .nil)
    (fun e => (e.checkName, e.passed, e.details, ()))
    (fun (checkName, passed, details, ()) => { checkName, passed, details })
    fun _ => rfl

/-! ## Runs -/

def scanComplete : Codec F64 ScanCompleteEvent :=
  .record (.field (.unsigned 64) <| .field (.unsigned 64) .nil)
    (fun e => (e.filesDiscovered, e.filesIntrospected, ()))
    (fun (filesDiscovered, filesIntrospected, ()) => { filesDiscovered, filesIntrospected })
    fun _ => rfl

def introspectSessionCompleted : Codec F64 IntrospectSessionCompletedEvent :=
  .record (.field (.unsigned 64) .nil) (fun e => (e.filesIntrospected, ()))
    (fun (filesIntrospected, ()) => { filesIntrospected })
    fun _ => rfl

def retentionTriggerName : RetentionTrigger → String
  | .scheduled => "scheduled"
  | .cliEndOfRun => "cli_end_of_run"
  | .onDemand => "on_demand"

def retentionTrigger : Codec F64 RetentionTrigger :=
  .units [.scheduled, .cliEndOfRun, .onDemand] retentionTriggerName (by intro x; cases x <;> rfl)

def tableRetentionResult : Codec F64 TableRetentionResult :=
  .record
    (.field .string <| .field (.unsigned 64) <| .field (.unsigned 64) <|
      .field (.option .string) .nil)
    (fun r => (r.table, r.deleted, r.kept, r.error, ()))
    (fun (table, deleted, kept, error, ()) => { table, deleted, kept, error })
    fun _ => rfl

def retentionCompleted : Codec F64 RetentionCompletedEvent :=
  .record
    (.field retentionTrigger <| .field (.list tableRetentionResult) <| .field (.unsigned 64) .nil)
    (fun e => (e.trigger, e.perTable, e.durationMs, ()))
    (fun (trigger, perTable, durationMs, ()) => { trigger, perTable, durationMs })
    fun _ => rfl

def verificationOutcomeName : VerificationOutcome → String
  | .ok => "ok"
  | .warning => "warning"
  | .error => "error"

def verificationOutcome : Codec F64 VerificationOutcome :=
  .units [.ok, .warning, .error] verificationOutcomeName (by intro x; cases x <;> rfl)

def verifyCompleted : Codec F64 VerifyCompletedEvent :=
  .record
    (.field .string <| .field pathBuf <| .field verificationMode <| .field verificationOutcome <|
      .field (.unsigned 32) <| .field (.unsigned 32) <| .field env.uuid .nil)
    (fun e => (e.fileId, e.path, e.mode, e.outcome, e.errorCount, e.warningCount,
      e.verificationId, ()))
    (fun (fileId, path, mode, outcome, errorCount, warningCount, verificationId, ()) =>
      { fileId, path, mode, outcome, errorCount, warningCount, verificationId })
    fun _ => rfl

def fileQuarantined : Codec F64 FileQuarantinedEvent :=
  .record (.field .string <| .field pathBuf <| .field pathBuf <| .field .string .nil)
    (fun e => (e.fileId, e.src, e.dst, e.reason, ()))
    (fun (fileId, src, dst, reason, ()) => { fileId, src, dst, reason })
    fun _ => rfl

/-! ## Events -/

def writeEvent : Event → Except String (Wire F64)
  | .fileDiscovered e => outside "FileDiscovered" fileDiscovered e
  | .rootWalkCompleted e => outside "RootWalkCompleted" (rootWalkCompleted env) e
  | .fileIntrospected e => outside "FileIntrospected" (fileIntrospected env) e
  | .fileIntrospectionFailed e => outside "FileIntrospectionFailed" fileIntrospectionFailed e
  | .metadataEnriched e => outside "MetadataEnriched" (metadataEnriched env) e
  | .subtitleGenerated e => outside "SubtitleGenerated" (subtitleGenerated env) e
  | .planCreated e => outside "PlanCreated" (planCreated env) e
  | .planExecuting e => outside "PlanExecuting" (planExecuting env) e
  | .planCompleted e => outside "PlanCompleted" (planCompleted env) e
  | .planSkipped e => outside "PlanSkipped" (planSkipped env) e
  | .planFailed e => outside "PlanFailed" (planFailed env) e
  | .jobStarted e => outside "JobStarted" (jobStarted env) e
  | .jobProgress e => outside "JobProgress" (jobProgress env) e
  | .jobCompleted e => outside "JobCompleted" (jobCompleted env) e
  | .jobEnqueueRequested e => outside "JobEnqueueRequested" jobRequest e.toRequest
  | .toolDetected e => outside "ToolDetected" toolDetected e
  | .executorCapabilities e => outside "ExecutorCapabilities" executorCapabilities e
  | .pluginError e => outside "PluginError" pluginError e
  | .healthStatus e => outside "HealthStatus" healthStatus e
  | .scanComplete e => outside "ScanComplete" scanComplete e
  | .introspectSessionCompleted e =>
    outside "IntrospectSessionCompleted" introspectSessionCompleted e
  | .retentionCompleted e => outside "RetentionCompleted" retentionCompleted e
  | .verifyCompleted e => outside "VerifyCompleted" (verifyCompleted env) e
  | .fileQuarantined e => outside "FileQuarantined" fileQuarantined e

/-- The payload of a variant, by the name outside it. -/
def readPayload (w : Wire F64) : String → Except String Event
  | "FileDiscovered" => (fileDiscovered.read w).map .fileDiscovered
  | "RootWalkCompleted" => ((rootWalkCompleted env).read w).map .rootWalkCompleted
  | "FileIntrospected" => ((fileIntrospected env).read w).map .fileIntrospected
  | "FileIntrospectionFailed" => (fileIntrospectionFailed.read w).map .fileIntrospectionFailed
  | "MetadataEnriched" => ((metadataEnriched env).read w).map .metadataEnriched
  | "SubtitleGenerated" => ((subtitleGenerated env).read w).map .subtitleGenerated
  | "PlanCreated" => ((planCreated env).read w).map .planCreated
  | "PlanExecuting" => ((planExecuting env).read w).map .planExecuting
  | "PlanCompleted" => ((planCompleted env).read w).map .planCompleted
  | "PlanSkipped" => ((planSkipped env).read w).map .planSkipped
  | "PlanFailed" => ((planFailed env).read w).map .planFailed
  | "JobStarted" => ((jobStarted env).read w).map .jobStarted
  | "JobProgress" => ((jobProgress env).read w).map .jobProgress
  | "JobCompleted" => ((jobCompleted env).read w).map .jobCompleted
  | "JobEnqueueRequested" =>
    (jobRequest.read w).map fun request => .jobEnqueueRequested (.ofRequest request)
  | "ToolDetected" => (toolDetected.read w).map .toolDetected
  | "ExecutorCapabilities" => (executorCapabilities.read w).map .executorCapabilities
  | "PluginError" => (pluginError.read w).map .pluginError
  | "HealthStatus" => (healthStatus.read w).map .healthStatus
  | "ScanComplete" => (scanComplete.read w).map .scanComplete
  | "IntrospectSessionCompleted" =>
    (introspectSessionCompleted.read w).map .introspectSessionCompleted
  | "RetentionCompleted" => (retentionCompleted.read w).map .retentionCompleted
  | "VerifyCompleted" => ((verifyCompleted env).read w).map .verifyCompleted
  | "FileQuarantined" => (fileQuarantined.read w).map .fileQuarantined
  | name => .error ("unknown variant " ++ name)

def readEvent : Wire F64 → Except String Event
  | .map [(.str name, w)] => readPayload env w name
  | _ => .error "invalid type: expected enum Event"

theorem readEvent_writeEvent {event : Event} {w : Wire F64} (h : writeEvent env event = .ok w) :
    readEvent env w = .ok event.readBack := by
  cases event with
  | jobEnqueueRequested e =>
    obtain ⟨v, rfl, hv⟩ := outside_eq_ok h
    simp only [readEvent, readPayload, hv, map_ok, JobEnqueueRequestedEvent.ofRequest_toRequest,
      Event.readBack]
  | _ =>
    obtain ⟨v, rfl, hv⟩ := outside_eq_ok h
    simp only [readEvent, readPayload, hv, map_ok, Event.readBack]

end Voom.Wit
