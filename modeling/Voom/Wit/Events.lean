-- SUMMARY: Every event with its payload, the name of its kind, and the event that comes back.
import Voom.Wit.Payloads

/-!
# Events with their payloads

A request for a job names the type of the job, and the names of the built-in types are not free
for custom ones.
-/

namespace Voom.Wit

/-! ## Jobs -/

inductive JobType where
  | process | transcode | scan | introspect
  | custom (name : String)
  deriving DecidableEq, Repr, Inhabited

namespace JobType

def asStr : JobType → String
  | .process => "process"
  | .transcode => "transcode"
  | .scan => "scan"
  | .introspect => "introspect"
  | .custom name => name

def parse : String → JobType
  | "process" => .process
  | "transcode" => .transcode
  | "scan" => .scan
  | "introspect" => .introspect
  | other => .custom other

/-- A custom type with the name of a built-in one becomes that one. -/
def readBack : JobType → JobType
  | .custom "process" => .process
  | .custom "transcode" => .transcode
  | .custom "scan" => .scan
  | .custom "introspect" => .introspect
  | jobType => jobType

theorem parse_asStr (jobType : JobType) : parse jobType.asStr = jobType.readBack := by
  cases jobType with
  | custom name =>
    unfold asStr parse readBack
    split <;> simp_all
  | _ => rfl

end JobType

/-! ## Payloads -/

structure FileDiscoveredEvent where
  path : PathBuf
  size : Nat
  contentHash : Option String
  deriving DecidableEq, Repr

structure RootWalkCompletedEvent where
  root : PathBuf
  session : Uuid
  durationMs : Nat
  deriving DecidableEq, Repr

structure FileIntrospectedEvent where
  file : MediaFile
  scanSession : Option Uuid
  deriving DecidableEq, Repr

inductive BadFileSource where
  | discovery | introspection | io | parse
  deriving DecidableEq, Repr

structure FileIntrospectionFailedEvent where
  path : PathBuf
  size : Nat
  contentHash : Option String
  error : String
  errorSource : BadFileSource
  deriving DecidableEq, Repr

structure MetadataEnrichedEvent where
  path : PathBuf
  source : String
  metadata : Json
  scanSession : Option Uuid
  deriving DecidableEq, Repr

structure SubtitleGeneratedEvent where
  path : PathBuf
  subtitlePath : PathBuf
  language : String
  forced : Bool
  title : Option String
  scanSession : Option Uuid
  deriving DecidableEq, Repr

structure PlanCreatedEvent where
  plan : Plan
  deriving DecidableEq, Repr

structure PlanExecutingEvent where
  planId : Uuid
  path : PathBuf
  phaseName : String
  actionCount : Nat
  deriving DecidableEq, Repr

structure PlanCompletedEvent where
  planId : Uuid
  path : PathBuf
  phaseName : String
  actionsApplied : Nat
  keepBackups : Bool
  deriving DecidableEq, Repr

structure PlanSkippedEvent where
  planId : Uuid
  path : PathBuf
  phaseName : String
  skipReason : String
  deriving DecidableEq, Repr

structure PlanFailedEvent where
  planId : Uuid
  path : PathBuf
  phaseName : String
  error : String
  errorCode : Option String
  pluginName : Option String
  errorChain : List String
  executionDetail : Option ExecutionDetail
  deriving DecidableEq, Repr

structure JobStartedEvent where
  jobId : Uuid
  description : String
  deriving DecidableEq, Repr

structure JobProgressEvent where
  jobId : Uuid
  progress : F64
  message : Option String
  deriving DecidableEq, Repr

structure JobCompletedEvent where
  jobId : Uuid
  success : Bool
  message : Option String
  deriving DecidableEq, Repr

structure JobEnqueueRequestedEvent where
  jobType : JobType
  priority : Int
  payload : Option Json
  requester : String
  deriving DecidableEq, Repr

structure ToolDetectedEvent where
  toolName : String
  version : String
  path : PathBuf
  deriving DecidableEq, Repr

structure CodecCapabilities where
  decoders : List String
  encoders : List String
  hwDecoders : List String
  hwEncoders : List String
  deriving DecidableEq, Repr

structure ExecutorParallelLimit where
  resource : String
  maxParallel : Nat
  deriving DecidableEq, Repr

structure ExecutorCapabilitiesEvent where
  pluginName : String
  codecs : CodecCapabilities
  formats : List String
  hwAccels : List String
  parallelLimits : List ExecutorParallelLimit
  deriving DecidableEq, Repr

structure PluginErrorEvent where
  pluginName : String
  eventType : String
  error : String
  deriving DecidableEq, Repr

structure HealthStatusEvent where
  checkName : String
  passed : Bool
  details : Option String
  deriving DecidableEq, Repr

structure ScanCompleteEvent where
  filesDiscovered : Nat
  filesIntrospected : Nat
  deriving DecidableEq, Repr

structure IntrospectSessionCompletedEvent where
  filesIntrospected : Nat
  deriving DecidableEq, Repr

inductive RetentionTrigger where
  | scheduled | cliEndOfRun | onDemand
  deriving DecidableEq, Repr

structure TableRetentionResult where
  table : String
  deleted : Nat
  kept : Nat
  error : Option String
  deriving DecidableEq, Repr

structure RetentionCompletedEvent where
  trigger : RetentionTrigger
  perTable : List TableRetentionResult
  durationMs : Nat
  deriving DecidableEq, Repr

inductive VerificationOutcome where
  | ok | warning | error
  deriving DecidableEq, Repr

structure VerifyCompletedEvent where
  fileId : String
  path : PathBuf
  mode : VerificationMode
  outcome : VerificationOutcome
  errorCount : Nat
  warningCount : Nat
  verificationId : Uuid
  deriving DecidableEq, Repr

structure FileQuarantinedEvent where
  fileId : String
  src : PathBuf
  dst : PathBuf
  reason : String
  deriving DecidableEq, Repr

/-- The events of the bus, each with its payload. -/
inductive Event where
  | fileDiscovered (evt : FileDiscoveredEvent)
  | rootWalkCompleted (evt : RootWalkCompletedEvent)
  | fileIntrospected (evt : FileIntrospectedEvent)
  | fileIntrospectionFailed (evt : FileIntrospectionFailedEvent)
  | metadataEnriched (evt : MetadataEnrichedEvent)
  | subtitleGenerated (evt : SubtitleGeneratedEvent)
  | planCreated (evt : PlanCreatedEvent)
  | planExecuting (evt : PlanExecutingEvent)
  | planCompleted (evt : PlanCompletedEvent)
  | planSkipped (evt : PlanSkippedEvent)
  | planFailed (evt : PlanFailedEvent)
  | jobStarted (evt : JobStartedEvent)
  | jobProgress (evt : JobProgressEvent)
  | jobCompleted (evt : JobCompletedEvent)
  | jobEnqueueRequested (evt : JobEnqueueRequestedEvent)
  | toolDetected (evt : ToolDetectedEvent)
  | executorCapabilities (evt : ExecutorCapabilitiesEvent)
  | pluginError (evt : PluginErrorEvent)
  | healthStatus (evt : HealthStatusEvent)
  | scanComplete (evt : ScanCompleteEvent)
  | introspectSessionCompleted (evt : IntrospectSessionCompletedEvent)
  | retentionCompleted (evt : RetentionCompletedEvent)
  | verifyCompleted (evt : VerifyCompletedEvent)
  | fileQuarantined (evt : FileQuarantinedEvent)
  deriving DecidableEq, Repr

namespace Event

/-- The event type string used for subscription matching. -/
def eventType : Event → String
  | .fileDiscovered _ => "file.discovered"
  | .rootWalkCompleted _ => "root.walk.completed"
  | .fileIntrospected _ => "file.introspected"
  | .fileIntrospectionFailed _ => "file.introspection_failed"
  | .metadataEnriched _ => "metadata.enriched"
  | .subtitleGenerated _ => "subtitle.generated"
  | .planCreated _ => "plan.created"
  | .planExecuting _ => "plan.executing"
  | .planCompleted _ => "plan.completed"
  | .planSkipped _ => "plan.skipped"
  | .planFailed _ => "plan.failed"
  | .jobStarted _ => "job.started"
  | .jobProgress _ => "job.progress"
  | .jobCompleted _ => "job.completed"
  | .jobEnqueueRequested _ => "job.enqueue_requested"
  | .toolDetected _ => "tool.detected"
  | .executorCapabilities _ => "executor.capabilities"
  | .pluginError _ => "plugin.error"
  | .healthStatus _ => "health.status"
  | .scanComplete _ => "scan.complete"
  | .introspectSessionCompleted _ => "introspect.session.completed"
  | .retentionCompleted _ => "retention.completed"
  | .verifyCompleted _ => "verify.completed"
  | .fileQuarantined _ => "file.quarantined"

/-- The event that comes back: only a request for a job can differ, in a payload of `null`, which
is an absent one, and in its type. -/
def readBack : Event → Event
  | .jobEnqueueRequested evt =>
    .jobEnqueueRequested
      { evt with jobType := evt.jobType.readBack, payload := evt.payload.filter (· ≠ .null) }
  | event => event

@[simp] theorem readBack_eventType (event : Event) : event.readBack.eventType = event.eventType := by
  cases event <;> rfl

end Event

end Voom.Wit
