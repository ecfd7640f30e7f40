-- SUMMARY: The per-file pipeline: evaluate, back up, execute, check and record, phase by phase.
import Voom.Domain.Transition
import Voom.Process.SafetyCopy

/-!
# The execution pipeline

`processPhase` is one round of the loop of `process_single_file_execute_inner`.
Policy evaluation, the tools behind the executors, `ffprobe` and the operating
system are collected in `PipelineEnv`; what they answer may depend on the plan,
which every phase has its own of.
-/

namespace Voom.Process

open Kernel BackupManager

/-! ## Executors -/

/-- `find_last_container_action`. -/
def findLastContainerAction (plans : List Plan) : Option Container :=
  (plans.reverse.filter fun plan => !plan.isSkipped && !plan.isEmpty).findSome? fun plan =>
    plan.actions.findSome? fun action =>
      match action.operation, action.parameters with
      | .convertContainer, .container container => some container
      | _, _ => none

/-- Where a conversion of the plan's file goes. -/
def conversionTarget (plan : Plan) : Option Path :=
  (findLastContainerAction [plan]).map fun container =>
    plan.file.path.withExtension container.asStr

/-- An executor plugin: it declines a plan, or carries it out on the disk and
reports its actions. -/
structure Executor where
  name : String
  priority : Int
  exec : Plan → Disk → Option (Disk × Except VoomError (List ActionResult))
  notManager : name ≠ "backup-manager"
  /-- Empty and skipped plans are not for executors. -/
  declines : ∀ plan disk, plan.isEmpty = true ∨ plan.isSkipped = true → exec plan disk = none
  /-- Of the files that are there, only the plan's own and the target of its
  conversion are written. -/
  touches : ∀ plan disk disk' results q, exec plan disk = some (disk', results) →
    q ≠ plan.file.path → (∀ target, conversionTarget plan = some target → q ≠ target) →
    (disk q).isSome = true → disk' q = disk q

namespace Executor

def onEvent (e : Executor) (event : Event) (w : Disk × Unit) : (Disk × Unit) × HandlerResult :=
  match event with
  | .planCreated plan =>
    match e.exec plan w.1 with
    | none => (w, .ok none)
    | some (disk, results) =>
      ((disk, ()), .ok (some (EventResult.fromPlanExecution e.name results)))
  | _ => (w, .ok none)

theorem onEvent_result {e : Executor} {event : Event} {w : Disk × Unit} {r : EventResult}
    (h : (e.onEvent event w).2 = .ok (some r)) :
    (∃ plan, event = .planCreated plan) ∧ r.producedEvents = [] := by
  unfold onEvent at h
  split at h
  · split at h
    · cases h
    · cases h
      exact ⟨⟨_, rfl⟩, EventResult.fromPlanExecution_producedEvents _ _⟩
  · cases h

/-- The executor as a plugin of the bus. -/
def plugin (e : Executor) : Plugin Unit where
  name := e.name
  priority := e.priority
  executor := true
  handles := (· = .planCreated)
  onEvent := e.onEvent
  notManager := e.notManager
  unclaimed := by
    intro evt w r h
    cases h
  closesNothing := by
    intro event w r h produced hmem
    rw [(onEvent_result h).2] at hmem
    cases hmem

end Executor

/-! ## The environment of a run -/

/-- What `ffprobe` finds out about a file. -/
structure Introspection where
  container : Container
  duration : F64
  tracks : List Track
  deriving DecidableEq, Repr

/-- The answers of the system around the output of one plan. -/
structure OutputIo where
  /-- Whether `metadata` of the output succeeds. -/
  metadataOk : Bool := true
  hashOk : Bool := true
  /-- Whether removing a converted output succeeds. -/
  removeOk : Bool := true
  probeDuration : Path → Except String F64
  introspect : Path → Except String Introspection

/-- What the pipeline is run with. -/
structure PipelineEnv where
  keepBackups : Bool
  flagSizeIncrease : Bool
  flagDurationShrink : Bool
  executors : List Executor
  io : Uuid → BackupIo
  output : Uuid → OutputIo
  hash : Content → Hash
  evaluate : String → MediaFile → (String → Option EvaluationOutcome) → Except String (Option Plan)
  /-- The evaluator plans for the file it is given. -/
  evaluate_file : ∀ phase file outcomes plan,
    evaluate phase file outcomes = .ok (some plan) → plan.file = file
  cancelled : String → Bool
  /-- Cancellation while waiting for an execution slot. -/
  cancelledWaiting : Uuid → Bool
  /-- Cancellation noticed after the execution. -/
  cancelledAfter : Uuid → Bool
  savingsBelowThreshold : Plan → Bool
  detectCrop : Path → CropSettings → Except String (Option CropDetection)
  cropSettingsFingerprint : CropSettings → String
  upsertFile : Uuid → Except String Unit
  availableSpace : Uuid → Except String Nat
  recordTransition : Uuid → Except String Unit

/-- The variables of the loop, with the bus and the recorded transitions. -/
structure PipelineState where
  bus : BusState (World Unit)
  currentFile : MediaFile
  phaseOutcomes : String → Option EvaluationOutcome := fun _ => none
  transitions : List FileTransition := []
  anyExecuted : Bool := false
  failedPlanCount : Nat := 0
  /-- Set when the loop was left early, with the error if it was one. -/
  stopped : Option (Option String) := none

namespace PipelineState

def disk (st : PipelineState) : Disk := st.bus.world.disk

def manager (st : PipelineState) : Manager := st.bus.world.manager

end PipelineState

def PipelineEnv.subs (env : PipelineEnv) : List (Subscriber (World Unit)) :=
  subscribers env.io [] (env.executors.map (·.plugin))

/-! ## Where the output is -/

/-- `resolve_post_execution_path`: a conversion has changed the extension if the
new path exists. -/
def resolvePostExecutionPath (disk : Disk) (file : MediaFile) (plans : List Plan) : Path :=
  match findLastContainerAction plans with
  | some container =>
    let newPath := file.path.withExtension container.asStr
    if (disk newPath).isSome then newPath else file.path
  | none => file.path

/-- `metadata(path).len()` of the output of a plan. -/
def outputSize (env : PipelineEnv) (plan : Plan) (disk : Disk) (path : Path) : Option Nat :=
  if (env.output plan.id).metadataOk then (disk path).map List.length else none

/-! ## Failures -/

/-- The transition a failed plan leaves: the file as it was. -/
def failureTransition (file : MediaFile) (plan : Plan) (executor : String) (message : String) :
    FileTransition :=
  { fileId := file.id, path := file.path, toHash := file.contentHash.getD "", toSize := file.size,
    source := .voom, fromHash := file.contentHash, fromSize := some file.size,
    sourceDetail := some executor, planId := some plan.id, outcome := some .failure,
    policyName := some plan.policyName, phaseName := some plan.phaseName,
    errorMessage := some message }

/-- `record_failure_transition`. -/
def recordFailureTransition (env : PipelineEnv) (plan : Plan) (executor message : String)
    (st : PipelineState) : PipelineState × Except String Unit :=
  match env.recordTransition plan.id with
  | .error e =>
    (st, .error ("failed to record failure transition for file '" ++ st.currentFile.path.display ++
      "' in phase '" ++ plan.phaseName ++ "' for plan " ++
      String.ofList (uuidText plan.id) ++ ": " ++ e))
  | .ok () =>
    ({ st with transitions :=
        st.transitions ++ [failureTransition st.currentFile plan executor message] }, .ok ())

def dispatchFailed (env : PipelineEnv) (event : PlanFailedEvent) (st : PipelineState) :
    PipelineState :=
  { st with bus := PlanDispatcher.failed env.subs event st.bus }

/-- `record_safeguard_failure`: a transition that cannot be recorded is only
warned about. -/
def recordSafeguardFailure (env : PipelineEnv) (plan : Plan) (message : String)
    (st : PipelineState) : PipelineState :=
  let st := dispatchFailed env
    { planId := plan.id, path := st.currentFile.path, phaseName := plan.phaseName,
      error := message } st
  (recordFailureTransition env plan "" message st).1

/-- Take a converted output away again. -/
def removeOutput (env : PipelineEnv) (plan : Plan) (path : Path) (st : PipelineState) :
    PipelineState :=
  if path ≠ st.currentFile.path ∧ (env.output plan.id).removeOk = true then
    { st with bus := { st.bus with
        world := { st.bus.world with disk := st.bus.world.disk.remove path } } }
  else st

/-! ## Numbers in messages -/

/-- The `{:.n}` rendering of a non-negative number, ties to even. -/
def fixedText (digits : Nat) (x : Rat) : String :=
  let scaled := x * 10 ^ digits
  let floor := scaled.floor.toNat
  let rest := scaled - floor
  let n := if rest > 1 / 2 ∨ (rest = 1 / 2 ∧ floor % 2 = 1) then floor + 1 else floor
  if digits = 0 then toString n
  else
    let frac := toString (n % 10 ^ digits)
    toString (n / 10 ^ digits) ++ "." ++
      String.ofList (List.replicate (digits - frac.length) '0') ++ frac

def fixedF64 (digits : Nat) : F64 → String
  | .finite x => if x < 0 then "-" ++ fixedText digits (-x) else fixedText digits x
  | .infinity negative => if negative then "-inf" else "inf"
  | .nan => "NaN"

/-- `format_size`. -/
def formatSize (bytes : Nat) : String :=
  let kib := 1024
  let mib := 1024 * kib
  let gib := 1024 * mib
  if bytes ≥ gib then fixedText 2 (bytes / gib) ++ " GiB"
  else if bytes ≥ mib then fixedText 1 (bytes / mib) ++ " MiB"
  else if bytes ≥ kib then fixedText 0 (bytes / kib) ++ " KiB"
  else toString bytes ++ " B"

/-! ## Safeguards -/

def u64Max : Nat := 2 ^ 64 - 1

def saturatingAdd (a b : Nat) : Nat := min (a + b) u64Max

def saturatingMul (a b : Nat) : Nat := min (a * b) u64Max

def minimumReserveBytes : Nat := 50 * 1024 * 1024

/-- `estimate_required_space`. -/
def estimateRequiredSpace (disk : Disk) (plan : Plan) (fileSize : Nat) : Nat :=
  let needsExtra := plan.actions.any fun a =>
    [OperationType.transcodeVideo, .transcodeAudio, .convertContainer, .synthesizeAudio].contains
      a.operation
  let subtitleBytes := (plan.actions.filterMap fun a =>
    match a.parameters with
    | .muxSubtitle subtitlePath _ _ _ => (disk subtitlePath).map List.length
    | _ => none).foldl saturatingAdd 0
  let multiplier := if needsExtra then 2 else 1
  saturatingAdd (saturatingAdd (saturatingMul fileSize multiplier) subtitleBytes)
    minimumReserveBytes

/-- The state after a safeguard has fired; `none` to proceed. -/
def checkDiskSpace (env : PipelineEnv) (plan : Plan) (st : PipelineState) :
    Option PipelineState :=
  match env.availableSpace plan.id with
  | .error _ => none
  | .ok available =>
    let required := estimateRequiredSpace st.disk plan st.currentFile.size
    if available ≥ required then none
    else
      some (recordSafeguardFailure env plan
        ("insufficient disk space: need " ++ formatSize required ++ " but only " ++
          formatSize available ++ " available on " ++
          (st.currentFile.path.parent.getD ⟨[]⟩).display) st)

def checkSizeIncrease (env : PipelineEnv) (plan : Plan) (st : PipelineState) :
    Option PipelineState :=
  if env.flagSizeIncrease then
    let checkPath := resolvePostExecutionPath st.disk st.currentFile [plan]
    match outputSize env plan st.disk checkPath with
    | none => none
    | some newSize =>
      if newSize ≤ st.currentFile.size ∨ st.currentFile.size = 0 then none
      else
        some (recordSafeguardFailure env plan
          ("output grew from " ++ toString st.currentFile.size ++ " to " ++ toString newSize ++
            " bytes") (removeOutput env plan checkPath st))
  else none

/-- `duration_shrunk_pct`. -/
def durationShrunkPct (orig new : F64) : F64 :=
  if orig.le (.finite 0) || orig.le new then .finite 0
  else
    match orig, new with
    | .finite orig, .finite new => .finite ((orig - new) / orig * 100)
    | .finite _, .infinity true => .infinity false
    | _, _ => .nan

def durationShrinkThresholdPct : F64 := .finite 5

/-- `check_duration_shrink_blocking`: where the output is and the message, if the
safeguard fires. An output `ffprobe` cannot read counts as a violation. -/
def checkDurationShrinkBlocking (env : PipelineEnv) (plan : Plan) (disk : Disk) (file : MediaFile) :
    Option (Path × String) :=
  let checkPath := resolvePostExecutionPath disk file [plan]
  match outputSize env plan disk checkPath with
  | none => none
  | some _ =>
    match (env.output plan.id).probeDuration checkPath with
    | .error error =>
      some (checkPath, "duration-shrink check: ffprobe failed to introspect output " ++
        checkPath.display ++ ": " ++ error)
    | .ok newDuration =>
      let pct := durationShrunkPct file.duration newDuration
      if pct.lt durationShrinkThresholdPct then none
      else
        some (checkPath, "output duration shrank from " ++ fixedF64 2 file.duration ++ "s to " ++
          fixedF64 2 newDuration ++ "s (" ++ fixedF64 1 pct ++ "%)")

def checkDurationShrink (env : PipelineEnv) (plan : Plan) (st : PipelineState) :
    Option PipelineState :=
  if env.flagDurationShrink = true ∧ st.currentFile.duration.le (.finite 0) = false ∧
      env.cancelledAfter plan.id = false then
    match checkDurationShrinkBlocking env plan st.disk st.currentFile with
    | none => none
    | some (checkPath, message) =>
      some (recordSafeguardFailure env plan message (removeOutput env plan checkPath st))
  else none

/-! ## Success -/

/-- `reintrospect_file`: the file at its path after execution. Without a file
there the previous state is used; without an introspection the previous tracks
are kept, and a failed hash does not replace a known one. -/
def reintrospectFile (env : PipelineEnv) (plan : Plan) (disk : Disk) (file : MediaFile)
    (currentPath : Path) : MediaFile :=
  match disk currentPath with
  | none => file
  | some content =>
    let size := (outputSize env plan disk currentPath).getD file.size
    let hash := if (env.output plan.id).hashOk then some (env.hash content) else none
    match (env.output plan.id).introspect currentPath with
    | .ok found =>
      { id := file.id, path := currentPath, size, contentHash := hash,
        expectedHash := file.expectedHash, status := file.status, container := found.container,
        duration := found.duration, tracks := found.tracks }
    | .error _ =>
      { file with
        container := Container.fromExtension (currentPath.extension.getD ""), path := currentPath,
        size, contentHash := if hash.isSome then hash else file.contentHash }

/-- The transition `record_file_transition` writes, when hash or path changed. -/
def fileTransition (oldFile newFile : MediaFile) (executor : String) (plan : Plan) :
    Option FileTransition :=
  if newFile.contentHash = oldFile.contentHash ∧ oldFile.path = newFile.path then none
  else
    some { fileId := oldFile.id, path := newFile.path, toHash := newFile.contentHash.getD "",
           toSize := newFile.size, source := .voom, fromHash := oldFile.contentHash,
           fromSize := some oldFile.size, sourceDetail := some executor, planId := some plan.id,
           outcome := some .success, policyName := some plan.policyName,
           phaseName := some plan.phaseName,
           fromPath := if oldFile.path = newFile.path then none else some oldFile.path }

/-- `handle_plan_success`. -/
def handlePlanSuccess (env : PipelineEnv) (plan : Plan) (executor : String) (st : PipelineState) :
    PipelineState :=
  let file := st.currentFile
  let st := { st with bus := PlanDispatcher.completed env.subs plan file env.keepBackups st.bus }
  let newFile := reintrospectFile env plan st.disk file
    (resolvePostExecutionPath st.disk file [plan])
  match fileTransition file newFile executor plan with
  | none => { st with currentFile := newFile }
  | some transition =>
    match env.recordTransition plan.id with
    | .ok () =>
      { st with currentFile := newFile, transitions := st.transitions ++ [transition] }
    | .error e =>
      { st with stopped := some (some ("failed to record post-execution transition for file '" ++
          file.path.display ++ "' in phase '" ++ plan.phaseName ++ "' for plan " ++
          String.ofList (uuidText plan.id) ++ ": " ++ e)) }

/-! ## Crop detection -/

/-- The first transcode of the plan that asks for crop detection. -/
def cropAction (plan : Plan) : Option (PlannedAction × CropSettings) :=
  plan.actions.findSome? fun action =>
    match action.operation, action.parameters with
    | .transcodeVideo, .transcode _ settings => settings.crop.map fun crop => (action, crop)
    | _, _ => none

def planRequiresAutoCrop (plan : Plan) : Bool := (cropAction plan).isSome

/-- `cropdetect_request_for_plan`; only the settings are passed on here. -/
def cropdetectRequestForPlan (plan : Plan) (file : MediaFile) : Option CropSettings := do
  let (action, settings) ← cropAction plan
  let trackIndex ← action.trackIndex
  let track ← file.tracks.find? fun t => t.index = trackIndex ∧ t.trackType = .video
  let _ ← track.width
  let _ ← track.height
  return settings

/-- `apply_auto_crop_detection`. -/
def applyAutoCropDetection (env : PipelineEnv) (plan : Plan) (file : MediaFile) :
    Except String (Plan × MediaFile) :=
  match cropdetectRequestForPlan plan file with
  | none => .ok (plan, file)
  | some settings =>
    let fingerprint := env.cropSettingsFingerprint settings
    if (file.cropDetection.bind (·.settingsFingerprint)) = some fingerprint then
      .ok ({ plan with file }, file)
    else
      match env.detectCrop file.path settings with
      | .error e => .error ("crop detection failed: " ++ e)
      | .ok detection =>
        let detection := detection.map fun d => { d with settingsFingerprint := some fingerprint }
        if file.cropDetection = detection then .ok (plan, file)
        else
          match env.upsertFile plan.id with
          | .error e => .error ("failed to persist crop detection: " ++ e)
          | .ok () =>
            let file := { file with cropDetection := detection }
            .ok ({ plan with file }, file)

/-! ## The loop -/

/-- What the loop body does once the plan is to be executed. -/
def executePhase (env : PipelineEnv) (plan : Plan) (st : PipelineState) :
    PipelineState × Option EvaluationOutcome :=
  let (bus, outcome) := executeSinglePlan env.subs plan st.currentFile st.bus
  let st := { st with bus }
  match outcome with
  | .success executor =>
    match checkSizeIncrease env plan st with
    | some st => ({ st with failedPlanCount := st.failedPlanCount + 1 }, some .safeguardFailed)
    | none =>
      match checkDurationShrink env plan st with
      | some st => ({ st with failedPlanCount := st.failedPlanCount + 1 }, some .safeguardFailed)
      | none =>
        (handlePlanSuccess env plan executor { st with anyExecuted := true },
          some (.executed true))
  | .failed event =>
    let st := dispatchFailed env event st
    match recordFailureTransition env plan (event.pluginName.getD "") event.error st with
    | (st, .error e) => ({ st with stopped := some (some e) }, none)
    | (st, .ok ()) =>
      ({ st with failedPlanCount := st.failedPlanCount + 1 }, some .executionFailed)

/-- The disk-space safeguard and what follows it. A plan that had to wait for
its slot before crop detection has one already. -/
def startPhase (env : PipelineEnv) (plan : Plan) (hasSlot : Bool) (st : PipelineState) :
    PipelineState × Option EvaluationOutcome :=
  match checkDiskSpace env plan st with
  | some st => ({ st with failedPlanCount := st.failedPlanCount + 1 }, some .safeguardFailed)
  | none =>
    if hasSlot = false ∧ env.cancelledWaiting plan.id = true then
      ({ st with stopped := some none }, none)
    else executePhase env plan st

/-- The part of the loop body after an evaluation that planned something. -/
def runPlan (env : PipelineEnv) (plan : Plan) (st : PipelineState) :
    PipelineState × Option EvaluationOutcome :=
  if env.savingsBelowThreshold plan then (st, some .skipped)
  else
    match plan.skipReason with
    | some reason =>
      let bus := PlanDispatcher.created env.subs plan st.bus
      ({ st with bus := PlanDispatcher.skipped env.subs plan st.currentFile reason bus },
        some .skipped)
    | none =>
      if plan.isEmpty then (st, some (.executed false))
      else if planRequiresAutoCrop plan then
        if env.cancelledWaiting plan.id then ({ st with stopped := some none }, none)
        else
          match applyAutoCropDetection env plan st.currentFile with
          | .error error =>
            let st := dispatchFailed env
              { planId := plan.id, path := st.currentFile.path, phaseName := plan.phaseName, error,
                pluginName := some "ffmpeg-executor" } st
            ({ st with failedPlanCount := st.failedPlanCount + 1 }, some .executionFailed)
          | .ok (plan, file) => startPhase env plan true { st with currentFile := file }
      else startPhase env plan false st

/-- One round of the loop. -/
def processPhase (env : PipelineEnv) (st : PipelineState) (phase : String) :
    PipelineState × Option EvaluationOutcome :=
  if env.cancelled phase then ({ st with stopped := some none }, none)
  else
    match env.evaluate phase st.currentFile st.phaseOutcomes with
    | .error e => ({ st with stopped := some (some e) }, none)
    | .ok none => (st, none)
    | .ok (some plan) => runPlan env plan st

/-- One round with its outcome entered; after the loop was left nothing happens. -/
def pipelineStep (env : PipelineEnv) (st : PipelineState) (phase : String) : PipelineState :=
  if st.stopped.isSome then st
  else
    match processPhase env st phase with
    | (st, none) => st
    | (st, some outcome) =>
      { st with phaseOutcomes := Function.update st.phaseOutcomes phase (some outcome) }

end Voom.Process
