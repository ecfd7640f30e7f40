-- SUMMARY: An execution of the FFmpeg executor: preparing the actions, running FFmpeg and moving the output into place.
import Voom.Executors.FfmpegCommand

/-!
# Executions of the FFmpeg executor

What the tools, the store and the file system answer is collected in `RunEnv`. The encodes that
measure quality and loudness and the tools that put dynamic HDR metadata back work in directories
of their own and appear by what they come back with.
-/

namespace Voom.Executors.Ffmpeg

/-! ## Preparing the actions -/

def hasAnimationVideo (file : MediaFile) : Bool :=
  file.tracks.any fun t => t.trackType.isVideo && t.isAnimation = some true

def resolveTargetVmaf (settings : TranscodeSettings) (file : MediaFile) : Option Nat :=
  let animationOverride := settings.vmafOverrides.bind (List.lookup "animation")
  if hasAnimationVideo file then animationOverride.or settings.targetVmaf else settings.targetVmaf

/-- What a search for the quality target settles on. -/
structure IterationResult where
  finalCrf : Nat
  finalBitrate : Option String

/-- Change the settings of a transcode. -/
def mapSettings (f : TranscodeSettings → TranscodeSettings) : ActionParams → ActionParams
  | .transcode codec settings => .transcode codec (f settings)
  | params => params

theorem validateActionParams_mapSettings (f : TranscodeSettings → TranscodeSettings)
    (op : OperationType) (params : ActionParams) :
    validateActionParams op (mapSettings f params) = validateActionParams op params := by
  cases params <;> cases op <;> rfl

def withSettings (f : TranscodeSettings → TranscodeSettings) (action : PlannedAction) :
    PlannedAction :=
  { action with
    parameters := mapSettings f action.parameters
    checked := (validateActionParams_mapSettings f _ _).trans action.checked }

/-- The settings that follow from the search; a search that fails leaves the fallback. -/
def vmafSettings (answer : Except String IterationResult) (target : Nat)
    (settings : TranscodeSettings) : TranscodeSettings :=
  let settings := { settings with targetVmaf := some target }
  match answer with
  | .ok result =>
    { settings with crf := some result.finalCrf, bitrate := result.finalBitrate, preset := none }
  | .error _ =>
    match settings.fallback with
    | some fallback => { settings with crf := some fallback.crf, preset := some fallback.preset }
    | none => settings

def prepareVmafAction (file : MediaFile) (answer : Except String IterationResult)
    (action : PlannedAction) : PlannedAction :=
  match action.parameters with
  | .transcode _ settings =>
    match resolveTargetVmaf settings file with
    | some target => withSettings (vmafSettings answer target) action
    | none => action
  | _ => action

/-- Loudness that is within its target needs no normalization: an action for nothing else is
named for removal. -/
def prepareLoudnessAction (withinTarget : Except VoomError Bool) (action : PlannedAction) :
    Except VoomError (PlannedAction × Option String) :=
  match action.parameters, action.trackIndex with
  | .transcode _ settings, some _ =>
    if settings.loudness.isNone then .ok (action, none)
    else
      match withinTarget with
      | .error e => .error e
      | .ok false => .ok (action, none)
      | .ok true =>
        if "Normalize audio track ".toList <+: action.description.toList then
          .ok (action, some action.description)
        else .ok (withSettings (fun settings => { settings with loudness := none }) action, none)
  | _, _ => .ok (action, none)

/-! ## Dynamic HDR -/

inductive DynamicHdrKind where
  | hdr10Plus | dolbyVision
  deriving DecidableEq, Repr

def DynamicHdrKind.toolName : DynamicHdrKind → String
  | .hdr10Plus => "hdr10plus_tool"
  | .dolbyVision => "dovi_tool"

structure DynamicHdrJob where
  kind : DynamicHdrKind
  sourceTrackIndex : Nat
  outputExtension : String
  deriving DecidableEq, Repr

def dynamicHdrError (message : String) : VoomError := .toolExecution "dynamic-hdr" message

def dynamicHdrKind (track : Track) : Except VoomError (Option DynamicHdrKind) :=
  let format := track.hdrFormat.getD ""
  if containsText format "HDR10+" then .ok (some .hdr10Plus)
  else if containsText format "Dolby Vision" then
    match track.dolbyVisionProfile with
    | none =>
      .error (dynamicHdrError
        "cannot preserve Dolby Vision RPU metadata without a detected profile")
    | some profile =>
      if profile = 5 ∨ profile = 7 ∨ profile = 8 then .ok (some .dolbyVision)
      else
        .error (dynamicHdrError
          s!"unsupported Dolby Vision profile {profile}; supported profiles are 5, 7, and 8")
  else .ok none

/-- The source track of the first video transcode, with its codec and settings. -/
def hdrSource (file : MediaFile) (actions : List PlannedAction) :
    Option (String × TranscodeSettings × Track) := do
  let action ← actions.find? fun action => action.operation = .transcodeVideo
  match action.parameters with
  | .transcode codec settings =>
    let trackIndex ← action.trackIndex
    let track ← file.tracks.find? fun track => track.index = trackIndex
    return (codec, settings, track)
  | _ => none

def dynamicHdrJob (file : MediaFile) (actions : List PlannedAction) (outputExtension : String) :
    Except VoomError (Option DynamicHdrJob) :=
  match hdrSource file actions with
  | none => .ok none
  | some (codec, settings, track) =>
    if shouldTonemap settings || !settings.preserveHdr.getD true then .ok none
    else
      match dynamicHdrKind track with
      | .error e => .error e
      | .ok none => .ok none
      | .ok (some kind) =>
        if codec ≠ "hevc" ∧ codec ≠ "h265" then
          .error (dynamicHdrError
            ("cannot preserve dynamic HDR metadata while transcoding to " ++ codec ++
              "; choose hevc/h265 or set preserve_hdr: false"))
        else if outputExtension ≠ "mkv" ∧ outputExtension ≠ "mp4" then
          .error (dynamicHdrError
            ("cannot preserve dynamic HDR metadata in ." ++ outputExtension ++
              " output; choose mkv or mp4, or set preserve_hdr: false"))
        else .ok (some ⟨kind, track.index, outputExtension⟩)

/-! ## Running -/

/-- What an execution meets. -/
structure RunEnv where
  command : CommandEnv
  hwAccel : HwAccelConfig
  fileExists : Bool
  /-- The searches for a quality target and the measurements of loudness, by action. -/
  vmaf : Nat → Except String IterationResult
  withinTarget : Nat → Except VoomError Bool
  tempId : String
  toolProbe : ToolOutcome
  ffmpeg : ToolOutcome
  /-- The tools that put dynamic metadata back, and moving their output over FFmpeg's. -/
  reinjection : Except VoomError Unit
  replaceOutput : Except String Unit
  /-- The answer of the store to the record of a mutation, without a store none. -/
  storage : Option (Except String Unit)
  rename : Except String Unit
  /-- The answer of the store to the outcomes of transcodes and to new loudness values. -/
  outcomes : Except VoomError Unit
  mux : Nat → Mkvtoolnix.MergeRun

/-- `prepare_vmaf_transcodes` and `prepare_loudness_actions`: actions named for removal go, with
all that have the same description. -/
def prepareActions (env : RunEnv) (plan : Plan) : Except VoomError (List PlannedAction) := do
  let searched := plan.actions.zipIdx.map fun p => prepareVmafAction plan.file (env.vmaf p.2) p.1
  let measured ← searched.zipIdx.mapM fun p => prepareLoudnessAction (env.withinTarget p.2) p.1
  let removed := measured.filterMap (·.2)
  return (measured.map (·.1)).filter fun action => !removed.contains action.description

/-- What is run: the actions, the extension and path of the output and the command. -/
structure Job where
  actions : List PlannedAction
  extension : String
  outputPath : Path
  command : List Part
  dynamicHdr : Option DynamicHdrJob

def ensureToolAvailable (tool : String) (probe : ToolOutcome) : Except VoomError Unit :=
  match probe with
  | .error e => .error e
  | .ok output =>
    if output.success then .ok ()
    else .error (.toolExecution tool (tool ++ " --version exited with " ++ output.statusText))

/-- The command for prepared actions. -/
def jobFor (env : RunEnv) (file : MediaFile) (actions : List PlannedAction) :
    Except VoomError Job := do
  let extension := outputExtension file actions
  let outputPath := tempPathWithExt file.path env.tempId extension
  let hw := if env.hwAccel.enabled then some env.hwAccel else none
  let command ← buildFfmpegCommand env.command file hw actions outputPath
  let dynamicHdr ← dynamicHdrJob file actions extension
  return { actions, extension, outputPath, command, dynamicHdr }

/-- The tool for dynamic metadata, if it is needed. -/
def ensureHdrTool (env : RunEnv) (job : Job) : Except VoomError Unit :=
  match job.dynamicHdr with
  | some hdr => ensureToolAvailable hdr.kind.toolName env.toolProbe
  | none => .ok ()

/-- All that comes before the run of FFmpeg. -/
def startJob (env : RunEnv) (plan : Plan) : Except VoomError Job :=
  if !env.fileExists then .error (toolError ("file not found: " ++ plan.file.path.display))
  else do
    let actions ← prepareActions env plan
    let job ← jobFor env plan.file actions
    ensureHdrTool env job
    return job

/-- `apply_dynamic_hdr_reinjection`; the output of FFmpeg is replaced at the end. -/
def applyDynamicHdrReinjection (env : RunEnv) (plan : Plan) (job : Job) : Except VoomError Unit :=
  match job.dynamicHdr with
  | none => .ok ()
  | some _ => do
    env.reinjection
    recordMutationForPendingWrite env.storage plan.scanSession job.outputPath
    env.replaceOutput.mapError dynamicHdrError

/-- Where the output goes: over the file, or beside it under the new extension. -/
def finalPath (path : Path) (extension : String) : Path :=
  if extension = path.extension.getD "" then path else path.withExtension extension

def renameOutput (env : RunEnv) (plan : Plan) (job : Job) : Except VoomError Unit := do
  let dest := finalPath plan.file.path job.extension
  recordMutationForPendingWrite env.storage plan.scanSession dest
  env.rename.mapError fun e =>
    toolError ("failed to rename temp file to " ++ dest.display ++ ": " ++ e)

/-- What the bus answers for a plugin that panicked. -/
def panicked : VoomError := .plugin pluginName "plugin panicked"

def executePlanWithRunners (env : RunEnv) (plan : Plan) : Except VoomError (List ActionResult) := do
  let job ← startJob env plan
  let command := shellQuoteArgs "ffmpeg" (render job.command)
  match env.ffmpeg with
  | .error e => .error e
  | .ok output =>
    if output.success then do
      applyDynamicHdrReinjection env plan job
      renameOutput env plan job
      let detail : ExecutionDetail :=
        { command, exitCode := some 0, stderrTail := "", durationMs := output.durationMs }
      return job.actions.map fun action =>
        (ActionResult.succeeded action.operation action.description).withExecutionDetail detail
    else
      let tail := stderrTail output.stderr 20
      let shown := if tail = "" then "(no output)" else tail
      let error := "ffmpeg exited with " ++ output.statusText ++ ":\n" ++ shown ++ "\ncmd: " ++ command
      let detail : ExecutionDetail :=
        { command, exitCode := output.code, stderrTail := tail, durationMs := output.durationMs }
      match job.actions with
      | first :: _ =>
        return [(ActionResult.failure first.operation first.description error).withExecutionDetail
          detail]
      -- `actions[0]` of an empty list
      | [] => .error panicked

/-! ## Subtitles -/

/-- `temp_path`: the extension of the original, `mkv` without one. -/
def tempPath (original : Path) (id : String) : Path :=
  tempPathWithExt original id (original.extension.getD "mkv")

def muxArgs (path tmp subtitlePath : Path) (language : String) (forced : Bool) : List String :=
  ["-i", path.display, "-i", subtitlePath.display, "-c", "copy", "-c:s", "srt",
    "-metadata:s:s:0", "language=" ++ language] ++
    (if forced then ["-disposition:s:0", "forced"] else []) ++ ["-y", tmp.display]

def executeMuxSubtitle (storage : Option (Except String Unit)) (run : Mkvtoolnix.MergeRun)
    (plan : Plan) (action : PlannedAction) : Except VoomError (List ActionResult) :=
  let path := plan.file.path
  match action.parameters with
  | .muxSubtitle subtitlePath language forced _ =>
    if !isValidLanguage language then
      .error (.plugin pluginName ("invalid ISO 639 language code: \"" ++ language ++ "\""))
    else
      let tmp := tempPath path run.tempId
      let command := shellQuoteArgs "ffmpeg" (muxArgs path tmp subtitlePath language forced)
      match run.outcome with
      | .error e => .error (.plugin pluginName ("ffmpeg subtitle mux failed: " ++ e.toText))
      | .ok output =>
        if output.success then
          match recordMutationForPendingWrite storage plan.scanSession path with
          | .error e => .error e
          | .ok _ =>
            match run.rename with
            | .error e => .error (.plugin pluginName ("failed to rename temp file: " ++ e))
            | .ok _ =>
              .ok [(ActionResult.succeeded action.operation action.description).withExecutionDetail
                { command, exitCode := some 0, stderrTail := "", durationMs := output.durationMs }]
        else
          let tail := stderrTail output.stderr 20
          let shown := if tail = "" then "(no output)" else tail
          let code := output.code.getD (-1)
          let error := s!"ffmpeg failed (exit {code}):\n{shown}\ncmd: {command}"
          .ok [(ActionResult.failure action.operation action.description error).withExecutionDetail
            { command, exitCode := output.code, stderrTail := tail, durationMs := output.durationMs }]
  | _ => .error (.plugin pluginName "expected MuxSubtitle params")

/-- The muxes of a plan, in order; an error ends the execution. -/
def executeMuxes (env : RunEnv) (plan : Plan) :
    List PlannedAction → Nat → Except VoomError (List ActionResult)
  | [], _ => .ok []
  | action :: rest, i => do
    let results ← executeMuxSubtitle env.storage (env.mux i) plan action
    let others ← executeMuxes env plan rest (i + 1)
    return results ++ others

/-! ## Plans -/

/-- The transcodes, each of which has an outcome for the store. -/
def transcodes (plan : Plan) : List PlannedAction :=
  plan.actions.filter fun action =>
    match action.parameters with
    | .transcode _ _ => true
    | _ => false

def executePlan (config : Config) (env : RunEnv) (plan : Plan) :
    Except VoomError (List ActionResult) :=
  if !canHandle config plan then .error (.plugin pluginName "Plan cannot be handled by FFmpeg executor")
  else if plan.actions.any (·.operation = .muxSubtitle) then
    executeMuxes env plan (plan.actions.filter (·.operation = .muxSubtitle)) 0
  else do
    let results ← executePlanWithRunners env plan
    if env.storage.isSome ∧ transcodes plan ≠ [] then env.outcomes
    return results

end Voom.Executors.Ffmpeg
