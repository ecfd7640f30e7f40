-- SUMMARY: The MKVToolNix executor: which plans it takes, the commands it builds and how it runs them.
import Voom.Domain.Codecs
import Voom.Executors.Tools

/-!
# The MKVToolNix executor

Metadata actions are batched into one run of mkvpropedit, structural ones into one run of
mkvmerge; a plan that muxes subtitles runs mkvmerge once for each of them and nothing
else. An execution comes back with the results it reports and with its deeds: the runs
that ended well and whose output is in place.
-/

namespace Voom.Executors.Mkvtoolnix

/-! ## Which plans -/

def mergeOps : List OperationType := [.removeTrack, .reorderTracks, .convertContainer]

def isSupportedOp (op : OperationType) : Bool :=
  op.isMetadataOp || mergeOps.contains op || op = .muxSubtitle

/-- A conversion to MKV. -/
def isConvertToMkv (action : PlannedAction) : Bool :=
  action.operation = .convertContainer && action.parameters = .container .mkv

def canHandle (available : Bool) (plan : Plan) : Bool :=
  available && (plan.file.container = .mkv || plan.actions.any isConvertToMkv) &&
    plan.actions.all fun a => isSupportedOp a.operation

/-- `classify_actions`: the metadata actions and the structural ones. -/
def classifyActions (actions : List PlannedAction) : List PlannedAction × List PlannedAction :=
  (actions.filter (·.operation.isMetadataOp),
   actions.filter fun a => !a.operation.isMetadataOp && mergeOps.contains a.operation)

/-! ## mkvpropedit -/

/-- The properties of the segment that `--edit info` reaches. None of the names has a letter
that a letter outside ASCII is lowered to. -/
def isSegmentInfoProperty (name : String) : Bool :=
  ["title", "date", "segment-uid", "prev-uid", "next-uid", "segment-filename", "prev-filename",
    "next-filename", "muxing-application", "writing-application"].contains (toAsciiLowercase name)

/-- `--edit track:N --set`, with tracks counted from one; nothing without a track. -/
def trackEdit (index : Option Nat) (setting : String) : List String :=
  match index with
  | some idx => ["--edit", s!"track:{idx + 1}", "--set", setting]
  | none => []

/-- A setting with a value that is checked first, if there is a track at all. -/
def checkedTrackEdit (index : Option Nat) (key value : String) : Except VoomError (List String) :=
  match index with
  | some _ =>
    match validateMetadataValue value with
    | .ok _ => .ok (trackEdit index (key ++ "=" ++ value))
    | .error e => .error e
  | none => .ok []

/-- The arguments one action adds. -/
def propeditArgs (action : PlannedAction) : Except VoomError (List String) :=
  match action.operation with
  | .setDefault => .ok (trackEdit action.trackIndex "flag-default=1")
  | .clearDefault => .ok (trackEdit action.trackIndex "flag-default=0")
  | .setForced => .ok (trackEdit action.trackIndex "flag-forced=1")
  | .clearForced => .ok (trackEdit action.trackIndex "flag-forced=0")
  | .setTitle =>
    let title :=
      match action.parameters with
      | .title title => title
      | _ => ""
    checkedTrackEdit action.trackIndex "name" title
  | .setLanguage =>
    let language :=
      match action.parameters with
      | .language language => language
      | _ => "und"
    checkedTrackEdit action.trackIndex "language" language
  | .setContainerTag =>
    let (tag, value) :=
      match action.parameters with
      | .setTag tag value => (tag, value)
      | _ => ("title", "")
    if isSegmentInfoProperty tag then do
      validateMetadataValue tag
      validateMetadataValue value
      return ["--edit", "info", "--set", tag ++ "=" ++ value]
    else .ok []
  | .clearContainerTags => .ok ["--tags", "all:"]
  | .deleteContainerTag =>
    let tag :=
      match action.parameters with
      | .deleteTag tag => tag
      | _ => ""
    if isSegmentInfoProperty tag then do
      validateMetadataValue tag
      return ["--edit", "info", "--delete", tag]
    else .ok []
  | _ => .ok []

/-- The arguments of all actions, one after the other. -/
def allPropeditArgs : List PlannedAction → Except VoomError (List String)
  | [] => .ok []
  | action :: rest => do
    let args ← propeditArgs action
    let others ← allPropeditArgs rest
    return args ++ others

def buildPropeditArgs (path : Path) (actions : List PlannedAction) :
    Except VoomError (List String) :=
  (allPropeditArgs actions).map (path.display :: ·)

/-! ## mkvmerge -/

/-- The tracks to remove under one option: those of the category, and attachments under
every option. -/
def removals (inCategory : TrackType → Bool) (actions : List PlannedAction) : List Nat :=
  actions.filterMap fun action =>
    match action.operation, action.trackIndex, action.parameters with
    | .removeTrack, some idx, .removeTrack _ trackType =>
      if inCategory trackType || trackType = .attachment then some idx else none
    | _, _, _ => none

/-- `--video-tracks !3,5`, nothing for an empty list. -/
def removalArgs (option : String) (ids : List Nat) : List String :=
  if ids = [] then [] else [option, "!" ++ ",".intercalate (ids.map toString)]

/-- The tracks of an order that are numbers, as tracks of the first input. -/
def trackOrder (order : List String) : List String :=
  (order.filterMap (parseUnsigned 64)).map fun idx => s!"0:{idx}"

def orderArgs (action : PlannedAction) : List String :=
  match action.operation, action.parameters with
  | .reorderTracks, .reorderTracks order =>
    if trackOrder order = [] then [] else ["--track-order", ",".intercalate (trackOrder order)]
  | _, _ => []

def buildMergeArgs (inputPath outputPath : Path) (actions : List PlannedAction) : List String :=
  ["-o", outputPath.display] ++
    removalArgs "--video-tracks" (removals TrackType.isVideo actions) ++
    removalArgs "--audio-tracks" (removals TrackType.isAudio actions) ++
    removalArgs "--subtitle-tracks" (removals TrackType.isSubtitle actions) ++
    actions.flatMap orderArgs ++ [inputPath.display]

/-- With a conversion the output gets the extension `mkv`. -/
def determineFinalPath (original : Path) (actions : List PlannedAction) : Path :=
  if actions.any (·.operation = .convertContainer) then original.withExtension "mkv" else original

/-! ## Running the tools -/

/-- How the run of a tool that writes a new file goes, and moving the file into place. -/
structure MergeRun where
  tempId : String
  outcome : ToolOutcome
  rename : Except String Unit

/-- What an execution meets: the file, with the tags that mkvpropedit finds in its segment
information, the store and the tools. -/
structure Env where
  fileExists : Bool
  stillExists : Bool
  storage : Option (Except String Unit)
  propedit : ToolOutcome
  merge : MergeRun
  mux : Nat → MergeRun
  segmentInfo : List String := []

/-- A run that ended well and took effect. -/
inductive Deed where
  | edited (args : List String) (actions : List PlannedAction) (segmentInfo : List String)
  | merged (args : List String) (actions : List PlannedAction)
  | muxed (action : PlannedAction)
  deriving DecidableEq, Repr

/-- What an execution returns, with its deeds. -/
structure Execution where
  result : Except VoomError (List ActionResult)
  deeds : List Deed := []

def toolError (tool message : String) : VoomError := .toolExecution tool message

def executePropeditActions (env : Env) (path : Path) (actions : List PlannedAction) : Execution :=
  if actions = [] then { result := .ok [] }
  else
    match buildPropeditArgs path actions with
    | .error e => { result := .error e }
    | .ok args =>
      match env.propedit with
      | .error e => { result := .error e }
      | .ok output =>
        if output.success then
          { result := .ok (actions.map fun a => ActionResult.succeeded a.operation a.description)
            deeds := [.edited args actions env.segmentInfo] }
        else
          { result := .error (toolError "mkvpropedit"
              s!"mkvpropedit exited with status {output.statusText}: {output.stderr}") }

/-- The exit codes that mkvmerge ends well with: none, and warnings. -/
def mergeSucceeded (output : ToolOutput) : Bool := output.code.getD 2 ≤ 1

def detailOf (command : String) (output : ToolOutput) : ExecutionDetail :=
  { command, exitCode := output.code, stderrTail := stderrTail output.stderr 20,
    durationMs := output.durationMs }

def executeMergeActions (env : Env) (path : Path) (session : Option Uuid)
    (actions : List PlannedAction) : Execution :=
  match actions with
  | [] => { result := .ok [] }
  | first :: _ =>
    if !env.stillExists then
      { result := .error (toolError "mkvmerge" ("file not found: " ++ path.display)) }
    else
      let tempPath := tempPathWithExt path env.merge.tempId "mkv"
      let args := buildMergeArgs path tempPath actions
      let command := shellQuoteArgs "mkvmerge" args
      match env.merge.outcome with
      | .error e => { result := .error e }
      | .ok output =>
        let detail := detailOf command output
        if mergeSucceeded output then
          let finalPath := determineFinalPath path actions
          match recordMutationForPendingWrite env.storage session finalPath with
          | .error e => { result := .error e }
          | .ok _ =>
            match env.merge.rename with
            | .error e =>
              { result := .error (toolError "mkvmerge"
                  s!"failed to rename {tempPath.display} to {finalPath.display}: {e}") }
            | .ok _ =>
              { result := .ok (actions.map fun a =>
                  (ActionResult.succeeded a.operation a.description).withExecutionDetail detail)
                deeds := [.merged args actions] }
        else
          let error :=
            s!"mkvmerge exited with status {output.statusText}:\n{detail.stderrTail}\ncmd: {command}"
          { result := .ok [(ActionResult.failure first.operation first.description error).withExecutionDetail
              detail] }

/-- The arguments of a subtitle mux. -/
def muxArgs (path tmp subtitlePath : Path) (language : String) (forced : Bool)
    (title : Option String) : List String :=
  let flag := if forced then "1" else "0"
  ["-o", tmp.display, "--language", "0:" ++ language, "--forced-display-flag", "0:" ++ flag] ++
    (title.elim [] fun title => ["--track-name", "0:" ++ title]) ++
    [path.display, subtitlePath.display]

/-- A mux ends well with exit code 0 or 1. -/
def muxSucceeded (output : ToolOutput) : Bool := output.success || output.code = some 1

def executeMuxSubtitle (storage : Option (Except String Unit)) (run : MergeRun) (plan : Plan)
    (action : PlannedAction) : Execution :=
  let path := plan.file.path
  match action.parameters with
  | .muxSubtitle subtitlePath language forced title =>
    if !isValidLanguage language then
      { result := .error (toolError "mkvmerge" ("invalid ISO 639 language code: \"" ++ language ++ "\"")) }
    else
      let tmp := tempPathWithExt path run.tempId "mkv"
      let command := shellQuoteArgs "mkvmerge" (muxArgs path tmp subtitlePath language forced title)
      match run.outcome with
      | .error e =>
        { result := .error (toolError "mkvmerge" ("mkvmerge subtitle mux failed: " ++ e.toText)) }
      | .ok output =>
        let detail := detailOf command output
        if muxSucceeded output then
          match recordMutationForPendingWrite storage plan.scanSession path with
          | .error e => { result := .error e }
          | .ok _ =>
            match run.rename with
            | .error e =>
              { result := .error (toolError "mkvmerge" ("failed to rename temp file: " ++ e)) }
            | .ok _ =>
              { result := .ok [(ActionResult.succeeded action.operation
                  action.description).withExecutionDetail detail]
                deeds := [.muxed action] }
        else
          let tail := if detail.stderrTail = "" then "(no output)" else detail.stderrTail
          let code := output.code.getD (-1)
          let error := s!"mkvmerge failed (exit {code}):\n{tail}\ncmd: {command}"
          { result := .ok [(ActionResult.failure action.operation action.description
              error).withExecutionDetail detail] }
  | _ => { result := .error (toolError "mkvmerge" "expected MuxSubtitle params") }

/-- Run one part after the other; an error ends the execution. -/
def Execution.andThen (first second : Execution) : Execution :=
  match first.result with
  | .error e => { result := .error e, deeds := first.deeds }
  | .ok results => { result := second.result.map (results ++ ·), deeds := first.deeds ++ second.deeds }

/-- The muxes of a plan, in order. -/
def executeMuxes (env : Env) (plan : Plan) : List PlannedAction → Nat → Execution
  | [], _ => { result := .ok [] }
  | action :: rest, i =>
    (executeMuxSubtitle env.storage (env.mux i) plan action).andThen
      (executeMuxes env plan rest (i + 1))

def executePlan (env : Env) (plan : Plan) : Execution :=
  let path := plan.file.path
  if !env.fileExists then
    { result := .error (toolError "mkvtoolnix" ("file not found: " ++ path.display)) }
  else if plan.actions.any (·.operation = .muxSubtitle) then
    executeMuxes env plan (plan.actions.filter (·.operation = .muxSubtitle)) 0
  else
    let (propeditActions, mergeActions) := classifyActions plan.actions
    if plan.file.container = .mkv ∨ mergeActions = [] then
      (executePropeditActions env path propeditActions).andThen
        (executeMergeActions env path plan.scanSession mergeActions)
    else
      -- another container: the MKV file is made first and edited under its own path
      (executeMergeActions env path plan.scanSession mergeActions).andThen
        (executePropeditActions env (path.withExtension "mkv") propeditActions)

/-! ## Events -/

def pluginName : String := "mkvtoolnix-executor"

/-- `handle_plan_created`: none for a plan that is not for this executor. -/
def handlePlanCreated (available : Bool) (env : Env) (plan : Plan) :
    Option EventResult × List Deed :=
  if plan.isEmpty || plan.isSkipped || !canHandle available plan then (none, [])
  else
    let execution := executePlan env plan
    (some (EventResult.fromPlanExecution pluginName execution.result), execution.deeds)

/-- The plan that muxes a generated subtitle. -/
def muxPlan (container : Container) (evt : SubtitleGeneratedEvent) (fileId planId : Uuid) : Plan :=
  { id := planId
    file := { id := fileId, path := evt.path, container }
    policyName := "subtitle-mux"
    phaseName := "subtitle_mux"
    actions :=
      [ { operation := .muxSubtitle
          trackIndex := none
          parameters := .muxSubtitle evt.subtitlePath evt.language evt.forced evt.title
          description := "Mux subtitle into container"
          checked := Eq.refl true } ]
    scanSession := evt.scanSession }

/-- The container of a path by its extension. -/
def containerOf (path : Path) : Container := Container.fromExtension (path.extension.getD "")

/-- What the two executors answer to a generated subtitle: the start of a plan and the plan. -/
def startMux (name : String) (container : Container) (evt : SubtitleGeneratedEvent)
    (fileId planId : Uuid) : EventResult :=
  { pluginName := name
    claimed := true
    producedEvents :=
      [ .planExecuting ⟨planId, evt.path, "subtitle_mux", 1⟩,
        .planCreated (muxPlan container evt fileId planId) ] }

/-- The language and the title of a subtitle are checked before anything is started. -/
def checkSubtitle (error : String → VoomError) (evt : SubtitleGeneratedEvent) :
    Except VoomError Unit := do
  match validateMetadataValue evt.language with
  | .error e => throw (error ("invalid language: " ++ e.toText))
  | .ok _ => pure ()
  match evt.title with
  | none => pure ()
  | some title =>
    match validateMetadataValue title with
    | .error e => throw (error ("invalid title: " ++ e.toText))
    | .ok _ => pure ()

def handleSubtitleGenerated (available : Bool) (evt : SubtitleGeneratedEvent)
    (fileId planId : Uuid) : Except VoomError (Option EventResult) :=
  if !available || containerOf evt.path ≠ .mkv then .ok none
  else do
    checkSubtitle (toolError "mkvmerge") evt
    return some (startMux pluginName .mkv evt fileId planId)

end Voom.Executors.Mkvtoolnix
