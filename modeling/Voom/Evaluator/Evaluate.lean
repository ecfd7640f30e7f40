-- SUMMARY: The policy evaluator: what each operation of a phase adds to the plan, and the safeguards.
import Voom.Domain.Events
import Voom.Evaluator.Condition

/-!
# Policy evaluation

An operation is a function from the plan made so far to the plan after it, with the error it
ended in, if any: an error leaves what was emitted before it in the plan.
-/

namespace Voom

namespace PlannedAction

/-- An action on the whole file. -/
def fileOp (operation : OperationType) (parameters : ActionParams) (description : String)
    (checked : validateActionParams operation parameters = true := by exact Eq.refl true) :
    PlannedAction :=
  { operation, trackIndex := none, parameters, description, checked }

/-- An action on one track. -/
def trackOp (operation : OperationType) (index : Nat) (parameters : ActionParams)
    (description : String)
    (checked : validateActionParams operation parameters = true := by exact Eq.refl true) :
    PlannedAction :=
  { operation, trackIndex := some index, parameters, description, checked }

end PlannedAction

namespace Plan

def extend (plan : Plan) (actions : List PlannedAction) : Plan :=
  { plan with actions := plan.actions ++ actions }

def warn (plan : Plan) (message : String) : Plan :=
  { plan with warnings := plan.warnings ++ [message] }

def retain (plan : Plan) (keep : PlannedAction → Bool) : Plan :=
  { plan with actions := plan.actions.filter keep }

end Plan

end Voom

namespace Voom.Evaluator

open Dsl

/-! ## Containers and codecs -/

def mp4Supports (codec : String) : Bool :=
  ["h264", "avc1", "hevc", "h265", "hev1", "hvc1", "av1", "mpeg4", "mpeg2video", "vp9",
   "aac", "mp3", "ac3", "eac3", "opus", "alac", "flac",
   "mov_text", "tx3g"].contains codec

def webmSupports (codec : String) : Bool :=
  ["vp8", "vp9", "av1", "opus", "vorbis", "webvtt"].contains codec

def aviSupports (codec : String) : Bool :=
  ["mpeg4", "mpeg2video", "mpeg1video", "mjpeg", "h264", "avc1",
   "mp3", "ac3", "aac", "pcm_s16le", "pcm_s24le", "pcm_u8"].contains codec

/-- Whether a container can hold a codec; no answer for containers that are not modelled and
for an unknown codec. -/
def codecSupported (container : Container) (codec : String) : Option Bool :=
  let codec := toAsciiLowercase (trim codec)
  if codec = "" then none
  else
    match container with
    | .mkv => some true
    | .mp4 => some (mp4Supports codec)
    | .webm => some (webmSupports codec)
    | .avi => some (aviSupports codec)
    | .mov | .ts | .flv | .wmv | .other => none

/-! ## Safeguard records -/

def recordSafeguard (kind : SafeguardKind) (message : String) (plan : Plan) : Plan :=
  { plan.warn message with
    safeguardViolations :=
      plan.safeguardViolations ++ [{ kind, message, phaseName := plan.phaseName }] }

def targetStr : TrackTarget → String
  | .video => "video"
  | .audio => "audio"
  | .subtitle => "subtitle"
  | .attachment => "attachment"
  | .any => "track"

/-! ## Single operations -/

section

variable (env : EvalEnv) (file : MediaFile) (ctx : EvalContext)

def emitSetContainer (target : Container) (plan : Plan) : Plan :=
  if file.container ≠ target then
    plan.extend [.fileOp .convertContainer (.container target)
      s!"Convert container from {file.container.asStr} to {target.asStr}"]
  else plan

def emitVerify (mode : VerificationMode) (plan : Plan) : Plan :=
  plan.extend [.fileOp .verifyMedia (.verifyMedia mode)
    s!"Verify media integrity ({mode.asStr})"]

/-- `emit_remove_track`, the action alone. -/
def removeTrackAction (target : TrackTarget) (reason : String) (track : Track) : PlannedAction :=
  .trackOp .removeTrack track.index (.removeTrack reason track.trackType)
    s!"Remove {targetStr target} track {track.index} ({track.codec}, {track.language})"

/-- A request to remove tracks of a target. A guarded one may not remove all of them. -/
structure RemovalRequest where
  target : TrackTarget
  shouldRemove : Track → Bool
  reason : String
  guarded : Bool
  why : String

/-- The removals a request asks for. -/
def RemovalRequest.removals (r : RemovalRequest) : List PlannedAction :=
  ((tracksForTarget file r.target).filter r.shouldRemove).map (removeTrackAction r.target r.reason)

/-- The loop of `emit_keep` and `emit_remove`: the removals are pushed, and taken back when no
track was kept and the request is guarded. -/
def emitRemovals (r : RemovalRequest) (plan : Plan) : Plan :=
  let tracks := tracksForTarget file r.target
  if tracks.isEmpty then plan
  else
    let kept := tracks.countP (fun t => !r.shouldRemove t)
    let pushed := plan.extend (r.removals file)
    if kept = 0 ∧ r.guarded then
      recordSafeguard .allTracksRemoved
        s!"Safeguard: kept all {targetStr r.target} tracks in {file.fileName} — {r.why}"
        { pushed with actions := pushed.actions.take plan.actions.length }
    else pushed

/-- A keep removes what does not match its filter; without a filter it keeps all. -/
def keepRequest (target : TrackTarget) (filter : Option CompiledFilter) : RemovalRequest :=
  { target
    shouldRemove := fun track =>
      match filter with
      | some f => !trackMatches env file ctx track f
      | none => false
    reason := "does not match keep filter"
    guarded := true
    why := "no tracks matched the keep filter, would have removed all" }

def emitKeep (target : TrackTarget) (filter : Option CompiledFilter) : Plan → Plan :=
  emitRemovals file (keepRequest env file ctx target filter)

/-- `filter_matches_ctx`: without a filter every track matches. -/
def filterMatches (filter : Option CompiledFilter) (track : Track) : Bool :=
  match filter with
  | some f => trackMatches env file ctx track f
  | none => true

/-- `is_critical`: the targets a remove may not empty. -/
def isCritical : TrackTarget → Bool
  | .video | .audio => true
  | _ => false

def removeRequest (target : TrackTarget) (filter : Option CompiledFilter) : RemovalRequest :=
  { target
    shouldRemove := filterMatches env file ctx filter
    reason := "matches remove filter"
    guarded := isCritical target
    why := "remove operation would have removed all" }

def emitRemove (target : TrackTarget) (filter : Option CompiledFilter) : Plan → Plan :=
  emitRemovals file (removeRequest env file ctx target filter)

/-- `LoudnessNormalization::is_within_target`. -/
def isWithinTarget (settings : LoudnessNormalization) (lufs : F64) : Bool :=
  F64.le (env.sub lufs settings.targetLufs).abs settings.toleranceLufs

/-- The tracks a normalisation changes: those that match and are not within the target yet. -/
def normalizeTracks (filter : Option CompiledFilter) (settings : LoudnessNormalization) :
    List Track :=
  (tracksForTarget file .audio).filter fun track =>
    filterMatches env file ctx filter track &&
      !track.loudnessIntegratedLufs.any (isWithinTarget env settings)

/-- Normalisation re-encodes a track in its own codec. -/
def emitNormalizeAudio (target : TrackTarget) (filter : Option CompiledFilter)
    (settings : LoudnessNormalization) (plan : Plan) : Plan :=
  if target ≠ .audio then plan
  else
    plan.extend ((normalizeTracks env file ctx filter settings).map fun track =>
      .trackOp .transcodeAudio track.index
        (.transcode track.codec { loudness := some settings })
        s!"Normalize audio track {track.index} to {env.formatTenths settings.targetLufs} LUFS")

def emitReorder (order : List String) (plan : Plan) : Plan :=
  plan.extend [.fileOp .reorderTracks (.reorderTracks order)
    ("Reorder tracks: " ++ ", ".intercalate order)]

def setDefaultAction (target : TrackTarget) (track : Track) (detail : String) : PlannedAction :=
  .trackOp .setDefault track.index .empty
    s!"Set default on {targetStr target} track {track.index}{detail}"

def clearDefaultAction (target : TrackTarget) (track : Track) (detail : String) : PlannedAction :=
  .trackOp .clearDefault track.index .empty
    s!"Clear default flag on {targetStr target} track {track.index}{detail}"

def clearForcedAction (target : TrackTarget) (track : Track) : PlannedAction :=
  .trackOp .clearForced track.index .empty
    s!"Clear forced flag on {targetStr target} track {track.index}"

/-- Clearing a title is setting it to the empty text. -/
def clearTitleAction (target : TrackTarget) (track : Track) : PlannedAction :=
  .trackOp .setTitle track.index (.title "")
    s!"Clear title on {targetStr target} track {track.index}"

@[simp] theorem setDefaultAction_operation (target : TrackTarget) (track : Track)
    (detail : String) : (setDefaultAction target track detail).operation = .setDefault := rfl

@[simp] theorem clearDefaultAction_operation (target : TrackTarget) (track : Track)
    (detail : String) : (clearDefaultAction target track detail).operation = .clearDefault := rfl

@[simp] theorem clearForcedAction_operation (target : TrackTarget) (track : Track) :
    (clearForcedAction target track).operation = .clearForced := rfl

@[simp] theorem clearTitleAction_operation (target : TrackTarget) (track : Track) :
    (clearTitleAction target track).operation = .setTitle := rfl

def defaultsNone (target : TrackTarget) (tracks : List Track) : List PlannedAction :=
  (tracks.filter (·.isDefault)).map (clearDefaultAction target · "")

def defaultsFirst (target : TrackTarget) : List Track → List PlannedAction
  | [] => []
  | first :: rest =>
    (if first.isDefault then [] else [setDefaultAction target first ""]) ++
      (rest.filter (·.isDefault)).map (clearDefaultAction target · "")

def defaultsFirstPerLanguage (target : TrackTarget) :
    List Track → List String → List PlannedAction
  | [], _ => []
  | track :: rest, seen =>
    let isFirst := !seen.contains track.language
    (if isFirst && !track.isDefault then
      [setDefaultAction target track s!" (first for lang '{track.language}')"]
    else if !isFirst && track.isDefault then
      [clearDefaultAction target track s!" (not first for lang '{track.language}')"]
    else []) ++ defaultsFirstPerLanguage target rest (track.language :: seen)

def defaultsAll (target : TrackTarget) (tracks : List Track) : List PlannedAction :=
  (tracks.filter (fun t => !t.isDefault)).map (setDefaultAction target · "")

/-- What one entry of a defaults block asks for. -/
def defaultActions (default : CompiledDefault) : List PlannedAction :=
  let tracks := tracksForTarget file default.target
  match default.strategy with
  | .none => defaultsNone default.target tracks
  | .first => defaultsFirst default.target tracks
  | .firstPerLanguage => defaultsFirstPerLanguage default.target tracks []
  | .all => defaultsAll default.target tracks

def emitSetDefaults (defaults : List CompiledDefault) (plan : Plan) : Plan :=
  plan.extend (defaults.flatMap (defaultActions file))

def emitClearActions (target : TrackTarget) (settings : ClearActionsSettings) (plan : Plan) :
    Plan :=
  plan.extend ((tracksForTarget file target).flatMap fun track =>
    (if settings.clearAllDefault && track.isDefault then [clearDefaultAction target track ""]
      else []) ++
    (if settings.clearAllForced && track.isForced then [clearForcedAction target track]
      else []) ++
    (if settings.clearAllTitles && track.title ≠ "" then [clearTitleAction target track]
      else []))

def transcodeSettingsFrom (s : CompiledTranscodeSettings) : TranscodeSettings :=
  { crf := s.crf, preset := s.preset, bitrate := s.bitrate, targetVmaf := s.targetVmaf,
    maxBitrate := s.maxBitrate, minBitrate := s.minBitrate, sampleStrategy := s.sampleStrategy,
    fallback := s.fallback, vmafOverrides := s.vmafOverrides, channels := s.channels, hw := s.hw,
    hwFallback := s.hwFallback, maxResolution := s.maxResolution,
    scaleAlgorithm := s.scaleAlgorithm, hdrMode := s.hdrMode, preserveHdr := s.preserveHdr,
    tonemap := s.tonemap, hdrColorMetadata := s.hdrColorMetadata, dolbyVision := s.dolbyVision,
    tune := s.tune, crop := s.crop, loudness := s.loudness }

/-- The hardware backend the settings insist on and the system does not have. -/
def missingHw (settings : CompiledTranscodeSettings) : Option String :=
  settings.hw.filter fun hw =>
    hw ≠ "auto" && hw ≠ "none" && !ctx.capabilities.any (·.hasHwaccel hw) &&
      settings.hwFallback = some false

/-- The tracks a transcode of the target changes: those in another codec, unless preserved. -/
def transcodeTracks (target : TrackTarget) (codec : String)
    (settings : CompiledTranscodeSettings) : List Track :=
  (tracksForTarget file target).filter fun track =>
    track.codec ≠ codec && !settings.preserve.contains track.codec

def transcodeActions (operation : OperationType) (target : TrackTarget) (codec : String)
    (settings : CompiledTranscodeSettings)
    (checked : ∀ s, validateActionParams operation (.transcode codec s) = true) :
    List PlannedAction :=
  (transcodeTracks file target codec settings).map fun track =>
    .trackOp operation track.index (.transcode codec (transcodeSettingsFrom settings))
      s!"Transcode {targetStr target} track {track.index} from {track.codec} to {codec}"
      (checked _)

/-- A transcode that needs a missing backend skips the phase and drops what it has so far. -/
def emitTranscode (target : TrackTarget) (codec : String)
    (settings : CompiledTranscodeSettings) (plan : Plan) : Plan :=
  match target with
  | .subtitle | .attachment | .any => plan
  | .video | .audio =>
    match missingHw ctx settings with
    | some hw =>
      { plan with
        skipReason := some s!"hw backend '{hw}' unavailable and hw_fallback is false"
        actions := [] }
    | none =>
      match target with
      | .video =>
        plan.extend (transcodeActions file .transcodeVideo target codec settings
          fun _ => Eq.refl true)
      | _ =>
        plan.extend (transcodeActions file .transcodeAudio target codec settings
          fun _ => Eq.refl true)

/-- The audio track a synthesis starts from. -/
def sourceIndex (synth : CompiledSynthesize) : Option Nat :=
  match synth.source with
  | some f => (file.audioTracks.find? (trackMatches env file ctx · f)).map (·.index)
  | none => file.audioTracks.head?.map (·.index)

def synthesizeParams (synth : CompiledSynthesize) : SynthesizeParams :=
  { name := synth.name
    language := match synth.language with
      | some .inherit =>
        (sourceIndex env file ctx synth).bind fun idx =>
          (file.tracks.find? (·.index = idx)).map (·.language)
      | some (.fixed language) => some language
      | none => none
    codec := synth.codec
    bitrate := synth.bitrate
    channels := synth.channels.map (fun c => c.toCount.getD 2)
    title := synth.title
    position := synth.position.map fun
      | .index n => toString n
      | .named name => name
    sourceTrack := sourceIndex env file ctx synth
    loudness := synth.loudness }

/-- `create_if` holds and no track matches `skip_if_exists`. -/
def wantsSynthesis (synth : CompiledSynthesize) : Bool :=
  synth.createIf.all (evaluateCondition env file ctx) &&
    synth.skipIfExists.all fun f => !file.audioTracks.any (trackMatches env file ctx · f)

def synthesizeAction (synth : CompiledSynthesize) : PlannedAction :=
  { operation := .synthesizeAudio
    trackIndex := sourceIndex env file ctx synth
    parameters := .synthesize (synthesizeParams env file ctx synth)
    description := s!"Synthesize audio: {synth.name}"
    checked := Eq.refl true }

def emitSynthesize (synth : CompiledSynthesize) (plan : Plan) : Plan :=
  if wantsSynthesis env file ctx synth then plan.extend [synthesizeAction env file ctx synth]
  else plan

def emitClearTags (plan : Plan) : Plan :=
  if file.tags.isEmpty then plan
  else
    let keys := (file.tags.map (·.1)).mergeSort (fun a b => decide (a ≤ b))
    plan.extend [.fileOp .clearContainerTags (.clearTags keys)
      ("Clear all container tags (" ++ ", ".intercalate keys ++ ")")]

def emitSetTag (tag : String) (value : CompiledValueOrField) (plan : Plan) :
    Plan × Option VoomError :=
  match resolveValueOrField env file ctx value with
  | none => (plan, some (.validation s!"Cannot resolve tag value for '{tag}'"))
  | some val =>
    (plan.extend [.fileOp .setContainerTag (.setTag tag val)
      s!"Set container tag '{tag}' = '{val}'"], none)

def emitDeleteTag (tag : String) (plan : Plan) : Plan :=
  if (file.tags.lookup tag).isSome then
    plan.extend [.fileOp .deleteContainerTag (.deleteTag tag)
      s!"Delete container tag '{tag}'"]
  else plan

/-! ## Actions of conditionals and rules -/

/-- Expand the placeholders of a message. -/
def expandTemplate (template : String) : String :=
  (template.replace "\x7bfilename\x7d" file.fileName).replace "\x7bpath\x7d" file.path.display

/-- The flags a conditional may set. -/
inductive FlagKind where
  | default | forced
  deriving DecidableEq, Repr

def FlagKind.isSet : FlagKind → Track → Bool
  | .default, track => track.isDefault
  | .forced, track => track.isForced

def flagAction (target : TrackTarget) (kind : FlagKind) (track : Track) : PlannedAction :=
  match kind with
  | .default =>
    .trackOp .setDefault track.index .empty
      s!"Set default on {targetStr target} track {track.index}"
  | .forced =>
    .trackOp .setForced track.index .empty
      s!"Set forced on {targetStr target} track {track.index}"

def emitFlagAction (target : TrackTarget) (filter : Option CompiledFilter) (kind : FlagKind)
    (plan : Plan) : Plan :=
  let tracks := (tracksForTarget file target).filter fun track =>
    filterMatches env file ctx filter track && !kind.isSet track
  plan.extend (tracks.map (flagAction target kind))

def emitSetLanguage (target : TrackTarget) (filter : Option CompiledFilter)
    (value : CompiledValueOrField) (plan : Plan) : Plan × Option VoomError :=
  match resolveValueOrField env file ctx value with
  | none => (plan, some (.validation "Cannot resolve language value"))
  | some lang =>
    let tracks := (tracksForTarget file target).filter fun track =>
      filterMatches env file ctx filter track && track.language ≠ lang
    (plan.extend (tracks.map fun track =>
      .trackOp .setLanguage track.index (.language lang)
        s!"Set language on {targetStr target} track {track.index} to '{lang}'"), none)

def emitAction (action : CompiledAction) (plan : Plan) : Plan × Option VoomError :=
  match action with
  | .keep target filter => (emitKeep env file ctx target filter plan, none)
  | .remove target filter => (emitRemove env file ctx target filter plan, none)
  | .skip (some phase) =>
    ({ plan with skipReason := some s!"Skipped by action (phase: {phase})" }, none)
  | .skip none => ({ plan with skipReason := some "Skipped by action" }, none)
  | .warn message => (plan.warn (expandTemplate file message), none)
  | .fail message => (plan, some (.validation (expandTemplate file message)))
  | .setDefault target filter => (emitFlagAction env file ctx target filter .default plan, none)
  | .setForced target filter => (emitFlagAction env file ctx target filter .forced plan, none)
  | .setLanguage target filter value => emitSetLanguage env file ctx target filter value plan
  | .setTag tag value => emitSetTag env file ctx tag value plan

/-- One action after the other, up to the first that fails. -/
def emitActions : List CompiledAction → Plan → Plan × Option VoomError
  | [], plan => (plan, none)
  | action :: rest, plan =>
    match emitAction env file ctx action plan with
    | (plan', none) => emitActions rest plan'
    | (plan', some error) => (plan', some error)

/-- The branch of a conditional that its condition selects. -/
def branch (cond : CompiledConditional) : List CompiledAction :=
  if evaluateCondition env file ctx cond.condition then cond.thenActions else cond.elseActions

def emitConditional (cond : CompiledConditional) : Plan → Plan × Option VoomError :=
  emitActions env file ctx (branch env file ctx cond)

/-- Rules in order; in mode `first` the first match is the last. -/
def emitRules (mode : RulesMode) : List CompiledRule → Plan → Plan × Option VoomError
  | [], plan => (plan, none)
  | rule :: rest, plan =>
    match emitActions env file ctx (branch env file ctx rule.conditional) plan with
    | (plan', some error) => (plan', some error)
    | (plan', none) =>
      if evaluateCondition env file ctx rule.conditional.condition ∧ mode = .first then
        (plan', none)
      else emitRules mode rest plan'

/-! ## Phases -/

def emitOperation (op : CompiledOperation) (plan : Plan) : Plan × Option VoomError :=
  match op with
  | .setContainer container => (emitSetContainer file container plan, none)
  | .keep target filter => (emitKeep env file ctx target filter plan, none)
  | .remove target filter => (emitRemove env file ctx target filter plan, none)
  | .reorderTracks order => (emitReorder order plan, none)
  | .setDefaults defaults => (emitSetDefaults file defaults plan, none)
  | .clearActions target settings => (emitClearActions file target settings plan, none)
  | .transcode target codec settings => (emitTranscode file ctx target codec settings plan, none)
  | .normalizeAudio target filter settings =>
    (emitNormalizeAudio env file ctx target filter settings
      (emitKeep env file ctx target filter plan), none)
  | .synthesize synth => (emitSynthesize env file ctx synth plan, none)
  | .clearTags => (emitClearTags file plan, none)
  | .setTag tag value => emitSetTag env file ctx tag value plan
  | .deleteTag tag => (emitDeleteTag file tag plan, none)
  | .conditional cond => emitConditional env file ctx cond plan
  | .rules mode rules => emitRules env file ctx mode rules plan
  | .verify mode => (emitVerify mode plan, none)

/-- The loop over the operations of a phase, with its error strategies. -/
def emitOperations (onError : ErrorStrategy) : List CompiledOperation → Plan → Plan
  | [], plan => plan
  | op :: rest, plan =>
    match emitOperation env file ctx op plan with
    | (plan', none) => emitOperations onError rest plan'
    | (plan', some error) =>
      match onError with
      | .abort | .quarantine => plan'.warn s!"Error (aborting): {error.toText}"
      | .continue =>
        emitOperations onError rest (plan'.warn s!"Error (continuing): {error.toText}")
      | .skip => { plan' with skipReason := some s!"Error (skipping phase): {error.toText}" }

end

/-! ## Safeguards -/

/-- The tracks the plan removes. -/
def removedIndices (plan : Plan) : List Nat :=
  (plan.actions.filter (·.operation = .removeTrack)).filterMap (·.trackIndex)

/-- An action that removes a track of the type. -/
def removesType (file : MediaFile) (typeCheck : TrackType → Bool) (a : PlannedAction) : Bool :=
  a.operation = .removeTrack &&
    a.trackIndex.any fun idx => file.tracks.any fun t => t.index = idx && typeCheck t.trackType

/-- Retract the removals of a track type when no track of it would survive. -/
def applySafeguardForTrackType (file : MediaFile) (removed : List Nat)
    (typeCheck : TrackType → Bool) (kind : SafeguardKind) (label : String) (plan : Plan) : Plan :=
  let total := file.tracks.countP fun t => typeCheck t.trackType
  let surviving := file.tracks.countP fun t => typeCheck t.trackType && !removed.contains t.index
  if total = 0 ∨ surviving > 0 then plan
  else
    recordSafeguard kind
      s!"Safeguard: would have removed all {label} tracks in {file.fileName}, keeping them instead"
      (plan.retain fun a => !removesType file typeCheck a)

/-- The container an action converts to. -/
def containerOf (a : PlannedAction) : Option Container :=
  match a.operation, a.parameters with
  | .convertContainer, .container container => some container
  | _, _ => none

/-- The container a plan converts to, by its first conversion. -/
def targetContainer (plan : Plan) : Option Container :=
  plan.actions.findSome? containerOf

/-- The track an action transcodes, with the codec it will have. -/
def transcodeOf (a : PlannedAction) : Option (Nat × String) :=
  match a.operation, a.trackIndex, a.parameters with
  | .transcodeVideo, some idx, .transcode codec _
  | .transcodeAudio, some idx, .transcode codec _ => some (idx, codec)
  | _, _, _ => none

/-- The entry of the `transcode_codec` map for a track: later transcodes overwrite earlier. -/
def transcodeCodec (plan : Plan) (index : Nat) : Option String :=
  plan.actions.foldl (fun found a =>
    match transcodeOf a with
    | some (idx, codec) => if idx = index then some codec else found
    | none => found) none

/-- The codec a track has after the plan. -/
def effectiveCodec (plan : Plan) (track : Track) : String :=
  (transcodeCodec plan track.index).getD track.codec

/-- A synthesised track with the codec it will have; none when the codec is left open. -/
def synthesizedCodec (a : PlannedAction) : Option (String × String) :=
  match a.operation, a.parameters with
  | .synthesizeAudio, .synthesize params => params.codec.map fun codec => (params.name, codec)
  | _, _ => none

/-- What the target container could not hold. -/
def offenders (file : MediaFile) (plan : Plan) (target : Container) : List String :=
  ((file.tracks.filter fun t => !(removedIndices plan).contains t.index).filter fun t =>
      codecSupported target (effectiveCodec plan t) = some false).map (fun t =>
    s!"track {t.index} ({effectiveCodec plan t})") ++
  ((plan.actions.filterMap synthesizedCodec).filter fun s =>
      codecSupported target s.2 = some false).map fun s => s!"synthesized {s.1} ({s.2})"

def containerMessage (file : MediaFile) (target : Container) (found : List String) : String :=
  let details := ", ".intercalate (found.take 4)
  let suffix := if found.length > 4 then s!" and {found.length - 4} more" else ""
  s!"Safeguard: container conversion from {file.container.asStr} to {target.asStr} " ++
    s!"would leave incompatible codecs in {file.fileName}: {details}{suffix}; " ++
    "keeping original container"

/-- Retract the planned conversion when its target cannot hold what is left. -/
def applyContainerSafeguard (file : MediaFile) (plan : Plan) : Plan :=
  match targetContainer plan with
  | none => plan
  | some target =>
    let found := offenders file plan target
    if found.isEmpty then plan
    else
      recordSafeguard .containerIncompatible (containerMessage file target found)
        (plan.retain (·.operation ≠ .convertContainer))

/-- The safeguards over a whole plan. The removed tracks are collected before either of the
two passes over track types. -/
def applySafeguards (file : MediaFile) (plan : Plan) : Plan :=
  if plan.isSkipped then plan
  else
    let removed := removedIndices plan
    let guarded :=
      if removed.isEmpty then plan
      else
        applySafeguardForTrackType file removed TrackType.isAudio .noAudioTrack "audio"
          (applySafeguardForTrackType file removed TrackType.isVideo .noVideoTrack "video" plan)
    applyContainerSafeguard file guarded

/-! ## Policies -/

inductive EvaluationOutcome where
  | executed (modified : Bool)
  | skipped
  | safeguardFailed
  | executionFailed
  deriving DecidableEq, Repr

def runIfSatisfied (trigger : RunIfTrigger) : Option EvaluationOutcome → Bool
  | some (.executed modified) =>
    match trigger with
    | .modified => modified
    | .completed => true
  | _ => false

def triggerStr : RunIfTrigger → String
  | .modified => "modified"
  | .completed => "completed"

/-- The reason to skip a phase, from its `skip_when`, `run_if` and `depends_on`. -/
def checkSkipConditions (env : EvalEnv) (file : MediaFile) (ctx : EvalContext)
    (phase : CompiledPhase) (outcomes : List (String × EvaluationOutcome)) : Option String :=
  if phase.skipWhen.any (evaluateCondition env file ctx) then some "skip_when condition met"
  else
    let unsatisfied := phase.runIf.filter fun runIf =>
      !runIfSatisfied runIf.trigger (outcomes.lookup runIf.phase)
    match unsatisfied with
    | some runIf => some s!"run_if {runIf.phase}.{triggerStr runIf.trigger} not satisfied"
    | none =>
      (phase.dependsOn.find? fun dep => (outcomes.lookup dep).isNone).map fun dep =>
        s!"dependency '{dep}' not yet executed"

/-- The empty plan a phase starts from. -/
def newPlan (file : MediaFile) (policy : CompiledPolicy) (id : Uuid) (phase : CompiledPhase) :
    Plan :=
  { id, file, policyName := policy.name, phaseName := phase.name
    policyHash := if policy.sourceHash = "" then none else some policy.sourceHash }

def evaluatePhase (env : EvalEnv) (file : MediaFile) (ctx : EvalContext)
    (policy : CompiledPolicy) (id : Uuid) (outcomes : List (String × EvaluationOutcome))
    (phase : CompiledPhase) : Plan :=
  let plan := newPlan file policy id phase
  match checkSkipConditions env file ctx phase outcomes with
  | some reason => { plan with skipReason := some reason }
  | none =>
    applySafeguards file (emitOperations env file ctx phase.onError phase.operations plan)

def planOutcome (plan : Plan) : EvaluationOutcome :=
  if plan.isSkipped then .skipped else .executed (!plan.isEmpty)

/-- The phases in order, each with the outcomes of those before it. -/
def evaluatePhases (env : EvalEnv) (file : MediaFile) (ctx : EvalContext)
    (policy : CompiledPolicy) (newId : Nat → Uuid) :
    List String → List (String × EvaluationOutcome) → List Plan
  | [], _ => []
  | name :: rest, outcomes =>
    match policy.phases.find? (·.name = name) with
    | none => evaluatePhases env file ctx policy newId rest outcomes
    | some phase =>
      let plan := evaluatePhase env file ctx policy (newId outcomes.length) outcomes phase
      plan :: evaluatePhases env file ctx policy newId rest ((name, planOutcome plan) :: outcomes)

/-- `evaluate_with_phase_outputs`. The identifiers of the plans are a parameter. -/
def evaluateWithPhaseOutputs (env : EvalEnv) (newId : Nat → Uuid) (policy : CompiledPolicy)
    (file : MediaFile) (capabilities : Option CapabilityMap)
    (phaseOutputLookup : Option (String → Option PhaseOutput)) : List Plan :=
  evaluatePhases env file { capabilities, phaseOutputLookup } policy newId policy.phaseOrder []

/-- Evaluate a policy on a file, with neither capabilities nor phase outputs. -/
def evaluate (env : EvalEnv) (newId : Nat → Uuid) (policy : CompiledPolicy)
    (file : MediaFile) : List Plan :=
  evaluateWithPhaseOutputs env newId policy file none none

end Voom.Evaluator
