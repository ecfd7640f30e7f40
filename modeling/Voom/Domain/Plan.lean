-- SUMMARY: Plans: the actions the policy evaluator asks for and the results executors report.
import Voom.Domain.Media

namespace Voom

/-- The kind of operation a planned action performs. -/
inductive OperationType where
  | setDefault | clearDefault | setForced | clearForced
  | setTitle | setLanguage
  | removeTrack | reorderTracks | convertContainer
  | transcodeVideo | transcodeAudio | synthesizeAudio
  | setContainerTag | clearContainerTags | deleteContainerTag
  | muxSubtitle
  | verifyMedia | quarantine
  deriving DecidableEq, Repr, Inhabited

namespace OperationType

/-- Metadata-only edits: no transcode and no remux. -/
def metadataOps : List OperationType :=
  [.setDefault, .clearDefault, .setForced, .clearForced, .setTitle, .setLanguage,
   .setContainerTag, .clearContainerTags, .deleteContainerTag]

def isMetadataOp (op : OperationType) : Bool :=
  metadataOps.contains op

end OperationType

/-- Black-bar detection settings of a transcode. -/
structure CropSettings where
  sampleDurationSecs : Option Nat := none
  sampleCount : Option Nat := none
  threshold : Option Nat := none
  minimumCrop : Option Nat := none
  preserveBottomPixels : Option Nat := none
  aspectLock : List String := []
  deriving DecidableEq, Repr, Inhabited

/-- The channels of an audio encode: a named layout or a count. -/
inductive TranscodeChannels where
  | named (name : String)
  | count (n : Nat)
  deriving DecidableEq, Repr, Inhabited

namespace TranscodeChannels

/-- The channel count; none for `preserve` and for names that are not known. -/
def toCount : TranscodeChannels → Option Nat
  | .count n => some n
  | .named "mono" => some 1
  | .named "stereo" => some 2
  | .named "5.1" | .named "surround" => some 6
  | .named "7.1" => some 8
  | .named _ => none

end TranscodeChannels

inductive SampleStrategy where
  | scenes (count : Nat) (duration : String)
  | uniform (count : Nat) (duration : String)
  | full
  deriving DecidableEq, Repr, Inhabited

structure TranscodeFallback where
  crf : Nat
  preset : String
  deriving DecidableEq, Repr, Inhabited

/-! ## Loudness -/

inductive LoudnessPreset where
  | ebuR128 | ebuR128Broadcast | streamingMovies | streamingMusic | mobile | voiceFocused
  deriving DecidableEq, Repr, Inhabited

/-- Loudness targets of an encode. -/
structure LoudnessNormalization where
  preset : LoudnessPreset
  targetLufs : F64
  truePeakDb : F64
  lraMax : Option F64
  toleranceLufs : F64 := .finite (1 / 2)
  deriving DecidableEq, Repr, Inhabited

namespace LoudnessPreset

def parse : String → Option LoudnessPreset
  | "ebu_r128" => some .ebuR128
  | "ebu_r128_broadcast" => some .ebuR128Broadcast
  | "streaming_movies" => some .streamingMovies
  | "streaming_music" => some .streamingMusic
  | "mobile" => some .mobile
  | "voice_focused" => some .voiceFocused
  | _ => none

def defaults (preset : LoudnessPreset) : LoudnessNormalization :=
  match preset with
  | .ebuR128 | .ebuR128Broadcast =>
    { preset, targetLufs := .finite (-23), truePeakDb := .finite (-1), lraMax := some (.finite 18) }
  | .streamingMovies =>
    { preset, targetLufs := .finite (-24), truePeakDb := .finite (-2), lraMax := none }
  | .streamingMusic =>
    { preset, targetLufs := .finite (-14), truePeakDb := .finite (-1), lraMax := none }
  | .mobile =>
    { preset, targetLufs := .finite (-16), truePeakDb := .finite (-3 / 2), lraMax := none }
  | .voiceFocused =>
    { preset, targetLufs := .finite (-19), truePeakDb := .finite (-1), lraMax := some (.finite 7) }

end LoudnessPreset

structure TranscodeSettings where
  crf : Option Nat := none
  preset : Option String := none
  bitrate : Option String := none
  targetVmaf : Option Nat := none
  maxBitrate : Option String := none
  minBitrate : Option String := none
  sampleStrategy : Option SampleStrategy := none
  fallback : Option TranscodeFallback := none
  vmafOverrides : Option (List (String × Nat)) := none
  channels : Option TranscodeChannels := none
  hw : Option String := none
  hwFallback : Option Bool := none
  maxResolution : Option String := none
  scaleAlgorithm : Option String := none
  hdrMode : Option String := none
  preserveHdr : Option Bool := none
  tonemap : Option String := none
  hdrColorMetadata : Option String := none
  dolbyVision : Option String := none
  tune : Option String := none
  crop : Option CropSettings := none
  loudness : Option LoudnessNormalization := none
  deriving DecidableEq, Repr, Inhabited

/-- An audio track to be made. -/
structure SynthesizeParams where
  name : String
  language : Option String := none
  codec : Option String := none
  text : Option String := none
  bitrate : Option String := none
  channels : Option Nat := none
  title : Option String := none
  position : Option String := none
  sourceTrack : Option Nat := none
  loudness : Option LoudnessNormalization := none
  deriving DecidableEq, Repr, Inhabited

inductive VerificationMode where
  | quick | thorough | hash
  deriving DecidableEq, Repr, Inhabited

namespace VerificationMode

def asStr : VerificationMode → String
  | .quick => "quick"
  | .thorough => "thorough"
  | .hash => "hash"

end VerificationMode

inductive ActionParams where
  | empty
  | container (container : Container)
  | removeTrack (reason : String) (trackType : TrackType)
  | reorderTracks (order : List String)
  | language (language : String)
  | title (title : String)
  | transcode (codec : String) (settings : TranscodeSettings)
  | synthesize (params : SynthesizeParams)
  | setTag (tag value : String)
  | clearTags (tags : List String)
  | deleteTag (tag : String)
  | muxSubtitle (subtitlePath : Path) (language : String) (forced : Bool) (title : Option String)
  | verifyMedia (mode : VerificationMode)
  | quarantine (reason : String)
  deriving DecidableEq, Repr, Inhabited

/-- `validate_action_params`: the parameters fit the operation. -/
def validateActionParams : OperationType → ActionParams → Bool
  | .setDefault, .empty | .clearDefault, .empty | .setForced, .empty | .clearForced, .empty => true
  | .convertContainer, .container _ => true
  | .removeTrack, .removeTrack _ _ => true
  | .reorderTracks, .reorderTracks _ => true
  | .setLanguage, .language _ => true
  | .setTitle, .title _ => true
  | .transcodeVideo, .transcode _ _ | .transcodeAudio, .transcode _ _ => true
  | .synthesizeAudio, .synthesize _ => true
  | .setContainerTag, .setTag _ _ => true
  | .clearContainerTags, .clearTags _ => true
  | .deleteContainerTag, .deleteTag _ => true
  | .muxSubtitle, .muxSubtitle _ _ _ _ => true
  | .verifyMedia, .verifyMedia _ => true
  | .quarantine, .quarantine _ => true
  | _, _ => false

/-- A single action of a plan. The constructors of the program check the
parameters against the operation and panic on a mismatch, so a mismatched
action cannot be built. -/
structure PlannedAction where
  operation : OperationType
  trackIndex : Option Nat
  parameters : ActionParams
  description : String
  checked : validateActionParams operation parameters = true
  deriving DecidableEq, Repr

/-! ## Safeguards -/

/-- The categories of safeguard violations. -/
inductive SafeguardKind where
  | allTracksRemoved | noVideoTrack | noAudioTrack | outputLarger | diskSpaceLow
  | durationShrunk | containerIncompatible
  deriving DecidableEq, Repr, Inhabited

structure SafeguardViolation where
  kind : SafeguardKind
  message : String
  phaseName : String
  deriving DecidableEq, Repr, Inhabited

/-- A plan for one file in one phase. -/
structure Plan where
  id : Uuid
  file : MediaFile
  policyName : String
  phaseName : String
  actions : List PlannedAction := []
  warnings : List String := []
  safeguardViolations : List SafeguardViolation := []
  skipReason : Option String := none
  policyHash : Option String := none
  scanSession : Option Uuid := none
  deriving DecidableEq, Repr

namespace Plan

def isEmpty (plan : Plan) : Bool := plan.actions.isEmpty

def isSkipped (plan : Plan) : Bool := plan.skipReason.isSome

end Plan

/-- Captured subprocess output of an executor. -/
structure ExecutionDetail where
  command : String
  exitCode : Option Int
  stderrTail : String
  durationMs : Nat
  deriving DecidableEq, Repr, Inhabited

/-- The result of executing one action. -/
structure ActionResult where
  operation : OperationType
  success : Bool
  description : String
  error : Option String := none
  executionDetail : Option ExecutionDetail := none
  deriving DecidableEq, Repr, Inhabited

namespace ActionResult

def succeeded (operation : OperationType) (description : String) : ActionResult :=
  { operation, success := true, description }

def failure (operation : OperationType) (description error : String) : ActionResult :=
  { operation, success := false, description, error := some error }

def withExecutionDetail (r : ActionResult) (detail : ExecutionDetail) : ActionResult :=
  { r with executionDetail := some detail }

@[simp] theorem succeeded_success (op : OperationType) (d : String) :
    (succeeded op d).success = true := rfl

@[simp] theorem failure_success (op : OperationType) (d e : String) :
    (failure op d e).success = false := rfl

@[simp] theorem withExecutionDetail_success (r : ActionResult) (d : ExecutionDetail) :
    (r.withExecutionDetail d).success = r.success := rfl

end ActionResult

end Voom
