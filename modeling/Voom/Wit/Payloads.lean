-- SUMMARY: What events carry over the plugin boundary: media files and plans with all their fields.
import Voom.Domain.Plan

/-!
# Payloads

Events cross the plugin boundary with every field they have, so the files and plans below are the
complete ones. A duration may be any double here, a path need not be absolute or UTF-8, and the
parameters of a planned action need not fit its operation: a payload is not checked for that.
Fields stand in the order in which the program declares them.
-/

namespace Voom.Wit

/-- A path: its text, or its bytes when they are no UTF-8 text. -/
inductive PathBuf where
  | text (s : String)
  | bytes (raw : List UInt8)
  deriving DecidableEq, Repr, Inhabited

/-- A media file with full introspection metadata. -/
structure MediaFile where
  id : Uuid
  path : PathBuf
  size : Nat
  contentHash : Option Hash
  expectedHash : Option Hash
  status : FileStatus
  container : Container
  duration : F64
  bitrate : Option Nat
  cropDetection : Option CropDetection
  tracks : List Track
  tags : List (String × String)
  pluginMetadata : List (String × Json)
  introspectedAt : Time
  deriving DecidableEq, Repr

/-! ## Actions -/

/-- What the first pass of `loudnorm` measured. -/
structure LoudnessMeasurement where
  inputI : F64
  inputTp : F64
  inputLra : F64
  inputThresh : F64
  targetOffset : F64
  deriving DecidableEq, Repr, Inhabited

structure LoudnessNormalization where
  preset : LoudnessPreset
  targetLufs : F64
  truePeakDb : F64
  lraMax : Option F64
  toleranceLufs : F64
  measured : Option LoudnessMeasurement
  deriving DecidableEq, Repr, Inhabited

def defaultLoudnessTolerance : F64 := .finite (1 / 2)

structure TranscodeSettings where
  crf : Option Nat := none
  preset : Option String := none
  bitrate : Option String := none
  targetVmaf : Option Nat := none
  maxBitrate : Option String := none
  minBitrate : Option String := none
  sampleStrategy : Option SampleStrategy := none
  fallback : Option TranscodeFallback := none
  vmafOverrides : Option (List (String × Nat)) := none
  channels : Option TranscodeChannels := none
  hw : Option String := none
  hwFallback : Option Bool := none
  maxResolution : Option String := none
  scaleAlgorithm : Option String := none
  hdrMode : Option String := none
  preserveHdr : Option Bool := none
  tonemap : Option String := none
  hdrColorMetadata : Option String := none
  dolbyVision : Option String := none
  tune : Option String := none
  crop : Option CropSettings := none
  loudness : Option LoudnessNormalization := none
  deriving DecidableEq, Repr, Inhabited

structure SynthesizeParams where
  name : String
  language : Option String
  codec : Option String
  text : Option String
  bitrate : Option String
  channels : Option Nat
  title : Option String
  position : Option String
  sourceTrack : Option Nat
  loudness : Option LoudnessNormalization
  deriving DecidableEq, Repr, Inhabited

inductive ActionParams where
  | empty
  | container (container : Container)
  | removeTrack (reason : String) (trackType : TrackType)
  | reorderTracks (order : List String)
  | language (language : String)
  | title (title : String)
  | transcode (codec : String) (settings : TranscodeSettings)
  | synthesize (params : SynthesizeParams)
  | setTag (tag value : String)
  | clearTags (tags : List String)
  | deleteTag (tag : String)
  | muxSubtitle (subtitlePath : PathBuf) (language : String) (forced : Bool)
      (title : Option String)
  | verifyMedia (mode : VerificationMode)
  | quarantine (reason : String)
  deriving DecidableEq, Repr, Inhabited

/-- What action parameters are decoded through. A transcode of an old payload has its settings as
flat fields beside the codec; `legacy` holds them as the settings they are lifted to. -/
inductive ActionParamsCompat where
  | empty
  | container (container : Container)
  | removeTrack (reason : String) (trackType : TrackType)
  | reorderTracks (order : List String)
  | language (language : String)
  | title (title : String)
  | transcode (codec : String) (settings legacy : TranscodeSettings)
  | synthesize (params : SynthesizeParams)
  | setTag (tag value : String)
  | clearTags (tags : List String)
  | deleteTag (tag : String)
  | muxSubtitle (subtitlePath : PathBuf) (language : String) (forced : Bool)
      (title : Option String)
  | verifyMedia (mode : VerificationMode)
  | quarantine (reason : String)
  deriving DecidableEq, Repr, Inhabited

/-- `From<ActionParamsCompat>`: nested settings that say anything are used, and the flat fields
otherwise. -/
def fromCompat : ActionParamsCompat → ActionParams
  | .empty => .empty
  | .container container => .container container
  | .removeTrack reason trackType => .removeTrack reason trackType
  | .reorderTracks order => .reorderTracks order
  | .language language => .language language
  | .title title => .title title
  | .transcode codec settings legacy =>
    .transcode codec (if settings = {} then legacy else settings)
  | .synthesize params => .synthesize params
  | .setTag tag value => .setTag tag value
  | .clearTags tags => .clearTags tags
  | .deleteTag tag => .deleteTag tag
  | .muxSubtitle subtitlePath language forced title =>
    .muxSubtitle subtitlePath language forced title
  | .verifyMedia mode => .verifyMedia mode
  | .quarantine reason => .quarantine reason

structure PlannedAction where
  operation : OperationType
  trackIndex : Option Nat
  parameters : ActionParams
  description : String
  deriving DecidableEq, Repr, Inhabited

/-- The plan for a single file in a single phase. -/
structure Plan where
  id : Uuid
  file : MediaFile
  policyName : String
  phaseName : String
  actions : List PlannedAction
  warnings : List String
  safeguardViolations : List SafeguardViolation
  skipReason : Option String
  policyHash : Option String
  evaluatedAt : Time
  executorHint : Option String
  sessionId : Option Uuid
  scanSession : Option Uuid
  deriving DecidableEq, Repr

end Voom.Wit
