-- SUMMARY: Media files, their tracks, containers and lifecycle status.
import Mathlib.Algebra.Order.Field.Rat
import Voom.Domain.Json
import Voom.Domain.Path

namespace Voom

/-- Identifiers are UUIDs in the program; only their distinctness matters. -/
abbrev Uuid := Nat

/-- A content hash, as the text the store keeps. -/
abbrev Hash := String

/-- File contents. -/
abbrev Content := List UInt8

/-- Wall-clock readings. Stored timestamps are RFC 3339 texts in UTC, whose
text order is the order of the instants. -/
abbrev Time := Nat

/-! ## Containers -/

inductive Container where
  | mkv | mp4 | avi | webm | flv | wmv | mov | ts | other
  deriving DecidableEq, Repr, Inhabited

namespace Container

/-- Parse a container from a file extension, ignoring ASCII case. -/
def fromExtension (ext : String) : Container :=
  match String.ofList (ext.toList.map Char.toLower) with
  | "mkv" | "mka" | "mks" => .mkv
  | "mp4" | "m4v" | "m4a" => .mp4
  | "avi" => .avi
  | "webm" => .webm
  | "flv" => .flv
  | "wmv" | "wma" => .wmv
  | "mov" => .mov
  | "ts" | "m2ts" | "mts" => .ts
  | _ => .other

/-- What `from_extension` knows, in the order of error messages. -/
def knownExtensions : List String :=
  ["mkv", "mka", "mks", "mp4", "m4v", "m4a", "avi", "webm", "flv", "wmv", "wma", "mov", "ts",
    "m2ts", "mts"]

def asStr : Container → String
  | .mkv => "mkv"
  | .mp4 => "mp4"
  | .avi => "avi"
  | .webm => "webm"
  | .flv => "flv"
  | .wmv => "wmv"
  | .mov => "mov"
  | .ts => "ts"
  | .other => "other"

/-- The muxer that FFmpeg has for the container. -/
def ffmpegFormatName : Container → Option String
  | .mkv => some "matroska"
  | .mp4 => some "mp4"
  | .avi => some "avi"
  | .webm => some "webm"
  | .flv => some "flv"
  | .wmv => some "asf"
  | .mov => some "mov"
  | .ts => some "mpegts"
  | .other => none

theorem asStr_length (c : Container) : c.asStr.toList.length ≤ 5 := by
  cases c <;> decide

end Container

/-! ## Tracks -/

inductive TrackType where
  | video
  | audioMain | audioAlternate | audioCommentary | audioMusic | audioSfx | audioNonSpeech
  | subtitleMain | subtitleForced | subtitleCommentary
  | attachment
  deriving DecidableEq, Repr, Inhabited

namespace TrackType

def isVideo : TrackType → Bool
  | .video => true
  | _ => false

def isAudio : TrackType → Bool
  | .audioMain | .audioAlternate | .audioCommentary | .audioMusic | .audioSfx
  | .audioNonSpeech => true
  | _ => false

def isSubtitle : TrackType → Bool
  | .subtitleMain | .subtitleForced | .subtitleCommentary => true
  | _ => false

def asStr : TrackType → String
  | .video => "video"
  | .audioMain => "audio_main"
  | .audioAlternate => "audio_alternate"
  | .audioCommentary => "audio_commentary"
  | .audioMusic => "audio_music"
  | .audioSfx => "audio_sfx"
  | .audioNonSpeech => "audio_non_speech"
  | .subtitleMain => "subtitle_main"
  | .subtitleForced => "subtitle_forced"
  | .subtitleCommentary => "subtitle_commentary"
  | .attachment => "attachment"

end TrackType

structure Track where
  index : Nat
  trackType : TrackType
  codec : String
  language : String := "und"
  title : String := ""
  isDefault : Bool := false
  isForced : Bool := false
  channels : Option Nat := none
  channelLayout : Option String := none
  sampleRate : Option Nat := none
  bitDepth : Option Nat := none
  loudnessIntegratedLufs : Option F64 := none
  loudnessTruePeakDb : Option F64 := none
  loudnessRangeLu : Option F64 := none
  loudnessMeasuredAt : Option Time := none
  width : Option Nat := none
  height : Option Nat := none
  frameRate : Option F64 := none
  isVfr : Bool := false
  isHdr : Bool := false
  hdrFormat : Option String := none
  pixelFormat : Option String := none
  colorPrimaries : Option String := none
  colorTransfer : Option String := none
  colorMatrix : Option String := none
  maxCll : Option Nat := none
  maxFall : Option Nat := none
  masterDisplay : Option String := none
  dolbyVisionProfile : Option Nat := none
  isAnimation : Option Bool := none
  deriving DecidableEq, Repr, Inhabited

/-! ## Files -/

inductive FileStatus where
  | active | missing | quarantined
  deriving DecidableEq, Repr, Inhabited

def FileStatus.asStr : FileStatus → String
  | .active => "active"
  | .missing => "missing"
  | .quarantined => "quarantined"

/-- The black bars found in a video, with the settings they were found under. -/
structure CropDetection where
  left : Nat
  right : Nat
  top : Nat
  bottom : Nat
  detectedAt : Time := 0
  settingsFingerprint : Option String := none
  deriving DecidableEq, Repr, Inhabited

/-- A media file with the metadata introspection produces. -/
structure MediaFile where
  id : Uuid
  path : Path
  size : Nat := 0
  contentHash : Option Hash := none
  expectedHash : Option Hash := none
  status : FileStatus := .active
  container : Container := .other
  duration : F64 := .finite 0
  bitrate : Option Nat := none
  tracks : List Track := []
  tags : List (String × String) := []
  pluginMetadata : List (String × Json) := []
  introspectedAt : Time := 0
  cropDetection : Option CropDetection := none
  deriving DecidableEq, Repr

namespace MediaFile

def tracksOfType (file : MediaFile) (trackType : TrackType) : List Track :=
  file.tracks.filter (·.trackType = trackType)

def videoTracks (file : MediaFile) : List Track := file.tracksOfType .video

def audioTracks (file : MediaFile) : List Track := file.tracks.filter (·.trackType.isAudio)

def subtitleTracks (file : MediaFile) : List Track := file.tracks.filter (·.trackType.isSubtitle)

/-- The last component of the path, as messages show it. -/
def fileName (file : MediaFile) : String := file.path.fileName.getD ""

end MediaFile

end Voom
