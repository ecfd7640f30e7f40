-- SUMMARY: The wire forms of media files and plans, as serde derives them.
import Voom.Wit.JsonWire
import Voom.Wit.Payloads

/-!
# Wire forms

The derived wire forms: a struct is the array of its fields in the order of its declaration, an
enumeration without payloads the name of its value, and action parameters an array with the name
of their variant in front. Each codec below carries the proof that it reads back what it writes.
-/

namespace Voom.Wit

open Lib

/-- What the boundary uses of other crates: how identifiers and instants are written, MessagePack
bytes for wire values, and JSON texts. `rmp_serde` reads no more than 1024 levels: the law of the
bytes takes every value to stay within them. A double in a JSON text is read with the default
precision of `serde_json`, and a text nested more than 127 deep is not read. -/
structure WitEnv where
  uuid : Codec F64 Uuid
  uuidPresent : uuid.Present
  time : Codec F64 Time
  timePresent : time.Present
  /-- `Uuid::new_v4`. -/
  newUuid : Uuid
  Bytes : Type
  toVec : Wire F64 → Bytes
  fromSlice : Bytes → Except String (Wire F64)
  fromSlice_toVec (w : Wire F64) : fromSlice (toVec w) = .ok w
  jsonToVec : Json → Bytes
  jsonFromSlice : Bytes → Except String Json
  rereadFloat : Rat → Rat
  jsonFromSlice_jsonToVec (v : Json) :
    v.nesting ≤ 127 → jsonFromSlice (jsonToVec v) = .ok (v.mapFloats rereadFloat)

instance (env : WitEnv) : env.uuid.Present := env.uuidPresent

instance (env : WitEnv) : env.time.Present := env.timePresent

/-- `DateTime::UNIX_EPOCH`. -/
def epoch : Time := 0

def pathBuf : Codec F64 PathBuf where
  write
    | .text s => .ok (.str s)
    | .bytes _ => .error "path contains invalid UTF-8 characters"
  read
    | .str s => .ok (.text s)
    | _ => .error "invalid type: expected path string"
  read_write := by
    rintro (s | raw) _ ⟨⟩
    rfl

/-! ## Media files -/

def containerName : Container → String
  | .mkv => "Mkv"
  | .mp4 => "Mp4"
  | .avi => "Avi"
  | .webm => "Webm"
  | .flv => "Flv"
  | .wmv => "Wmv"
  | .mov => "Mov"
  | .ts => "Ts"
  | .other => "Other"

def container : Codec F64 Container :=
  .units [.mkv, .mp4, .avi, .webm, .flv, .wmv, .mov, .ts, .other] containerName
    (by intro x; cases x <;> rfl)

def trackTypeName : TrackType → String
  | .video => "Video"
  | .audioMain => "AudioMain"
  | .audioAlternate => "AudioAlternate"
  | .audioCommentary => "AudioCommentary"
  | .audioMusic => "AudioMusic"
  | .audioSfx => "AudioSfx"
  | .audioNonSpeech => "AudioNonSpeech"
  | .subtitleMain => "SubtitleMain"
  | .subtitleForced => "SubtitleForced"
  | .subtitleCommentary => "SubtitleCommentary"
  | .attachment => "Attachment"

def trackType : Codec F64 TrackType :=
  .units [.video, .audioMain, .audioAlternate, .audioCommentary, .audioMusic, .audioSfx,
    .audioNonSpeech, .subtitleMain, .subtitleForced, .subtitleCommentary, .attachment]
    trackTypeName (by intro x; cases x <;> rfl)

def fileStatusName : FileStatus → String
  | .active => "Active"
  | .missing => "Missing"
  | .quarantined => "Quarantined"

def fileStatus : Codec F64 FileStatus :=
  .units [.active, .missing, .quarantined] fileStatusName (by intro x; cases x <;> rfl)

section

variable (env : WitEnv)

/-- A crop rectangle: its left, top, right and bottom. -/
def cropRect : Codec F64 (Nat × Nat × Nat × Nat) :=
  .record
    (.field (.unsigned 32) <| .field (.unsigned 32) <| .field (.unsigned 32) <|
      .field (.unsigned 32) .nil)
    (fun (left, top, right, bottom) => (left, top, right, bottom, ()))
    (fun (left, top, right, bottom, ()) => (left, top, right, bottom))
    fun _ => rfl

def cropDetection : Codec F64 CropDetection :=
  .record
    (.field cropRect <| .field env.time <| .skipped .string)
    (fun c => ((c.left, c.top, c.right, c.bottom), c.detectedAt, c.settingsFingerprint, ()))
    (fun ((left, top, right, bottom), detectedAt, settingsFingerprint, ()) =>
      { left, right, top, bottom, detectedAt, settingsFingerprint })
    fun _ => rfl

instance : (cropDetection env).Present := by
  unfold cropDetection
  infer_instance

def track : Codec F64 Track :=
  .record
    (.field (.unsigned 32) <| .field trackType <| .field .string <| .field .string <|
      .field .string <| .field .bool <| .field .bool <|
      -- audio
      .field (.option (.unsigned 32)) <| .field (.option .string) <|
      .field (.option (.unsigned 32)) <| .field (.option (.unsigned 32)) <|
      .field (.option .float) <| .field (.option .float) <| .field (.option .float) <|
      .field (.option env.time) <|
      -- video
      .field (.option (.unsigned 32)) <| .field (.option (.unsigned 32)) <|
      .field (.option .float) <| .field .bool <| .field .bool <|
      .field (.option .string) <| .field (.option .string) <|
      .defaulted (.option .string) none <| .defaulted (.option .string) none <|
      .defaulted (.option .string) none <| .defaulted (.option (.unsigned 32)) none <|
      .defaulted (.option (.unsigned 32)) none <| .defaulted (.option .string) none <|
      .defaulted (.option (.unsigned 8)) none <| .defaulted (.option .bool) none .nil)
    (fun t =>
      (t.index, t.trackType, t.codec, t.language, t.title, t.isDefault, t.isForced, t.channels,
        t.channelLayout, t.sampleRate, t.bitDepth, t.loudnessIntegratedLufs, t.loudnessTruePeakDb,
        t.loudnessRangeLu, t.loudnessMeasuredAt, t.width, t.height, t.frameRate, t.isVfr, t.isHdr,
        t.hdrFormat, t.pixelFormat, t.colorPrimaries, t.colorTransfer, t.colorMatrix, t.maxCll,
        t.maxFall, t.masterDisplay, t.dolbyVisionProfile, t.isAnimation, ()))
    (fun (index, trackType, codec, language, title, isDefault, isForced, channels, channelLayout,
        sampleRate, bitDepth, loudnessIntegratedLufs, loudnessTruePeakDb, loudnessRangeLu,
        loudnessMeasuredAt, width, height, frameRate, isVfr, isHdr, hdrFormat, pixelFormat,
        colorPrimaries, colorTransfer, colorMatrix, maxCll, maxFall, masterDisplay,
        dolbyVisionProfile, isAnimation, ()) =>
      { index, trackType, codec, language, title, isDefault, isForced, channels, channelLayout,
        sampleRate, bitDepth, loudnessIntegratedLufs, loudnessTruePeakDb, loudnessRangeLu,
        loudnessMeasuredAt, width, height, frameRate, isVfr, isHdr, hdrFormat, pixelFormat,
        colorPrimaries, colorTransfer, colorMatrix, maxCll, maxFall, masterDisplay,
        dolbyVisionProfile, isAnimation })
    fun _ => rfl

def mediaFile : Codec F64 MediaFile :=
  .record
    (.field env.uuid <| .field pathBuf <| .field (.unsigned 64) <| .field (.option .string) <|
      .defaulted (.option .string) none <| .defaulted fileStatus .active <| .field container <|
      .field .float <| .field (.option (.unsigned 32)) <|
      .defaulted (.option (cropDetection env)) none <| .field (.list (track env)) <|
      .field (.dict .string) <| .field (.dict json) <| .field env.time .nil)
    (fun f =>
      (f.id, f.path, f.size, f.contentHash, f.expectedHash, f.status, f.container, f.duration,
        f.bitrate, f.cropDetection, f.tracks, f.tags, f.pluginMetadata, f.introspectedAt, ()))
    (fun (id, path, size, contentHash, expectedHash, status, container, duration, bitrate,
        cropDetection, tracks, tags, pluginMetadata, introspectedAt, ()) =>
      { id, path, size, contentHash, expectedHash, status, container, duration, bitrate,
        cropDetection, tracks, tags, pluginMetadata, introspectedAt })
    fun _ => rfl

end

end Voom.Wit
