-- SUMMARY: The wire forms of plans: action parameters go out directly and come back through the legacy decoder.
import Voom.Wit.Codecs

/-!
# Plans on the wire

Action parameters are written by their own type and read through `ActionParamsCompat`, which knows
more fields for a transcode than are ever written. A written transcode has a codec and settings
and nothing behind them, so all of its flat fields are absent when it is read.
-/

namespace Voom.Wit

open Lib

/-! ## Transcode settings -/

def loudnessPresetName : LoudnessPreset → String
  | .ebuR128 => "ebu_r128"
  | .ebuR128Broadcast => "ebu_r128_broadcast"
  | .streamingMovies => "streaming_movies"
  | .streamingMusic => "streaming_music"
  | .mobile => "mobile"
  | .voiceFocused => "voice_focused"

def loudnessPreset : Codec F64 LoudnessPreset :=
  .units [.ebuR128, .ebuR128Broadcast, .streamingMovies, .streamingMusic, .mobile, .voiceFocused]
    loudnessPresetName (by intro x; cases x <;> rfl)

def loudnessMeasurement : Codec F64 LoudnessMeasurement :=
  .record
    (.field .float <| .field .float <| .field .float <| .field .float <| .field .float .nil)
    (fun m => (m.inputI, m.inputTp, m.inputLra, m.inputThresh, m.targetOffset, ()))
    (fun (inputI, inputTp, inputLra, inputThresh, targetOffset, ()) =>
      { inputI, inputTp, inputLra, inputThresh, targetOffset })
    fun _ => rfl

instance : loudnessMeasurement.Present := by
  unfold loudnessMeasurement
  infer_instance

def loudnessNormalization : Codec F64 LoudnessNormalization :=
  .record
    (.field loudnessPreset <| .field .float <| .field .float <| .field (.option .float) <|
      .defaulted .float defaultLoudnessTolerance <|
      .defaulted (.option loudnessMeasurement) none .nil)
    (fun l => (l.preset, l.targetLufs, l.truePeakDb, l.lraMax, l.toleranceLufs, l.measured, ()))
    (fun (preset, targetLufs, truePeakDb, lraMax, toleranceLufs, measured, ()) =>
      { preset, targetLufs, truePeakDb, lraMax, toleranceLufs, measured })
    fun _ => rfl

instance : loudnessNormalization.Present := by
  unfold loudnessNormalization
  infer_instance

def cropSettings : Codec F64 CropSettings :=
  .record
    (.field (.option (.unsigned 32)) <| .field (.option (.unsigned 32)) <|
      .field (.option (.unsigned 8)) <| .field (.option (.unsigned 32)) <|
      .field (.option (.unsigned 32)) <| .field (.list .string) .nil)
    (fun c => (c.sampleDurationSecs, c.sampleCount, c.threshold, c.minimumCrop,
      c.preserveBottomPixels, c.aspectLock, ()))
    (fun (sampleDurationSecs, sampleCount, threshold, minimumCrop, preserveBottomPixels,
        aspectLock, ()) =>
      { sampleDurationSecs, sampleCount, threshold, minimumCrop, preserveBottomPixels, aspectLock })
    fun _ => rfl

instance : cropSettings.Present := by
  unfold cropSettings
  infer_instance

def transcodeFallback : Codec F64 TranscodeFallback :=
  .record (.field (.unsigned 32) <| .field .string .nil) (fun f => (f.crf, f.preset, ()))
    (fun (crf, preset, ()) => { crf, preset }) fun _ => rfl

instance : transcodeFallback.Present := by
  unfold transcodeFallback
  infer_instance

/-- The count and duration of a sample strategy. -/
def samples : Codec F64 (Nat × String) :=
  .record (.field (.unsigned 32) <| .field .string .nil)
    (fun (count, duration) => (count, duration, ())) (fun (count, duration, ()) => (count, duration))
    fun _ => rfl

def sampleStrategy : Codec F64 SampleStrategy where
  write
    | .scenes count duration => outside "Scenes" samples (count, duration)
    | .uniform count duration => outside "Uniform" samples (count, duration)
    | .full => .ok (.str "Full")
  read
    | .map [(.str "Scenes", w)] => (samples.read w).map fun s => .scenes s.1 s.2
    | .map [(.str "Uniform", w)] => (samples.read w).map fun s => .uniform s.1 s.2
    | .str "Full" => .ok .full
    | _ => .error "unknown variant of SampleStrategy"
  read_write := by
    intro strategy w h
    cases strategy with
    | scenes count duration =>
      obtain ⟨v, rfl, hv⟩ := outside_eq_ok h
      exact congrArg (·.map fun s => SampleStrategy.scenes s.1 s.2) hv
    | uniform count duration =>
      obtain ⟨v, rfl, hv⟩ := outside_eq_ok h
      exact congrArg (·.map fun s => SampleStrategy.uniform s.1 s.2) hv
    | full =>
      cases h
      rfl

instance : sampleStrategy.Present where
  write_ne_nil strategy h := by
    cases strategy with
    | full => cases h
    | _ =>
      obtain ⟨_, h, -⟩ := outside_eq_ok h
      cases h

/-- Named channels are tried before a count. -/
def transcodeChannels : Codec F64 TranscodeChannels where
  write
    | .named name => .ok (.str name)
    | .count n => Codec.write (.unsigned 32) n
  read
    | .str name => .ok (.named name)
    | w => (Codec.read (.unsigned 32) w).map .count
  read_write := by
    intro channels w h
    cases channels with
    | named name =>
      cases h
      rfl
    | count n =>
      have hread := congrArg (·.map TranscodeChannels.count) (Codec.read_write (.unsigned 32) h)
      cases w with
      | str name => cases hread
      | _ => exact hread

instance : transcodeChannels.Present where
  write_ne_nil channels h := by
    cases channels with
    | named name => cases h
    | count n => exact Codec.Present.write_ne_nil (c := .unsigned 32) n h

/-- The settings of a transcode, field by field. -/
abbrev SettingsFields : Type :=
  Option Nat × Option String × Option String × Option Nat × Option String × Option String ×
    Option SampleStrategy × Option TranscodeFallback × Option (List (String × Nat)) ×
    Option TranscodeChannels × Option String × Option Bool × Option String × Option String ×
    Option String × Option Bool × Option String × Option String × Option String ×
    Option String × Option CropSettings × Option LoudnessNormalization × Unit

namespace TranscodeSettings

def split (s : TranscodeSettings) : SettingsFields :=
  (s.crf, s.preset, s.bitrate, s.targetVmaf, s.maxBitrate, s.minBitrate, s.sampleStrategy,
    s.fallback, s.vmafOverrides, s.channels, s.hw, s.hwFallback, s.maxResolution,
    s.scaleAlgorithm, s.hdrMode, s.preserveHdr, s.tonemap, s.hdrColorMetadata, s.dolbyVision,
    s.tune, s.crop, s.loudness, ())

def make : SettingsFields → TranscodeSettings
  | (crf, preset, bitrate, targetVmaf, maxBitrate, minBitrate, sampleStrategy, fallback,
      vmafOverrides, channels, hw, hwFallback, maxResolution, scaleAlgorithm, hdrMode,
      preserveHdr, tonemap, hdrColorMetadata, dolbyVision, tune, crop, loudness, ()) =>
    { crf, preset, bitrate, targetVmaf, maxBitrate, minBitrate, sampleStrategy, fallback,
      vmafOverrides, channels, hw, hwFallback, maxResolution, scaleAlgorithm, hdrMode,
      preserveHdr, tonemap, hdrColorMetadata, dolbyVision, tune, crop, loudness }

end TranscodeSettings

/-- The fields of transcode settings, declared one by one with `field`. -/
def settingsFields
    (field : ∀ {α β : Type}, Codec F64 (Option α) → Fields F64 β → Fields F64 (Option α × β)) :
    Fields F64 SettingsFields :=
  field (.option (.unsigned 32)) <| field (.option .string) <| field (.option .string) <|
  field (.option (.unsigned 32)) <| field (.option .string) <| field (.option .string) <|
  field (.option sampleStrategy) <| field (.option transcodeFallback) <|
  field (.option (.dict (.unsigned 32))) <| field (.option transcodeChannels) <|
  field (.option .string) <| field (.option .bool) <| field (.option .string) <|
  field (.option .string) <| field (.option .string) <| field (.option .bool) <|
  field (.option .string) <| field (.option .string) <| field (.option .string) <|
  field (.option .string) <| field (.option cropSettings) <|
  field (.option loudnessNormalization) .nil

def transcodeSettings : Codec F64 TranscodeSettings :=
  .record (settingsFields .field) TranscodeSettings.split TranscodeSettings.make fun _ => rfl

/-- The flat fields of old payloads: the same ones, each with a default. -/
def legacyFields : Fields F64 SettingsFields :=
  settingsFields fun c rest => .defaulted c none rest

/-! ## Action parameters -/

def verificationMode : Codec F64 VerificationMode :=
  .units [.quick, .thorough, .hash] VerificationMode.asStr (by intro x; cases x <;> rfl)

def textField : Fields F64 (String × Unit) := .field .string .nil

def textsField : Fields F64 (List String × Unit) := .field (.list .string) .nil

def containerFields : Fields F64 (Container × Unit) := .field container .nil

def removeTrackFields : Fields F64 (String × TrackType × Unit) :=
  .field .string <| .field trackType .nil

def transcodeFields : Fields F64 (String × TranscodeSettings × Unit) :=
  .field .string <| .field transcodeSettings .nil

def transcodeCompatFields : Fields F64 (String × TranscodeSettings × SettingsFields) :=
  .field .string <| .defaulted transcodeSettings {} legacyFields

abbrev SynthesizeFields : Type :=
  String × Option String × Option String × Option String × Option String × Option Nat ×
    Option String × Option String × Option Nat × Option LoudnessNormalization × Unit

def synthesizeFields : Fields F64 SynthesizeFields :=
  .field .string <| .field (.option .string) <| .field (.option .string) <|
  .field (.option .string) <| .field (.option .string) <| .field (.option (.unsigned 32)) <|
  .field (.option .string) <| .field (.option .string) <| .field (.option (.unsigned 32)) <|
  .defaulted (.option loudnessNormalization) none .nil

namespace SynthesizeParams

def split (p : SynthesizeParams) : SynthesizeFields :=
  (p.name, p.language, p.codec, p.text, p.bitrate, p.channels, p.title, p.position,
    p.sourceTrack, p.loudness, ())

def make : SynthesizeFields → SynthesizeParams
  | (name, language, codec, text, bitrate, channels, title, position, sourceTrack, loudness, ()) =>
    { name, language, codec, text, bitrate, channels, title, position, sourceTrack, loudness }

theorem make_split (p : SynthesizeParams) : make p.split = p := rfl

end SynthesizeParams

def setTagFields : Fields F64 (String × String × Unit) := .field .string <| .field .string .nil

def muxSubtitleFields : Fields F64 (PathBuf × String × Bool × Option String × Unit) :=
  .field pathBuf <| .field .string <| .field .bool <| .field (.option .string) .nil

def verifyMediaFields : Fields F64 (VerificationMode × Unit) := .field verificationMode .nil

/-- Action parameters as they are written: their variant by name, then its fields. -/
def writeActionParams : ActionParams → Except String (Wire F64)
  | .empty => inside "Empty" .nil ()
  | .container container => inside "Container" containerFields (container, ())
  | .removeTrack reason trackType =>
    inside "RemoveTrack" removeTrackFields (reason, trackType, ())
  | .reorderTracks order => inside "ReorderTracks" textsField (order, ())
  | .language language => inside "Language" textField (language, ())
  | .title title => inside "Title" textField (title, ())
  | .transcode codec settings => inside "Transcode" transcodeFields (codec, settings, ())
  | .synthesize params => inside "Synthesize" synthesizeFields params.split
  | .setTag tag value => inside "SetTag" setTagFields (tag, value, ())
  | .clearTags tags => inside "ClearTags" textsField (tags, ())
  | .deleteTag tag => inside "DeleteTag" textField (tag, ())
  | .muxSubtitle subtitlePath language forced title =>
    inside "MuxSubtitle" muxSubtitleFields (subtitlePath, language, forced, title, ())
  | .verifyMedia mode => inside "VerifyMedia" verifyMediaFields (mode, ())
  | .quarantine reason => inside "Quarantine" textField (reason, ())

/-- The variants of `ActionParamsCompat`, by the name in front of their fields. -/
def readVariant (ws : List (Wire F64)) : String → Except String ActionParamsCompat
  | "Empty" => (Fields.nil.read ws).map fun () => .empty
  | "Container" => (containerFields.read ws).map fun (container, ()) => .container container
  | "RemoveTrack" =>
    (removeTrackFields.read ws).map fun (reason, trackType, ()) => .removeTrack reason trackType
  | "ReorderTracks" => (textsField.read ws).map fun (order, ()) => .reorderTracks order
  | "Language" => (textField.read ws).map fun (language, ()) => .language language
  | "Title" => (textField.read ws).map fun (title, ()) => .title title
  | "Transcode" =>
    (transcodeCompatFields.read ws).map fun (codec, settings, legacy) =>
      .transcode codec settings (.make legacy)
  | "Synthesize" => (synthesizeFields.read ws).map fun fields => .synthesize (.make fields)
  | "SetTag" => (setTagFields.read ws).map fun (tag, value, ()) => .setTag tag value
  | "ClearTags" => (textsField.read ws).map fun (tags, ()) => .clearTags tags
  | "DeleteTag" => (textField.read ws).map fun (tag, ()) => .deleteTag tag
  | "MuxSubtitle" =>
    (muxSubtitleFields.read ws).map fun (subtitlePath, language, forced, title, ()) =>
      .muxSubtitle subtitlePath language forced title
  | "VerifyMedia" => (verifyMediaFields.read ws).map fun (mode, ()) => .verifyMedia mode
  | "Quarantine" => (textField.read ws).map fun (reason, ()) => .quarantine reason
  | name => .error ("unknown variant " ++ name)

def readActionParamsCompat : Wire F64 → Except String ActionParamsCompat
  | .array (.str name :: ws) => readVariant ws name
  | _ => .error "invalid type: expected internally tagged enum ActionParamsCompat"

/-- A written transcode is read back with no flat fields beside its settings. -/
theorem transcodeCompatFields_read {codec : String} {settings : TranscodeSettings}
    {ws : List (Wire F64)} (h : transcodeFields.write (codec, settings, ()) = .ok ws) :
    ∃ legacy, transcodeCompatFields.read ws = .ok (codec, settings, legacy) ∧
      TranscodeSettings.make legacy = {} := by
  obtain ⟨w, hw, h⟩ := bind_eq_ok.mp h
  obtain ⟨_, hrest, h⟩ := bind_eq_ok.mp h
  cases h
  obtain ⟨v, hv, hrest⟩ := bind_eq_ok.mp hrest
  cases hrest
  have hcodec : Codec.string.read w = .ok codec := Codec.string.read_write hw
  have hsettings : transcodeSettings.read v = .ok settings := transcodeSettings.read_write hv
  have hlegacy : legacyFields.read [] = .ok (TranscodeSettings.split {}) := rfl
  refine ⟨TranscodeSettings.split {}, ?_, rfl⟩
  simp only [transcodeCompatFields, Fields.field, Fields.defaulted, Fields.cons, hcodec, hsettings,
    hlegacy, ok_bind]

def actionParams : Codec F64 ActionParams where
  write := writeActionParams
  read w := (readActionParamsCompat w).map fromCompat
  read_write := by
    intro params w h
    cases params with
    | transcode codec settings =>
      obtain ⟨ws, rfl, hws⟩ := inside_eq_ok h
      obtain ⟨legacy, hread, hlegacy⟩ := transcodeCompatFields_read hws
      simp only [readActionParamsCompat, readVariant, hread, map_ok, fromCompat, hlegacy]
      -- settings that say nothing are the ones that no flat field fills
      split
      case isTrue hempty => rw [hempty]
      case isFalse => rfl
    | _ =>
      obtain ⟨ws, rfl, hws⟩ := inside_eq_ok h
      simp only [readActionParamsCompat, readVariant, Fields.read_write _ hws, map_ok, fromCompat,
        SynthesizeParams.make_split]

/-! ## Plans -/

def operationTypeName : OperationType → String
  | .setDefault => "SetDefault"
  | .clearDefault => "ClearDefault"
  | .setForced => "SetForced"
  | .clearForced => "ClearForced"
  | .setTitle => "SetTitle"
  | .setLanguage => "SetLanguage"
  | .removeTrack => "RemoveTrack"
  | .reorderTracks => "ReorderTracks"
  | .convertContainer => "ConvertContainer"
  | .transcodeVideo => "TranscodeVideo"
  | .transcodeAudio => "TranscodeAudio"
  | .synthesizeAudio => "SynthesizeAudio"
  | .setContainerTag => "SetContainerTag"
  | .clearContainerTags => "ClearContainerTags"
  | .deleteContainerTag => "DeleteContainerTag"
  | .muxSubtitle => "MuxSubtitle"
  | .verifyMedia => "VerifyMedia"
  | .quarantine => "Quarantine"

def operationType : Codec F64 OperationType :=
  .units [.setDefault, .clearDefault, .setForced, .clearForced, .setTitle, .setLanguage,
    .removeTrack, .reorderTracks, .convertContainer, .transcodeVideo, .transcodeAudio,
    .synthesizeAudio, .setContainerTag, .clearContainerTags, .deleteContainerTag, .muxSubtitle,
    .verifyMedia, .quarantine]
    operationTypeName (by intro x; cases x <;> rfl)

def plannedAction : Codec F64 PlannedAction :=
  .record
    (.field operationType <| .field (.option (.unsigned 32)) <| .field actionParams <|
      .field .string .nil)
    (fun a => (a.operation, a.trackIndex, a.parameters, a.description, ()))
    (fun (operation, trackIndex, parameters, description, ()) =>
      { operation, trackIndex, parameters, description })
    fun _ => rfl

def safeguardKindName : SafeguardKind → String
  | .allTracksRemoved => "all_tracks_removed"
  | .noVideoTrack => "no_video_track"
  | .noAudioTrack => "no_audio_track"
  | .outputLarger => "output_larger"
  | .diskSpaceLow => "disk_space_low"
  | .durationShrunk => "duration_shrunk"
  | .containerIncompatible => "container_incompatible"

def safeguardKind : Codec F64 SafeguardKind :=
  .units [.allTracksRemoved, .noVideoTrack, .noAudioTrack, .outputLarger, .diskSpaceLow,
    .durationShrunk, .containerIncompatible]
    safeguardKindName (by intro x; cases x <;> rfl)

def safeguardViolation : Codec F64 SafeguardViolation :=
  .record (.field safeguardKind <| .field .string <| .field .string .nil)
    (fun v => (v.kind, v.message, v.phaseName, ()))
    (fun (kind, message, phaseName, ()) => { kind, message, phaseName })
    fun _ => rfl

def plan (env : WitEnv) : Codec F64 Plan :=
  .record
    (.defaulted env.uuid env.newUuid <| .field (mediaFile env) <| .field .string <|
      .field .string <| .field (.list plannedAction) <| .field (.list .string) <|
      .defaulted (.list safeguardViolation) [] <| .field (.option .string) <|
      .defaulted (.option .string) none <| .defaulted env.time epoch <|
      .defaulted (.option .string) none <| .defaulted (.option env.uuid) none <|
      .defaulted (.option env.uuid) none .nil)
    (fun p => (p.id, p.file, p.policyName, p.phaseName, p.actions, p.warnings,
      p.safeguardViolations, p.skipReason, p.policyHash, p.evaluatedAt, p.executorHint,
      p.sessionId, p.scanSession, ()))
    (fun (id, file, policyName, phaseName, actions, warnings, safeguardViolations, skipReason,
        policyHash, evaluatedAt, executorHint, sessionId, scanSession, ()) =>
      { id, file, policyName, phaseName, actions, warnings, safeguardViolations, skipReason,
        policyHash, evaluatedAt, executorHint, sessionId, scanSession })
    fun _ => rfl

end Voom.Wit
