-- SUMMARY: How FFmpeg reads the command of the executor, and what of it comes from which action.
import Voom.Executors.FfmpegCommand
import Voom.Lib.Outcome

/-!
# Reading an FFmpeg command

FFmpeg takes the streams of the output from the `-map` arguments, in their order; the index of a
track is its place in the input, where streams may stand that the file does not list. A codec or a
filter is given to the streams of a kind or to the one with a number among them, metadata and
dispositions by the place in the output; of several options for the same stream the last one
counts. Keys of the container's metadata are the same up to ASCII case, and an empty value
deletes the entry. The muxer follows from the extension of the output.
-/

namespace Voom.Executors.Ffmpeg

/-! ## Reading a command -/

inductive StreamKind where
  | video | audio | subtitle | attachment
  deriving DecidableEq, Repr

def StreamKind.of : TrackType → StreamKind
  | .video => .video
  | .audioMain | .audioAlternate | .audioCommentary | .audioMusic | .audioSfx | .audioNonSpeech =>
    .audio
  | .subtitleMain | .subtitleForced | .subtitleCommentary => .subtitle
  | .attachment => .attachment

/-- A stream of the output: where it stands, the track it comes from, and its number among the
streams of its kind. -/
structure Stream where
  position : Nat
  track : Track
  number : Nat

def Stream.kind (stream : Stream) : StreamKind := .of stream.track.trackType

/-- The tracks that a command maps, without the streams that the file does not list. -/
def mapped (file : MediaFile) (command : List Part) : List Track :=
  command.flatMap fun
    | .mapAll => file.tracks
    | .mapTrack index => (file.tracks.find? (·.index = index)).toList
    | _ => []

/-- The streams of tracks. Where everything is mapped, each keeps its place in the input. No stream
that the file does not list is of a kind of tracks. -/
def streamsOf (everything : Bool) (tracks : List Track) : List Stream :=
  let places := tracks.mapIdx fun i track => (if everything then track.index else i, track)
  places.map fun (position, track) =>
    { position, track
      number := places.countP fun (place, t) =>
        place < position ∧ StreamKind.of t.trackType = StreamKind.of track.trackType }

/-- The streams of a command. -/
def streams (file : MediaFile) (command : List Part) : List Stream :=
  streamsOf (.mapAll ∈ command) (mapped file command)

/-- The stream of a track, by the track's index. -/
def streamOf (streams : List Stream) (index : Nat) : Option Stream :=
  streams.find? (·.track.index = index)

/-- The last of what is read from the parts of a command. -/
def lastOf {α β : Type} (read : α → Option β) (command : List α) : Option β :=
  (command.filterMap read).getLast?

/-- The codec that an option gives to a stream. -/
def codecFor (stream : Stream) : Part → Option String
  | .codecCopy => some "copy"
  | .videoCodec codec => if stream.kind = .video then some codec else none
  | .audioCodec codec => if stream.kind = .audio then some codec else none
  | .videoCodecForTrack n codec =>
    if stream.kind = .video ∧ n = stream.number then some codec else none
  | .audioCodecForTrack n codec =>
    if stream.kind = .audio ∧ n = stream.number then some codec else none
  | _ => none

/-- The value that is given to an encoder's option. -/
def valueOf (option : String) : Part → Option String
  | .option name value => if name = option then some value else none
  | _ => none

/-- The filter that an option gives to an audio stream. -/
def audioFilterFor (stream : Stream) : Part → Option String
  | .option name value =>
    if stream.kind = .audio ∧ (name = "-af" ∨ name = s!"-filter:a:{stream.number}") then some value
    else none
  | _ => none

def streamTextFor (stream : Stream) (key : String) : Part → Option String
  | .metadata (some n) k value => if n = stream.position ∧ k = key then some value else none
  | _ => none

def dispositionFor (stream : Stream) : Part → Option String
  | .disposition n value => if n = stream.position then some value else none
  | _ => none

/-- Whether a disposition has the flags for default and forced. -/
def readDisposition : String → Option (Bool × Bool)
  | "default+forced" => some (true, true)
  | "default" => some (true, false)
  | "forced" => some (false, true)
  | "0" => some (false, false)
  | _ => none

def tagFor (tag : String) : Part → Option String
  | .metadata none key value =>
    if toAsciiLowercase key = toAsciiLowercase tag then some value else none
  | _ => none

def outputOf : Part → Option Path
  | .output path => some path
  | _ => none

/-! ## What the actions ask for -/

section

variable (env : CommandEnv) (file : MediaFile) (hwAccel : Option HwAccelConfig)

/-- The options that the settings of a video transcode stand for. -/
def videoSettings (action : PlannedAction) (codec : String) (settings : TranscodeSettings) :
    List Part :=
  let encoder := videoEncoder hwAccel codec settings
  let filters := collectVideoFilters env file action settings
  (settings.crf.map (applyQuality encoder)).getD [] ++
    (settings.preset.map (applyPreset encoder)).getD [] ++
    (settings.tune.map (applyTune encoder)).getD [] ++
    (settings.bitrate.map (Part.option "-b:v")).toList ++
    (applyHdr file action encoder codec settings).toOption.getD [] ++
    (if filters = [] then [] else [.option "-vf" (",".intercalate filters)])

/-- The options for the bit rate and the channels of an audio stream. -/
def audioSettings (bitrate : Option String) (channels : Option Nat) : List Part :=
  (bitrate.map (Part.option "-b:a")).toList ++
    (channels.map fun n => Part.option "-ac" (toString n)).toList

/-- The tracks that the builder maps. -/
def mappedTracks (actions : List PlannedAction) : List Track :=
  let kept := file.tracks.filter (·.trackType ≠ .attachment)
  if excludesAttachments actions = true ∧ kept ≠ [] then
    kept.filterMap fun t => file.tracks.find? (·.index = t.index)
  else file.tracks

/-- The builder maps everything, streams that the file does not list included. -/
def mapsEverything (actions : List PlannedAction) : Bool :=
  ¬ (excludesAttachments actions = true ∧ file.tracks.filter (·.trackType ≠ .attachment) ≠ [])

def plannedStreams (actions : List PlannedAction) : List Stream :=
  streamsOf (mapsEverything file actions) (mappedTracks file actions)

/-- The number in a specifier is the action's track index. -/
def addresses (kind : StreamKind) (action : PlannedAction) (stream : Stream) : Bool :=
  stream.kind = kind && action.trackIndex.all (· = stream.number)

def askedCodec (stream : Stream) (action : PlannedAction) : Option String :=
  match action.operation, action.parameters with
  | .transcodeVideo, .transcode codec settings =>
    if addresses .video action stream then some (videoEncoder hwAccel codec settings) else none
  | .transcodeAudio, .transcode codec _ =>
    if addresses .audio action stream then some (softwareEncoder codec) else none
  | .synthesizeAudio, .synthesize params =>
    if addresses .audio action stream then some (softwareEncoder (params.codec.getD "aac")) else none
  | _, _ => none

/-- The filter for a number of an audio stream, or for all. -/
def loudnessOption (stream : Option Nat) (loudness : Option LoudnessNormalization) : List Part :=
  let name :=
    match stream with
    | some stream => s!"-filter:a:{stream}"
    | none => "-af"
  (loudness.map fun settings => Part.option name (loudnormFilter env settings)).toList

/-- The options of an action for encoders and filters. -/
def askedSettings (action : PlannedAction) : List Part :=
  match action.operation, action.parameters with
  | .transcodeVideo, .transcode codec settings => videoSettings env file hwAccel action codec settings
  | .transcodeAudio, .transcode _ settings =>
    audioSettings settings.bitrate (settings.channels.bind TranscodeChannels.toCount) ++
      loudnessOption env action.trackIndex settings.loudness
  | .synthesizeAudio, .synthesize params =>
    audioSettings params.bitrate params.channels ++
      loudnessOption env action.trackIndex params.loudness
  | _, _ => []

def askedLoudness (action : PlannedAction) : Option LoudnessNormalization :=
  match action.operation, action.parameters with
  | .transcodeAudio, .transcode _ settings => settings.loudness
  | .synthesizeAudio, .synthesize params => params.loudness
  | _, _ => none

def askedFilter (stream : Stream) (action : PlannedAction) : Option String :=
  if addresses .audio action stream then (askedLoudness action).map (loudnormFilter env) else none

/-- The values that an action gives to a tag, in order. -/
def askedTags (tag : String) (action : PlannedAction) : List String :=
  let given (key value : String) : List String :=
    if toAsciiLowercase key = toAsciiLowercase tag then [value] else []
  match action.operation, action.parameters with
  | .setContainerTag, .setTag key value => given key value
  | .clearContainerTags, .clearTags keys => keys.flatMap fun key => given key ""
  | .deleteContainerTag, .deleteTag key => given key ""
  | _, _ => []

/-- The last value that the actions give to a tag. -/
def lastTag (actions : List PlannedAction) (tag : String) : Option String :=
  (actions.flatMap (askedTags tag)).getLast?

/-! ## The parts of a command -/

/-- The codec for a number of a video stream, or for all. -/
def videoCodecPart (stream : Option Nat) (encoder : String) : Part :=
  match stream with
  | some stream => .videoCodecForTrack stream encoder
  | none => .videoCodec encoder

def audioCodecPart (stream : Option Nat) (encoder : String) : Part :=
  match stream with
  | some stream => .audioCodecForTrack stream encoder
  | none => .audioCodec encoder

def codecParts (action : PlannedAction) : List Part :=
  match action.operation, action.parameters with
  | .transcodeVideo, .transcode codec settings =>
    [videoCodecPart action.trackIndex (videoEncoder hwAccel codec settings)]
  | .transcodeAudio, .transcode codec _ => [audioCodecPart action.trackIndex (softwareEncoder codec)]
  | .synthesizeAudio, .synthesize params =>
    [audioCodecPart action.trackIndex (softwareEncoder (params.codec.getD "aac"))]
  | _, _ => []

def tagParts (action : PlannedAction) : List Part :=
  match action.operation, action.parameters with
  | .setContainerTag, .setTag tag value => [.metadata none tag value]
  | .clearContainerTags, .clearTags tags => tags.map clearMetadata
  | .deleteContainerTag, .deleteTag tag => [clearMetadata tag]
  | _, _ => []

/-- What an action adds, if nothing is wrong with it. -/
def addedParts (action : PlannedAction) : List Part :=
  codecParts hwAccel action ++ askedSettings env file hwAccel action ++ tagParts action

variable {env file hwAccel} {actions : List PlannedAction} {action : PlannedAction}
  {command parts : List Part} {path : Path}

theorem applyAudioCodecArgs_eq (env : CommandEnv) (stream : Option Nat) (encoder : String)
    (bitrate : Option String) (channels : Option Nat) (loudness : Option LoudnessNormalization) :
    applyAudioCodecArgs env stream encoder bitrate channels loudness =
      [audioCodecPart stream encoder] ++
        (audioSettings bitrate channels ++ loudnessOption env stream loudness) := by
  cases stream <;> simp [applyAudioCodecArgs, audioCodecPart, audioSettings, loudnessOption]

theorem applyTranscodeVideo_ok {codec : String} {settings : TranscodeSettings}
    (hparams : action.parameters = .transcode codec settings)
    (h : applyTranscodeVideo env file hwAccel action = .ok parts) :
    parts = [videoCodecPart action.trackIndex (videoEncoder hwAccel codec settings)] ++
      videoSettings env file hwAccel action codec settings := by
  simp only [applyTranscodeVideo, hparams] at h
  obtain ⟨-, -, h⟩ := Lib.bind_eq_ok.mp h
  obtain ⟨hdr, hhdr, h⟩ := Lib.bind_eq_ok.mp h
  obtain rfl := Except.ok.inj h
  cases action.trackIndex <;>
    simp [videoCodecPart, videoSettings, hhdr, Except.toOption, List.append_assoc]

/-- What an action adds is its codec, its settings and its tags. -/
theorem actionParts_ok (h : actionParts env file hwAccel action = .ok parts) :
    parts = addedParts env file hwAccel action := by
  have hchecked := action.checked
  unfold actionParts at h
  split at h
  · rename_i hop
    cases hparams : action.parameters with
    | transcode codec settings =>
      rw [applyTranscodeVideo_ok hparams h]
      simp [addedParts, codecParts, askedSettings, tagParts, hop, hparams]
    | _ => simp [hop, hparams, validateActionParams] at hchecked
  · rename_i hop
    obtain rfl := Except.ok.inj h
    cases hparams : action.parameters with
    | transcode codec settings =>
      simp [applyTranscodeAudio, applyAudioCodecArgs_eq, addedParts, codecParts, askedSettings,
        tagParts, hop, hparams]
    | _ => simp [hop, hparams, validateActionParams] at hchecked
  · rename_i hop
    obtain rfl := Except.ok.inj h
    cases hparams : action.parameters with
    | synthesize params =>
      simp [applySynthesizeAudio, applyAudioCodecArgs_eq, addedParts, codecParts, askedSettings,
        tagParts, hop, hparams]
    | _ => simp [hop, hparams, validateActionParams] at hchecked
  · rename_i tag value hop hparams
    obtain ⟨-, -, h⟩ := Lib.bind_eq_ok.mp h
    obtain ⟨-, -, h⟩ := Lib.bind_eq_ok.mp h
    obtain rfl := Except.ok.inj h
    simp [addedParts, codecParts, askedSettings, tagParts, hop, hparams]
  · rename_i tags hop hparams
    have hparts : parts = tags.map clearMetadata := by
      refine Lib.mapM_eq_map h fun tag _ part hpart => ?_
      cases hkey : validateMetadataKey env tag with
      | error e => simp [hkey, Except.map] at hpart
      | ok _ =>
        simp only [hkey, Except.map] at hpart
        exact (Except.ok.inj hpart).symm
    simp [hparts, addedParts, codecParts, askedSettings, tagParts, hop, hparams]
  · rename_i tag hop hparams
    obtain ⟨-, -, h⟩ := Lib.bind_eq_ok.mp h
    obtain rfl := Except.ok.inj h
    simp [addedParts, codecParts, askedSettings, tagParts, hop, hparams]
  · -- Operations for which nothing is added.
    rename_i hvideo haudio hsynthesize hset hclear hdelete
    obtain rfl := Except.ok.inj h
    have hcodec : codecParts hwAccel action = [] := by
      unfold codecParts
      split
      · exact absurd ‹_› hvideo
      · exact absurd ‹_› haudio
      · exact absurd ‹_› hsynthesize
      · rfl
    have hsettings : askedSettings env file hwAccel action = [] := by
      unfold askedSettings
      split
      · exact absurd ‹_› hvideo
      · exact absurd ‹_› haudio
      · exact absurd ‹_› hsynthesize
      · rfl
    have htags : tagParts action = [] := by
      unfold tagParts
      split
      · exact absurd ‹action.parameters = _› (hset _ _ ‹_›)
      · exact absurd ‹action.parameters = _› (hclear _ ‹_›)
      · exact absurd ‹action.parameters = _› (hdelete _ ‹_›)
      · rfl
    simp [addedParts, hcodec, hsettings, htags]

/-- Where a part of a command stands. -/
inductive Place where
  | opening | map | copy | added | preserved | output
  deriving DecidableEq, Repr

def Part.place : Part → Place
  | .arg _ | .input _ => .opening
  | .mapAll | .mapTrack _ => .map
  | .codecCopy => .copy
  | .videoCodec _ | .audioCodec _ | .videoCodecForTrack _ _ | .audioCodecForTrack _ _
  | .option _ _ | .metadata none _ _ => .added
  | .mapMetadata _ | .mapChapters _ | .metadata (some _) _ _ | .disposition _ _ => .preserved
  | .output _ => .output

/-- The options that settings are given by. -/
def settingNames : List String :=
  ["-cq", "-global_quality", "-rc_mode", "-qp", "-q:v", "-crf", "-preset", "-tune", "-b:v",
   "-color_primaries", "-color_trc", "-colorspace", "-pix_fmt", "-x265-params", "-vf", "-b:a", "-ac"]

/-- Settings, and nothing else. -/
def AreSettings (parts : List Part) : Prop :=
  ∀ p ∈ parts, ∃ name ∈ settingNames, ∃ value, p = .option name value

theorem AreSettings.append {parts' : List Part} (h : AreSettings parts) (h' : AreSettings parts') :
    AreSettings (parts ++ parts') := by
  intro p hp
  rcases List.mem_append.mp hp with hp | hp
  · exact h p hp
  · exact h' p hp

theorem areSettings_nil : AreSettings [] := fun _ hp => absurd hp List.not_mem_nil

theorem areSettings_cons {name value : String} (hname : name ∈ settingNames)
    (h : AreSettings parts) : AreSettings (.option name value :: parts) := by
  intro p hp
  rcases List.mem_cons.mp hp with rfl | hp
  · exact ⟨name, hname, value, rfl⟩
  · exact h p hp

theorem areSettings_map {α : Type} {name : String} {text : α → String} {value : Option α}
    (hname : name ∈ settingNames) :
    AreSettings (value.map fun v => Part.option name (text v)).toList := by
  cases value with
  | none => exact areSettings_nil
  | some v => exact areSettings_cons hname areSettings_nil

theorem areSettings_audioSettings (bitrate : Option String) (channels : Option Nat) :
    AreSettings (audioSettings bitrate channels) :=
  AreSettings.append (areSettings_map (by decide)) (areSettings_map (by decide))

theorem areSettings_getD {α : Type} {f : α → List Part} {value : Option α}
    (h : ∀ v, AreSettings (f v)) : AreSettings ((value.map f).getD []) := by
  cases value with
  | none => exact areSettings_nil
  | some v => exact h v

theorem areSettings_applyQuality (encoder : String) (crf : Nat) :
    AreSettings (applyQuality encoder crf) := by
  unfold applyQuality
  split_ifs <;> repeat' first | exact areSettings_nil | refine areSettings_cons (by decide) ?_

theorem areSettings_applyPreset (encoder preset : String) :
    AreSettings (applyPreset encoder preset) := by
  unfold applyPreset
  split_ifs <;> repeat' first | exact areSettings_nil | refine areSettings_cons (by decide) ?_

theorem areSettings_applyTune (encoder tune : String) : AreSettings (applyTune encoder tune) := by
  unfold applyTune
  split_ifs <;> repeat' first | exact areSettings_nil | refine areSettings_cons (by decide) ?_

theorem areSettings_applyHdr {encoder codec : String} {settings : TranscodeSettings}
    (h : applyHdr file action encoder codec settings = .ok parts) : AreSettings parts := by
  unfold applyHdr at h
  split at h
  · obtain rfl := Except.ok.inj h
    exact areSettings_nil
  · split_ifs at h
    · unfold applyHdrPreservation at h
      split_ifs at h
      all_goals
        obtain rfl := Except.ok.inj h
        repeat' first | exact areSettings_nil | refine areSettings_cons (by decide) ?_
    all_goals
      obtain rfl := Except.ok.inj h
      repeat' first | exact areSettings_nil | refine areSettings_cons (by decide) ?_

theorem areSettings_videoSettings (action : PlannedAction) (codec : String)
    (settings : TranscodeSettings) :
    AreSettings (videoSettings env file hwAccel action codec settings) := by
  unfold videoSettings
  refine .append (.append (.append (.append (.append ?_ ?_) ?_) ?_) ?_) ?_
  · exact areSettings_getD (areSettings_applyQuality _)
  · exact areSettings_getD (areSettings_applyPreset _)
  · exact areSettings_getD (areSettings_applyTune _)
  · exact areSettings_map (by decide)
  · cases hhdr : applyHdr file action (videoEncoder hwAccel codec settings) codec settings with
    | error e => exact areSettings_nil
    | ok hdr => exact areSettings_applyHdr hhdr
  · split
    · exact areSettings_nil
    · exact areSettings_cons (by decide) areSettings_nil

theorem AreSettings.place (h : AreSettings parts) : ∀ p ∈ parts, p.place = .added := by
  intro p hp
  obtain ⟨name, -, value, rfl⟩ := h p hp
  rfl

theorem codecParts_place : ∀ p ∈ codecParts hwAccel action, p.place = .added := by
  unfold codecParts videoCodecPart audioCodecPart
  intro p hp
  split at hp
  all_goals
    simp only [List.mem_singleton, List.not_mem_nil] at hp
    try (subst hp; cases action.trackIndex <;> rfl)

variable (env file hwAccel) in
/-- The settings of an action, with a filter only for audio. -/
theorem askedSettings_cases (action : PlannedAction) :
    ∃ settings, AreSettings settings ∧ askedSettings env file hwAccel action =
      settings ++ loudnessOption env action.trackIndex (askedLoudness action) := by
  have hnone (h : askedLoudness action = none) :
      loudnessOption env action.trackIndex (askedLoudness action) = [] := by
    simp [loudnessOption, h]
  unfold askedSettings
  split
  · rename_i codec settings hop hparams
    refine ⟨videoSettings env file hwAccel action codec settings,
      areSettings_videoSettings _ _ _, ?_⟩
    rw [hnone (by simp [askedLoudness, hop]), List.append_nil]
  · rename_i hop hparams
    exact ⟨_, areSettings_audioSettings _ _, by simp only [askedLoudness, hop, hparams]; rfl⟩
  · rename_i hop hparams
    exact ⟨_, areSettings_audioSettings _ _, by simp only [askedLoudness, hop, hparams]; rfl⟩
  · rename_i haudio hsynthesize
    refine ⟨[], areSettings_nil, ?_⟩
    rw [hnone]
    · rfl
    · unfold askedLoudness
      split
      · exact absurd ‹action.parameters = _› (haudio _ _ ‹_›)
      · exact absurd ‹action.parameters = _› (hsynthesize _ ‹_›)
      · rfl

theorem askedSettings_place :
    ∀ p ∈ askedSettings env file hwAccel action, p.place = .added := by
  obtain ⟨settings, hsettings, heq⟩ := askedSettings_cases env file hwAccel action
  rw [heq]
  intro p hp
  rcases List.mem_append.mp hp with hp | hp
  · exact hsettings.place p hp
  · simp only [loudnessOption, Option.mem_toList, Option.map_eq_some_iff] at hp
    obtain ⟨loudness, -, rfl⟩ := hp
    rfl

theorem tagParts_place : ∀ p ∈ tagParts action, p.place = .added := by
  unfold tagParts
  intro p hp
  split at hp
  · obtain rfl := List.mem_singleton.mp hp
    rfl
  · obtain ⟨tag, -, rfl⟩ := List.mem_map.mp hp
    rfl
  · obtain rfl := List.mem_singleton.mp hp
    rfl
  · cases hp

theorem addedParts_place : ∀ p ∈ addedParts env file hwAccel action, p.place = .added := by
  intro p hp
  unfold addedParts at hp
  rcases List.mem_append.mp hp with hp | hp
  · rcases List.mem_append.mp hp with hp | hp
    · exact codecParts_place p hp
    · exact askedSettings_place p hp
  · exact tagParts_place p hp

theorem mapParts_place : ∀ p ∈ mapParts file actions, p.place = .map := by
  unfold mapParts mapNonAttachmentTracks
  intro p hp
  split at hp
  · dsimp only at hp
    split at hp
    · obtain rfl := List.mem_singleton.mp hp
      rfl
    · obtain ⟨track, -, rfl⟩ := List.mem_map.mp hp
      rfl
  · obtain rfl := List.mem_singleton.mp hp
    rfl

theorem streamParts_ok {stream : OutputTrackMetadata} (h : streamParts stream = .ok parts) :
    parts = [.metadata (some stream.outputIndex) "language" stream.language,
      .metadata (some stream.outputIndex) "title" stream.title,
      .disposition stream.outputIndex stream.dispositionValue] := by
  unfold streamParts at h
  obtain ⟨-, -, h⟩ := Lib.bind_eq_ok.mp h
  obtain ⟨-, -, h⟩ := Lib.bind_eq_ok.mp h
  exact (Except.ok.inj h).symm

theorem preserved_place {preserved : List Part}
    (h : applyPreservedStreamMetadata file (excludesAttachments actions) actions = .ok preserved) :
    ∀ p ∈ preserved, p.place = .preserved := by
  unfold applyPreservedStreamMetadata at h
  dsimp only at h
  split at h
  · obtain rfl := Except.ok.inj h
    exact fun p hp => absurd hp List.not_mem_nil
  · obtain ⟨streams, -, h⟩ := Lib.bind_eq_ok.mp h
    obtain ⟨written, hwritten, h⟩ := Lib.bind_eq_ok.mp h
    obtain rfl := Except.ok.inj h
    intro p hp
    simp only [List.cons_append, List.nil_append, List.mem_cons, List.mem_flatten] at hp
    rcases hp with rfl | rfl | ⟨ofStream, hmem, hp⟩
    · rfl
    · rfl
    · obtain ⟨stream, -, hstream⟩ := Lib.mem_of_mapM hwritten hmem
      rw [streamParts_ok hstream] at hp
      simp only [List.mem_cons, List.not_mem_nil, or_false] at hp
      rcases hp with rfl | rfl | rfl <;> rfl

/-- A command is laid out place by place. -/
theorem buildFfmpegCommand_ok
    (h : buildFfmpegCommand env file hwAccel actions path = .ok command) :
    ∃ opening preserved, (∀ p ∈ opening, p.place = .opening) ∧
      applyPreservedStreamMetadata file (excludesAttachments actions) actions = .ok preserved ∧
      command = opening ++ mapParts file actions ++ [.codecCopy] ++
        actions.flatMap (addedParts env file hwAccel) ++ preserved ++ [.output path] := by
  unfold buildFfmpegCommand at h
  obtain ⟨processed, hprocessed, h⟩ := Lib.bind_eq_ok.mp h
  obtain ⟨preserved, hpreserved, h⟩ := Lib.bind_eq_ok.mp h
  obtain rfl := Except.ok.inj h
  obtain rfl := Lib.mapM_eq_map hprocessed fun a _ parts hparts => actionParts_ok hparts
  refine ⟨_, preserved, ?_, hpreserved, rfl⟩
  intro p hp
  simp only [List.mem_append, List.mem_cons, List.not_mem_nil, or_false, List.mem_map] at hp
  rcases hp with ((hp | ⟨_, -, rfl⟩) | ⟨_, -, rfl⟩) | rfl
  · rcases hp with rfl | rfl <;> rfl
  · rfl
  · rfl
  · rfl

/-! ## Reading the parts -/

section Reading

variable {β : Type} {read : Part → Option β}

theorem filterMap_of_place {place : Place} (hparts : ∀ p ∈ parts, p.place = place)
    (hread : ∀ p : Part, p.place = place → read p = none) : parts.filterMap read = [] :=
  List.filterMap_eq_nil_iff.mpr fun p hp => hread p (hparts p hp)

theorem flatMap_addedParts_place :
    ∀ p ∈ actions.flatMap (addedParts env file hwAccel), p.place = .added := by
  intro p hp
  obtain ⟨a, -, hp⟩ := List.mem_flatMap.mp hp
  exact addedParts_place p hp

theorem mapped_mapParts (file : MediaFile) (actions : List PlannedAction) :
    mapped file (mapParts file actions) = mappedTracks file actions := by
  have hall : mapped file [.mapAll] = file.tracks := List.append_nil _
  unfold mapParts mappedTracks mapNonAttachmentTracks
  generalize file.tracks.filter (·.trackType ≠ .attachment) = kept
  dsimp only
  by_cases hexcludes : excludesAttachments actions = true
  · rw [if_pos hexcludes]
    cases kept with
    | nil => simpa using hall
    | cons first rest =>
      rw [if_neg (by simp), if_pos ⟨hexcludes, by simp⟩, List.filterMap_eq_flatMap_toList]
      exact List.flatMap_map _ _ _
  · rw [if_neg hexcludes, if_neg (fun hboth => hexcludes hboth.1)]
    exact hall

variable (h : buildFfmpegCommand env file hwAccel actions path = .ok command)

include h

/-- What is read only where codecs are copied and where actions add to the command. -/
theorem lastOf_added (hread : ∀ p : Part, p.place ≠ .added → p.place ≠ .copy → read p = none) :
    lastOf read command =
      (lastOf read (actions.flatMap (addedParts env file hwAccel))).or (read .codecCopy) := by
  obtain ⟨opening, preserved, hopening, hpreserved, rfl⟩ := buildFfmpegCommand_ok h
  have hnone {place : Place} (hplace : place ≠ .added ∧ place ≠ .copy) (p : Part)
      (hp : p.place = place) : read p = none :=
    hread p (hp ▸ hplace.1) (hp ▸ hplace.2)
  have houtput : read (.output path) = none := hread _ (by simp [Part.place]) (by simp [Part.place])
  unfold lastOf
  simp only [List.filterMap_append, filterMap_of_place hopening (hnone (by decide)),
    filterMap_of_place mapParts_place (hnone (by decide)),
    filterMap_of_place (preserved_place hpreserved) (hnone (by decide)),
    List.filterMap_cons, List.filterMap_nil, houtput, List.append_nil, List.nil_append]
  rw [List.getLast?_append]
  cases hcopy : read .codecCopy with
  | none => rfl
  | some copy => rfl

/-- What is read only from the metadata of streams. -/
theorem lastOf_preserved (hread : ∀ p : Part, p.place ≠ .preserved → read p = none) :
    ∃ preserved,
      applyPreservedStreamMetadata file (excludesAttachments actions) actions = .ok preserved ∧
        lastOf read command = lastOf read preserved := by
  obtain ⟨opening, preserved, hopening, hpreserved, rfl⟩ := buildFfmpegCommand_ok h
  have hnone {place : Place} (hplace : place ≠ .preserved) (p : Part)
      (hp : p.place = place) : read p = none :=
    hread p (hp ▸ hplace)
  have houtput : read (.output path) = none := hread _ (by simp [Part.place])
  have hcopy : read .codecCopy = none := hread _ (by simp [Part.place])
  refine ⟨preserved, hpreserved, ?_⟩
  unfold lastOf
  simp only [List.filterMap_append, filterMap_of_place hopening (hnone (by decide)),
    filterMap_of_place mapParts_place (hnone (by decide)),
    filterMap_of_place flatMap_addedParts_place (hnone (by decide)),
    List.filterMap_cons, List.filterMap_nil, houtput, hcopy, List.append_nil, List.nil_append]

theorem lastOf_output : lastOf outputOf command = some path := by
  obtain ⟨opening, preserved, -, -, rfl⟩ := buildFfmpegCommand_ok h
  simp only [lastOf, List.filterMap_append]
  exact List.getLast?_concat

theorem mapped_eq : mapped file command = mappedTracks file actions := by
  obtain ⟨opening, preserved, hopening, hpreserved, rfl⟩ := buildFfmpegCommand_ok h
  have hnone {parts : List Part} {place : Place} (hparts : ∀ p ∈ parts, p.place = place)
      (hplace : place ≠ .map) : mapped file parts = [] := by
    refine List.flatMap_eq_nil_iff.mpr fun p hp => ?_
    have hp := hparts p hp
    cases p <;> first | rfl | exact absurd hp.symm hplace
  have happend (as bs : List Part) : mapped file (as ++ bs) = mapped file as ++ mapped file bs :=
    List.flatMap_append
  have hcopy : mapped file [.codecCopy] = [] := rfl
  have houtput : mapped file [.output path] = [] := rfl
  simp only [happend, hcopy, houtput, hnone hopening (by decide),
    hnone flatMap_addedParts_place (by decide), hnone (preserved_place hpreserved) (by decide),
    List.append_nil, List.nil_append]
  exact mapped_mapParts file actions

theorem mapAll_mem_iff : .mapAll ∈ command ↔ mapsEverything file actions = true := by
  obtain ⟨opening, preserved, hopening, hpreserved, rfl⟩ := buildFfmpegCommand_ok h
  have hnone {parts : List Part} {place : Place} (hparts : ∀ p ∈ parts, p.place = place)
      (hplace : place ≠ .map) : Part.mapAll ∉ parts :=
    fun hmem => hplace (hparts _ hmem).symm
  have honly : Part.mapAll ∈ mapParts file actions ↔ mapsEverything file actions = true := by
    unfold mapParts mapsEverything mapNonAttachmentTracks
    generalize file.tracks.filter (·.trackType ≠ .attachment) = kept
    cases excludesAttachments actions with
    | false => simp
    | true => cases kept <;> simp
  simp [hnone hopening (by decide), hnone flatMap_addedParts_place (by decide),
    hnone (preserved_place hpreserved) (by decide), honly]

theorem streams_eq : streams file command = plannedStreams file actions := by
  have hall : decide (.mapAll ∈ command) = mapsEverything file actions :=
    Bool.eq_iff_iff.mpr (by rw [decide_eq_true_iff, mapAll_mem_iff h])
  rw [streams, plannedStreams, mapped_eq h, hall]

end Reading

/-! ## What the actions add, read back -/

section Added

variable {β : Type} {read : Part → Option β} {stream : Stream}

theorem askedSettings_options {p : Part} (hp : p ∈ askedSettings env file hwAccel action) :
    ∃ name value, p = .option name value := by
  obtain ⟨settings, hsettings, heq⟩ := askedSettings_cases env file hwAccel action
  rw [heq] at hp
  rcases List.mem_append.mp hp with hp | hp
  · obtain ⟨name, -, value, rfl⟩ := hsettings p hp
    exact ⟨name, value, rfl⟩
  · simp only [loudnessOption, Option.mem_toList, Option.map_eq_some_iff] at hp
    obtain ⟨loudness, -, rfl⟩ := hp
    exact ⟨_, _, rfl⟩

theorem tagParts_tags {p : Part} (hp : p ∈ tagParts action) :
    ∃ key value, p = .metadata none key value := by
  unfold tagParts at hp
  split at hp
  · exact ⟨_, _, List.mem_singleton.mp hp⟩
  · obtain ⟨tag, -, rfl⟩ := List.mem_map.mp hp
    exact ⟨tag, "", rfl⟩
  · exact ⟨_, "", List.mem_singleton.mp hp⟩
  · cases hp

theorem codecParts_codecs {p : Part} (hp : p ∈ codecParts hwAccel action) :
    ∃ encoder, p = videoCodecPart action.trackIndex encoder ∨
      p = audioCodecPart action.trackIndex encoder := by
  unfold codecParts at hp
  split at hp
  · exact ⟨_, .inl (List.mem_singleton.mp hp)⟩
  · exact ⟨_, .inr (List.mem_singleton.mp hp)⟩
  · exact ⟨_, .inr (List.mem_singleton.mp hp)⟩
  · cases hp

theorem filterMap_codecParts (hvideo : ∀ n encoder, read (videoCodecPart n encoder) = none)
    (haudio : ∀ n encoder, read (audioCodecPart n encoder) = none) :
    (codecParts hwAccel action).filterMap read = [] := by
  refine List.filterMap_eq_nil_iff.mpr fun p hp => ?_
  obtain ⟨encoder, rfl | rfl⟩ := codecParts_codecs hp
  · exact hvideo _ _
  · exact haudio _ _

theorem filterMap_askedSettings (hoption : ∀ name value, read (.option name value) = none) :
    (askedSettings env file hwAccel action).filterMap read = [] := by
  refine List.filterMap_eq_nil_iff.mpr fun p hp => ?_
  obtain ⟨name, value, rfl⟩ := askedSettings_options hp
  exact hoption name value

theorem filterMap_tagParts (htag : ∀ key value, read (.metadata none key value) = none) :
    (tagParts action).filterMap read = [] := by
  refine List.filterMap_eq_nil_iff.mpr fun p hp => ?_
  obtain ⟨key, value, rfl⟩ := tagParts_tags hp
  exact htag key value

/-- What is read of the actions' parts is what the actions ask for. -/
theorem lastOf_flatMap {asked : PlannedAction → Option β}
    (h : ∀ a : PlannedAction,
      (addedParts env file hwAccel a).filterMap read = (asked a).toList) :
    lastOf read (actions.flatMap (addedParts env file hwAccel)) = lastOf asked actions := by
  unfold lastOf
  rw [List.filterMap_flatMap, List.filterMap_eq_flatMap_toList]
  simp only [h]

theorem codecFor_videoCodecPart (encoder : String) :
    codecFor stream (videoCodecPart action.trackIndex encoder) =
      if addresses .video action stream then some encoder else none := by
  unfold videoCodecPart addresses
  cases action.trackIndex with
  | none => simp [codecFor]
  | some n => simp [codecFor]

theorem codecFor_audioCodecPart (encoder : String) :
    codecFor stream (audioCodecPart action.trackIndex encoder) =
      if addresses .audio action stream then some encoder else none := by
  unfold audioCodecPart addresses
  cases action.trackIndex with
  | none => simp [codecFor]
  | some n => simp [codecFor]

theorem codecFor_addedParts (a : PlannedAction) :
    (addedParts env file hwAccel a).filterMap (codecFor stream) =
      (askedCodec hwAccel stream a).toList := by
  unfold addedParts
  rw [List.filterMap_append, List.filterMap_append, filterMap_askedSettings fun _ _ => rfl,
    filterMap_tagParts fun _ _ => rfl, List.append_nil, List.append_nil]
  have hone (p : Part) : [p].filterMap (codecFor stream) = (codecFor stream p).toList := by
    cases hp : codecFor stream p <;> simp [hp]
  unfold codecParts
  split
  · rename_i hop hparams
    simp only [askedCodec, hop, hparams, hone, codecFor_videoCodecPart]
  · rename_i hop hparams
    simp only [askedCodec, hop, hparams, hone, codecFor_audioCodecPart]
  · rename_i hop hparams
    simp only [askedCodec, hop, hparams, hone, codecFor_audioCodecPart]
  · rename_i hvideo haudio hsynthesize
    unfold askedCodec
    split
    · exact absurd ‹a.parameters = _› (hvideo _ _ ‹_›)
    · exact absurd ‹a.parameters = _› (haudio _ _ ‹_›)
    · exact absurd ‹a.parameters = _› (hsynthesize _ ‹_›)
    · rfl

theorem valueOf_addedParts (name : String) (a : PlannedAction) :
    (addedParts env file hwAccel a).filterMap (valueOf name) =
      (askedSettings env file hwAccel a).filterMap (valueOf name) := by
  unfold addedParts
  rw [List.filterMap_append, List.filterMap_append, filterMap_codecParts, filterMap_tagParts,
    List.append_nil, List.nil_append]
  · exact fun _ _ => rfl
  · exact fun n _ => by cases n <;> rfl
  · exact fun n _ => by cases n <;> rfl

theorem tagFor_addedParts (tag : String) (a : PlannedAction) :
    (addedParts env file hwAccel a).filterMap (tagFor tag) = askedTags tag a := by
  unfold addedParts
  rw [List.filterMap_append, List.filterMap_append, filterMap_codecParts, filterMap_askedSettings,
    List.nil_append, List.nil_append]
  · have hone (key value : String) : [Part.metadata none key value].filterMap (tagFor tag) =
        if toAsciiLowercase key = toAsciiLowercase tag then [value] else [] := by
      simp only [List.filterMap_cons, List.filterMap_nil, tagFor]
      split_ifs <;> rfl
    unfold tagParts
    split
    · rename_i hop hparams
      simp only [askedTags, hop, hparams, hone]
    · rename_i tags hop hparams
      simp only [askedTags, hop, hparams, List.filterMap_map]
      rw [List.filterMap_eq_flatMap_toList]
      congr 1
      funext key
      simp only [Function.comp_apply, clearMetadata, tagFor]
      split_ifs <;> rfl
    · rename_i hop hparams
      simp only [askedTags, hop, hparams, clearMetadata, hone]
    · rename_i hset hclear hdelete
      unfold askedTags
      dsimp only
      split
      · exact absurd ‹a.parameters = _› (hset _ _ ‹_›)
      · exact absurd ‹a.parameters = _› (hclear _ ‹_›)
      · exact absurd ‹a.parameters = _› (hdelete _ ‹_›)
      · rfl
  · exact fun _ _ => rfl
  · exact fun n _ => by cases n <;> rfl
  · exact fun n _ => by cases n <;> rfl

theorem toString_injective {m n : Nat} (h : toString m = toString n) : m = n := by
  rw [Nat.toString_eq_ofList_toDigits, Nat.toString_eq_ofList_toDigits] at h
  have hdigits := congrArg digitsValue (String.ofList_injective h)
  rw [digitsValue_toDigits, digitsValue_toDigits] at hdigits
  exact Option.some.inj hdigits

/-- The name of the option that gives a filter to an audio stream. -/
def filterName (n : Nat) : String := s!"-filter:a:{n}"

theorem filterName_injective {m n : Nat} (h : filterName m = filterName n) : m = n := by
  have hchars := congrArg String.toList h
  have htext (k : Nat) : filterName k = "-filter:a:" ++ toString k := rfl
  simp only [htext, String.toList_append, List.append_cancel_left_eq] at hchars
  exact toString_injective (String.toList_injective hchars)

theorem filterName_starts (n : Nat) : "-filter".toList <+: (filterName n).toList := by
  have htext : (filterName n).toList = "-filter".toList ++ (":a:".toList ++ (toString n).toList) := by
    rw [← List.append_assoc]
    exact String.toList_append
  exact ⟨_, htext.symm⟩

/-- No setting is a filter for audio. -/
theorem settingNames_not_filter {name : String} (h : name ∈ settingNames) :
    name ≠ "-af" ∧ ∀ n, name ≠ filterName n := by
  have hall : ∀ name ∈ settingNames, name ≠ "-af" ∧ ¬ "-filter".toList <+: name.toList := by decide
  refine ⟨(hall name h).1, fun n heq => (hall name h).2 ?_⟩
  rw [heq]
  exact filterName_starts n

theorem audioFilterFor_setting {name value : String} (h : name ∈ settingNames) :
    audioFilterFor stream (.option name value) = none := by
  obtain ⟨haf, hfilter⟩ := settingNames_not_filter h
  exact if_neg fun hboth => hboth.2.elim haf (hfilter _)

theorem audioFilterFor_loudnessOption (loudness : Option LoudnessNormalization) :
    (loudnessOption env action.trackIndex loudness).filterMap (audioFilterFor stream) =
      (if addresses .audio action stream then loudness.map (loudnormFilter env)
        else none).toList := by
  unfold loudnessOption addresses
  cases loudness with
  | none => simp
  | some settings =>
    cases action.trackIndex with
    | none =>
      simp only [Option.map_some, Option.toList_some, List.filterMap_cons, List.filterMap_nil,
        audioFilterFor, true_or, and_true, Option.all_none, Bool.and_true, decide_eq_true_eq]
      split_ifs <;> rfl
    | some n =>
      have haf : filterName n ≠ "-af" := by
        intro heq
        have hstarts := filterName_starts n
        rw [heq] at hstarts
        exact absurd hstarts (by decide)
      have hnumber : (filterName n = "-af" ∨ filterName n = filterName stream.number) ↔
          n = stream.number := by
        constructor
        · exact fun h => filterName_injective (h.resolve_left haf)
        · exact fun h => .inr (congrArg _ h)
      have hread : audioFilterFor stream (.option (filterName n) (loudnormFilter env settings)) =
          if stream.kind = .audio ∧ n = stream.number then some (loudnormFilter env settings)
          else none := by
        simp only [audioFilterFor, ← hnumber]
        rfl
      simp only [Option.map_some, Option.toList_some, List.filterMap_cons, List.filterMap_nil,
        Option.all_some, Bool.and_eq_true, decide_eq_true_eq]
      rw [show s!"-filter:a:{n}" = filterName n from rfl, hread]
      split_ifs <;> rfl

theorem audioFilterFor_addedParts (a : PlannedAction) :
    (addedParts env file hwAccel a).filterMap (audioFilterFor stream) =
      (askedFilter env stream a).toList := by
  obtain ⟨settings, hsettings, heq⟩ := askedSettings_cases env file hwAccel a
  have hnone : settings.filterMap (audioFilterFor stream) = [] := by
    refine List.filterMap_eq_nil_iff.mpr fun p hp => ?_
    obtain ⟨name, hname, value, rfl⟩ := hsettings p hp
    exact audioFilterFor_setting hname
  unfold addedParts
  rw [List.filterMap_append, List.filterMap_append, filterMap_codecParts, filterMap_tagParts, heq,
    List.filterMap_append, hnone, audioFilterFor_loudnessOption]
  · simp [askedFilter]
  · exact fun _ _ => rfl
  · exact fun n _ => by cases n <;> rfl
  · exact fun n _ => by cases n <;> rfl

end Added

/-! ## The whole command, read back -/

section Command

variable (h : buildFfmpegCommand env file hwAccel actions path = .ok command)

include h

theorem lastOf_codecFor (stream : Stream) :
    lastOf (codecFor stream) command =
      some ((lastOf (askedCodec hwAccel stream) actions).getD "copy") := by
  rw [lastOf_added h, lastOf_flatMap codecFor_addedParts]
  · cases lastOf (askedCodec hwAccel stream) actions <;> rfl
  · intro p hadded hcopy
    cases p <;> first | rfl | exact absurd rfl hadded | exact absurd rfl hcopy

theorem lastOf_valueOf (name : String) :
    lastOf (valueOf name) command =
      lastOf (valueOf name) (actions.flatMap (askedSettings env file hwAccel)) := by
  rw [lastOf_added h, show valueOf name .codecCopy = none from rfl, Option.or_none]
  · unfold lastOf
    simp only [List.filterMap_flatMap, valueOf_addedParts]
  · intro p hadded hcopy
    cases p <;> first | rfl | exact absurd rfl hadded

theorem lastOf_audioFilterFor (stream : Stream) :
    lastOf (audioFilterFor stream) command = lastOf (askedFilter env stream) actions := by
  rw [lastOf_added h, lastOf_flatMap audioFilterFor_addedParts]
  · exact Option.or_none
  · intro p hadded hcopy
    cases p <;> first | rfl | exact absurd rfl hadded

theorem lastOf_tagFor (tag : String) : lastOf (tagFor tag) command = lastTag actions tag := by
  rw [lastOf_added h, show tagFor tag .codecCopy = none from rfl, Option.or_none]
  · unfold lastOf lastTag
    simp only [List.filterMap_flatMap, tagFor_addedParts]
  · intro p hadded hcopy
    cases p with
    | metadata n key value =>
      cases n with
      | none => exact absurd rfl hadded
      | some n => rfl
    | _ => rfl

end Command

end

end Voom.Executors.Ffmpeg
