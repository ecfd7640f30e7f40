-- SUMMARY: When an FFmpeg command keeps the tracks of a file and adds one for every track to synthesize.
import Voom.Executors.StreamSpecifiers

/-!
# Synthesized tracks

A track to synthesize is to be one more stream, made from its source. The builder writes the
encoder and the settings of the new stream, but no `-map` for it, so they go to streams that are
there already.
-/

namespace Voom.Executors.Ffmpeg

section

variable (env : CommandEnv) (file : MediaFile) (hwAccel : Option HwAccelConfig)

/-- What the `SynthesizeAudio` actions of a plan are to make. -/
def synthesized (actions : List PlannedAction) : List SynthesizeParams :=
  actions.filterMap fun action =>
    match action.operation, action.parameters with
    | .synthesizeAudio, .synthesize params => some params
    | _, _ => none

/-- The argument is for the stream alone, or for all audio streams. -/
def Reaches (part : Part) (stream : Stream) : Prop :=
  Selects part stream ∨
    stream.kind = .audio ∧ ∃ value, part = .option "-b:a" value ∨ part = .option "-ac" value

/-- The stream is copied from its track. -/
def Copied (command : List Part) (stream : Stream) : Prop :=
  lastOf (codecFor stream) command = some "copy" ∧ lastOf (audioFilterFor stream) command = none

/-- The stream is made from the source track, with the settings that are asked for. -/
structure MadeFor (command : List Part) (stream : Stream) (params : SynthesizeParams) : Prop where
  kind : stream.kind = .audio
  source : params.sourceTrack = some stream.track.index
  codec : lastOf (codecFor stream) command = some (softwareEncoder (params.codec.getD "aac"))
  bitrate : ∀ rate, params.bitrate = some rate → lastOf (valueOf "-b:a") command = some rate
  channels : ∀ n, params.channels = some n → lastOf (valueOf "-ac") command = some (toString n)
  loudness : ∀ settings, params.loudness = some settings →
    lastOf (audioFilterFor stream) command = some (loudnormFilter env settings)

/-- The streams of the command are those kept, one for every track that is not dropped, and those
added, one for every track to synthesize. No setting of the latter reaches one of the former. -/
structure Adds (command : List Part) (actions : List PlannedAction) (kept added : List Stream) :
    Prop where
  streams : (streams file command).Perm (kept ++ added)
  once : ∀ track ∈ outputTracks file (excludesAttachments actions),
    (kept.map (·.track.index)).count track.index = 1
  copied : ∀ stream ∈ kept, Copied command stream
  made : List.Forall₂ (MadeFor env command) added (synthesized actions)
  apart : ∀ stream ∈ kept, ∀ a ∈ actions, a.operation = .synthesizeAudio →
    ∀ part ∈ addedParts env file hwAccel a, ¬ Reaches part stream

def AddsStreams (command : List Part) (actions : List PlannedAction) : Prop :=
  ∃ kept added, Adds env file hwAccel command actions kept added

/-- No action gives a mapped stream a filter, or an encoder that is not a copy. -/
def OnlyCopies (actions : List PlannedAction) : Prop :=
  ∀ stream ∈ plannedStreams file actions,
    (∀ encoder, lastOf (askedCodec hwAccel stream) actions = some encoder → encoder = "copy") ∧
      lastOf (askedFilter env stream) actions = none

end

section

variable {env : CommandEnv} {file : MediaFile} {hwAccel : Option HwAccelConfig}
  {actions : List PlannedAction} {action : PlannedAction} {command : List Part} {path : Path}
  {stream : Stream} {kept added : List Stream}

/-- Without a track to synthesize, no action is one that synthesizes. -/
theorem synthesized_eq_nil (h : synthesized actions = []) (hmem : action ∈ actions) :
    action.operation ≠ .synthesizeAudio := by
  intro hop
  have hchecked := action.checked
  have hnone := List.filterMap_eq_nil_iff.mp h action hmem
  cases hparams : action.parameters with
  | synthesize params => simp [hop, hparams] at hnone
  | _ => simp [hop, hparams, validateActionParams] at hchecked

/-- A stream is copied exactly if the actions ask for nothing else. -/
theorem copied_iff (h : buildFfmpegCommand env file hwAccel actions path = .ok command) :
    Copied command stream ↔
      (∀ encoder, lastOf (askedCodec hwAccel stream) actions = some encoder → encoder = "copy") ∧
        lastOf (askedFilter env stream) actions = none := by
  unfold Copied
  rw [lastOf_codecFor h, lastOf_audioFilterFor h]
  apply and_congr_left'
  cases lastOf (askedCodec hwAccel stream) actions <;> simp

/-- An audio stream of the output comes from a track that is not dropped. -/
theorem outputTracks_ne_nil (hstream : stream ∈ plannedStreams file actions)
    (hkind : stream.kind = .audio) : outputTracks file (excludesAttachments actions) ≠ [] := by
  have htrack := mappedTracks_subset file actions _ (track_mem_of_mem hstream)
  apply List.ne_nil_of_mem (a := stream.track)
  refine List.mem_filter.mpr ⟨htrack, ?_⟩
  have hattachment : stream.track.trackType ≠ .attachment := by
    intro htype
    rw [Stream.kind, htype] at hkind
    cases hkind
  simp [hattachment]

/-- The streams that are kept are no fewer than the tracks that are not dropped. -/
theorem Adds.length_le (hindices : (file.tracks.map (·.index)).Nodup)
    (hadds : Adds env file hwAccel command actions kept added) :
    (outputTracks file (excludesAttachments actions)).length ≤ kept.length := by
  have hnodup : ((outputTracks file (excludesAttachments actions)).map (·.index)).Nodup :=
    hindices.sublist (List.filter_sublist.map _)
  have hsubset : (outputTracks file (excludesAttachments actions)).map (·.index) ⊆
      kept.map (·.track.index) := by
    intro index hindex
    obtain ⟨track, htrack, rfl⟩ := List.mem_map.mp hindex
    exact List.count_pos_iff.mp (by rw [hadds.once track htrack]; exact Nat.one_pos)
  simpa using (List.subperm_of_subset hnodup hsubset).length_le

/-- Nothing can be added: the command maps no more streams than there are tracks. -/
theorem Adds.synthesized_eq_nil (hindices : (file.tracks.map (·.index)).Nodup)
    (h : buildFfmpegCommand env file hwAccel actions path = .ok command)
    (hadds : Adds env file hwAccel command actions kept added) : synthesized actions = [] := by
  have hstreams := hadds.streams
  rw [streams_eq h] at hstreams
  have hmade := hadds.made
  cases hparams : synthesized actions with
  | nil => rfl
  | cons params rest =>
    rw [hparams] at hmade
    obtain ⟨stream, others, hfirst, -, rfl⟩ := List.forall₂_cons_right_iff.mp hmade
    -- The first stream added is an audio stream, so some track is not dropped.
    have hstream : stream ∈ plannedStreams file actions :=
      hstreams.mem_iff.mpr (List.mem_append_right _ List.mem_cons_self)
    have houtput := outputTracks_ne_nil hstream hfirst.kind
    have hmapped := congrArg List.length (map_index_mappedTracks houtput)
    rw [← map_track_plannedStreams file actions] at hmapped
    have hall := hstreams.length_eq
    have hkept := hadds.length_le hindices
    simp only [List.length_map, List.length_append, List.length_cons] at hmapped hall
    omega

/-- A command keeps the tracks of its file and adds those to synthesize exactly if there are none
to synthesize and the other actions only copy. -/
theorem addsStreams_iff (hindices : (file.tracks.map (·.index)).Nodup)
    (h : buildFfmpegCommand env file hwAccel actions path = .ok command) :
    AddsStreams env file hwAccel command actions ↔
      synthesized actions = [] ∧ OnlyCopies env file hwAccel actions := by
  constructor
  · rintro ⟨kept, added, hadds⟩
    have hnone := hadds.synthesized_eq_nil hindices h
    have hmade := hadds.made
    rw [hnone, List.forall₂_nil_right_iff] at hmade
    have hstreams := hadds.streams
    rw [streams_eq h, hmade, List.append_nil] at hstreams
    exact ⟨hnone, fun stream hstream =>
      (copied_iff h).mp (hadds.copied stream (hstreams.mem_iff.mp hstream))⟩
  · rintro ⟨hnone, hcopies⟩
    refine ⟨streams file command, [], ?_, ?_, ?_, ?_, ?_⟩
    · rw [List.append_nil]
    · intro track htrack
      have hindex : (plannedStreams file actions).map (·.track.index) =
          (outputTracks file (excludesAttachments actions)).map (·.index) := by
        rw [← map_index_mappedTracks (List.ne_nil_of_mem htrack),
          ← map_track_plannedStreams file actions, List.map_map]
        rfl
      rw [streams_eq h, hindex]
      have hnodup : ((outputTracks file (excludesAttachments actions)).map (·.index)).Nodup :=
        hindices.sublist (List.filter_sublist.map _)
      exact List.count_eq_one_of_mem hnodup (List.mem_map_of_mem htrack)
    · intro stream hstream
      rw [streams_eq h] at hstream
      exact (copied_iff h).mpr (hcopies stream hstream)
    · rw [hnone]
      exact .nil
    · intro stream hstream a ha hop
      exact absurd hop (synthesized_eq_nil hnone ha)

end

namespace Resampled

/-- A file with one audio track. -/
def song : MediaFile :=
  { id := 1, path := ⟨["m", "song.mka"]⟩, container := .mkv
    tracks := [{ index := 0, trackType := .audioMain, codec := "flac" }] }

def stereo : PlannedAction :=
  .trackOp .synthesizeAudio 0
    (.synthesize { name := "stereo", codec := some "aac", sourceTrack := some 0 })
    "Synthesize audio: stereo"

def retitled : PlannedAction := .trackOp .setTitle 0 (.title "Song") "Set title of track 0"

def output : Path := ⟨["m", "song.voom_tmp_1.mka"]⟩

end Resampled

/-- Without a track to synthesize the only track is copied. -/
theorem retitled_song_kept :
    ∃ command, buildFfmpegCommand (idleEnv true).command Resampled.song none [Resampled.retitled]
        Resampled.output = .ok command ∧
      AddsStreams (idleEnv true).command Resampled.song none command [Resampled.retitled] := by
  obtain ⟨command, h⟩ := Lib.Succeeds.isOk_iff.mp (show (buildFfmpegCommand (idleEnv true).command
    Resampled.song none [Resampled.retitled] Resampled.output).isOk = true by decide +kernel)
  refine ⟨command, h, (addsStreams_iff (by decide) h).mpr ⟨rfl, fun stream _ => ⟨?_, ?_⟩⟩⟩
  · intro encoder hencoder
    cases hencoder
  · have hloudness : askedLoudness Resampled.retitled = none := rfl
    simp [lastOf, askedFilter, hloudness]

/-- A track to synthesize from the only track is not added to it. -/
theorem stereo_song_not_added :
    ∃ command, buildFfmpegCommand (idleEnv true).command Resampled.song none [Resampled.stereo]
        Resampled.output = .ok command ∧
      ¬ AddsStreams (idleEnv true).command Resampled.song none command [Resampled.stereo] := by
  obtain ⟨command, h⟩ := Lib.Succeeds.isOk_iff.mp (show (buildFfmpegCommand (idleEnv true).command
    Resampled.song none [Resampled.stereo] Resampled.output).isOk = true by decide +kernel)
  refine ⟨command, h, ?_⟩
  rintro ⟨kept, added, hadds⟩
  exact List.cons_ne_nil _ _ (hadds.synthesized_eq_nil (by decide) h)

end Voom.Executors.Ffmpeg
