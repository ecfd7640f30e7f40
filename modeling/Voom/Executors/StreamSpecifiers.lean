-- SUMMARY: Which streams the arguments of an FFmpeg command select, and when these are the streams they are meant for.
import Voom.Executors.Realised

/-!
# Stream specifiers

A codec or a filter for one stream is addressed by the stream's number among those of its kind,
the builder addresses it by the index of the track. Metadata and dispositions are addressed by
the place in the output, and there the builder counts the tracks that the file lists.
-/

namespace Voom.Executors.Ffmpeg

section

variable (env : CommandEnv) (file : MediaFile) (hwAccel : Option HwAccelConfig)

/-- The kind of stream that an action transcodes. -/
def transcodedKind (action : PlannedAction) : Option StreamKind :=
  match action.operation with
  | .transcodeVideo => some .video
  | .transcodeAudio => some .audio
  | _ => none

/-- The encoder of a transcode, and its filter for audio streams. -/
def streamArguments (action : PlannedAction) : List Part :=
  match action.operation, action.parameters with
  | .transcodeVideo, .transcode codec settings =>
    [videoCodecPart action.trackIndex (videoEncoder hwAccel codec settings)]
  | .transcodeAudio, .transcode codec settings =>
    [audioCodecPart action.trackIndex (softwareEncoder codec)] ++
      loudnessOption env action.trackIndex settings.loudness
  | _, _ => []

/-- FFmpeg gives what the argument says to the stream. -/
def Selects (part : Part) (stream : Stream) : Prop :=
  codecFor stream part ≠ none ∨ audioFilterFor stream part ≠ none

/-- The stream's default and forced flags, language and title are those of its track after the
edits of the plan. -/
structure ShowsTrack (command : List Part) (actions : List PlannedAction) (stream : Stream) :
    Prop where
  language : lastOf (streamTextFor stream "language") command =
    some ((lastOf (askedOf stream.track.index askedLanguage) actions).getD stream.track.language)
  title : lastOf (streamTextFor stream "title") command =
    some ((lastOf (askedOf stream.track.index askedTitle) actions).getD stream.track.title)
  flags : flagsOf command stream =
    some ((lastOf (askedOf stream.track.index askedDefault) actions).getD stream.track.isDefault,
      (lastOf (askedOf stream.track.index askedForced) actions).getD stream.track.isForced)

/-- The arguments of every transcode select the streams it is meant for, all other streams are
copied, and every stream has the metadata of its track. -/
structure HitsStreams (command : List Part) (actions : List PlannedAction) : Prop where
  intended : ∀ a ∈ actions, ∀ kind, transcodedKind a = some kind →
    ∀ part ∈ streamArguments env hwAccel a, part ∈ command ∧
      ∀ stream ∈ streams file command, Selects part stream ↔ MeantFor kind a stream
  copied : ∀ stream ∈ streams file command,
    (∀ a ∈ actions, ∀ kind, transcodedKind a = some kind → ¬ MeantFor kind a stream) →
      lastOf (codecFor stream) command = some "copy" ∧
        lastOf (audioFilterFor stream) command = none
  metadata : ∀ stream ∈ streams file command, ShowsTrack command actions stream

/-- For every transcode of a track: a mapped track has the index exactly if it is of the kind and
as many of its kind stand before it. -/
def NumbersAgree (actions : List PlannedAction) : Prop :=
  ∀ a ∈ actions, ∀ kind, transcodedKind a = some kind → ∀ index, a.trackIndex = some index →
    ∀ stream ∈ plannedStreams file actions,
      stream.track.index = index ↔ stream.kind = kind ∧ index = stream.number

/-- Language, title, default and forced flag of a track after the edits of the plan. -/
def afterEdits (actions : List PlannedAction) (track : Track) : String × String × Bool × Bool :=
  ((lastOf (askedOf track.index askedLanguage) actions).getD track.language,
    (lastOf (askedOf track.index askedTitle) actions).getD track.title,
    (lastOf (askedOf track.index askedDefault) actions).getD track.isDefault,
    (lastOf (askedOf track.index askedForced) actions).getD track.isForced)

/-- At the place of every stream, the list of tracks has one whose metadata after the edits are
those of the stream's own track. -/
def PlacesAgree (actions : List PlannedAction) : Prop :=
  ∀ stream ∈ plannedStreams file actions,
    ∃ track, (outputTracks file (excludesAttachments actions))[stream.position]? = some track ∧
      afterEdits actions track = afterEdits actions stream.track

end

section

variable {env : CommandEnv} {file : MediaFile} {hwAccel : Option HwAccelConfig}
  {actions : List PlannedAction} {action : PlannedAction} {command : List Part} {path : Path}
  {kind : StreamKind} {stream : Stream}

/-! ## What an argument selects -/

theorem loudnessOption_option {n : Option Nat} {loudness : Option LoudnessNormalization}
    {part : Part} (h : part ∈ loudnessOption env n loudness) :
    ∃ name value, part = .option name value := by
  simp only [loudnessOption, Option.mem_toList, Option.map_eq_some_iff] at h
  obtain ⟨settings, -, rfl⟩ := h
  exact ⟨_, _, rfl⟩

/-- The arguments of a transcode select the streams that its track index addresses. -/
theorem selects_iff (hkind : transcodedKind action = some kind) {part : Part}
    (hpart : part ∈ streamArguments env hwAccel action) :
    Selects part stream ↔ addresses kind action stream = true := by
  unfold streamArguments at hpart
  split at hpart
  · rename_i codec settings hop hparams
    obtain rfl : StreamKind.video = kind := by simpa [transcodedKind, hop] using hkind
    rw [List.mem_singleton.mp hpart, Selects, codecFor_videoCodecPart]
    have hfilter : ∀ n encoder, audioFilterFor stream (videoCodecPart n encoder) = none :=
      fun n _ => by cases n <;> rfl
    simp [hfilter]
  · rename_i codec settings hop hparams
    obtain rfl : StreamKind.audio = kind := by simpa [transcodedKind, hop] using hkind
    rcases List.mem_append.mp hpart with hpart | hpart
    · rw [List.mem_singleton.mp hpart, Selects, codecFor_audioCodecPart]
      have hfilter : ∀ n encoder, audioFilterFor stream (audioCodecPart n encoder) = none :=
        fun n _ => by cases n <;> rfl
      simp [hfilter]
    · -- The filter of an audio transcode is the only argument there, if it is asked for.
      have hread : (loudnessOption env action.trackIndex settings.loudness).filterMap
          (audioFilterFor stream) = _ := audioFilterFor_loudnessOption settings.loudness
      obtain ⟨name, value, rfl⟩ := loudnessOption_option hpart
      have hcodec : codecFor stream (.option name value) = none := rfl
      rw [Selects, hcodec]
      cases hloudness : settings.loudness with
      | none => simp [loudnessOption, hloudness] at hpart
      | some loudness =>
        rw [hloudness] at hpart hread
        have hone : loudnessOption env action.trackIndex (some loudness) =
            [.option name value] := congrArg (fun p => [p]) (List.mem_singleton.mp hpart).symm
        rw [hone] at hread
        cases haddresses : addresses .audio action stream <;>
          simp [haddresses, List.filterMap_cons] at hread ⊢ <;>
          split at hread <;> simp_all
  · cases hpart

/-- Every transcode has an argument. -/
theorem exists_streamArgument (hkind : transcodedKind action = some kind) :
    ∃ part, part ∈ streamArguments env hwAccel action := by
  have hchecked := action.checked
  unfold transcodedKind at hkind
  unfold streamArguments
  split at hkind
  · rename_i hop
    cases hparams : action.parameters with
    | transcode codec settings =>
      simp only [hop]
      exact ⟨_, List.mem_singleton_self _⟩
    | _ => simp [hop, hparams, validateActionParams] at hchecked
  · rename_i hop
    cases hparams : action.parameters with
    | transcode codec settings =>
      simp only [hop]
      exact ⟨_, List.mem_cons_self⟩
    | _ => simp [hop, hparams, validateActionParams] at hchecked
  · cases hkind

/-- What a transcode selects is what it is meant for exactly if the numbers agree. -/
theorem addresses_iff_meantFor :
    (addresses kind action stream = true ↔ MeantFor kind action stream) ↔
      ∀ index, action.trackIndex = some index →
        (stream.track.index = index ↔ stream.kind = kind ∧ index = stream.number) := by
  unfold addresses MeantFor
  cases action.trackIndex with
  | none => simp
  | some index =>
    simp only [Option.all_some, Bool.and_eq_true, decide_eq_true_eq, Option.some.injEq,
      forall_eq']
    exact iff_comm

/-- What a transcode adds is in the command. -/
theorem streamArguments_mem (h : buildFfmpegCommand env file hwAccel actions path = .ok command)
    (hmem : action ∈ actions) {part : Part} (hpart : part ∈ streamArguments env hwAccel action) :
    part ∈ command := by
  have hadded : part ∈ addedParts env file hwAccel action := by
    unfold addedParts codecParts askedSettings
    unfold streamArguments at hpart
    split at hpart
    · rename_i hop hparams
      simp only [hop, hparams]
      exact List.mem_append_left _ (List.mem_append_left _ hpart)
    · rename_i hop hparams
      simp only [hop, hparams]
      rcases List.mem_append.mp hpart with hpart | hpart
      · exact List.mem_append_left _ (List.mem_append_left _ hpart)
      · exact List.mem_append_left _ (List.mem_append_right _ (List.mem_append_right _ hpart))
    · cases hpart
  obtain ⟨opening, preserved, -, -, rfl⟩ := buildFfmpegCommand_ok h
  refine List.mem_append_left _ (List.mem_append_left _ (List.mem_append_right _ ?_))
  exact List.mem_flatMap.mpr ⟨action, hmem, hadded⟩

/-- A stream that no transcode addresses is copied, without a filter. -/
theorem copied_of_not_addressed
    (h : buildFfmpegCommand env file hwAccel actions path = .ok command)
    (hsynthesize : ∀ a ∈ actions, a.operation ≠ .synthesizeAudio)
    (hnone : ∀ a ∈ actions, ∀ kind, transcodedKind a = some kind →
      addresses kind a stream = false) :
    lastOf (codecFor stream) command = some "copy" ∧
      lastOf (audioFilterFor stream) command = none := by
  have hcodec : actions.filterMap (askedCodec hwAccel stream) = [] := by
    refine List.filterMap_eq_nil_iff.mpr fun a ha => ?_
    unfold askedCodec
    split
    · rename_i hop hparams
      simp [hnone a ha .video (by simp [transcodedKind, hop])]
    · rename_i hop hparams
      simp [hnone a ha .audio (by simp [transcodedKind, hop])]
    · rename_i hop hparams
      exact absurd hop (hsynthesize a ha)
    · rfl
  have hfilter : actions.filterMap (askedFilter env stream) = [] := by
    refine List.filterMap_eq_nil_iff.mpr fun a ha => ?_
    unfold askedFilter askedLoudness
    split
    · rename_i haddresses
      split
      · rename_i hop hparams
        rw [hnone a ha .audio (by simp [transcodedKind, hop])] at haddresses
        cases haddresses
      · rename_i hop hparams
        exact absurd hop (hsynthesize a ha)
      · rfl
    · rfl
  rw [lastOf_codecFor h, lastOf_audioFilterFor h, lastOf, lastOf, hcodec, hfilter]
  exact ⟨rfl, rfl⟩

/-! ## Metadata by place -/

/-- The mapped tracks are tracks of the file. -/
theorem mappedTracks_subset (file : MediaFile) (actions : List PlannedAction) :
    ∀ track ∈ mappedTracks file actions, track ∈ file.tracks := by
  intro track htrack
  unfold mappedTracks at htrack
  dsimp only at htrack
  split at htrack
  · obtain ⟨t, -, hfind⟩ := List.mem_filterMap.mp htrack
    exact List.mem_of_find?_eq_some hfind
  · exact htrack

theorem map_track_plannedStreams (file : MediaFile) (actions : List PlannedAction) :
    (plannedStreams file actions).map (·.track) = mappedTracks file actions := by
  apply List.ext_getElem
  · simp [plannedStreams, streamsOf]
  · simp [plannedStreams, streamsOf]

theorem track_mem_of_mem (hstream : stream ∈ plannedStreams file actions) :
    stream.track ∈ mappedTracks file actions := by
  rw [← map_track_plannedStreams file actions]
  exact List.mem_map_of_mem hstream

/-- A stream shows its track exactly if the track at its place in the list has the same metadata. -/
theorem showsTrack_iff (hindices : (file.tracks.map (·.index)).Nodup)
    (h : buildFfmpegCommand env file hwAccel actions path = .ok command) :
    ShowsTrack command actions stream ↔
      ∃ track, (outputTracks file (excludesAttachments actions))[stream.position]? = some track ∧
        afterEdits actions track = afterEdits actions stream.track := by
  obtain ⟨htitle, hlanguage⟩ := shows_texts hindices h
  obtain ⟨hdefault, hforced⟩ := shows_flags hindices h
  simp only [Shows] at htitle hlanguage hdefault hforced
  have hflags (b b' : Bool) : flagsOf command stream = some (b, b') ↔
      (flagsOf command stream).map (·.1) = some b ∧ (flagsOf command stream).map (·.2) = some b' := by
    cases flagsOf command stream <;> simp [Prod.ext_iff]
  have hshown : ShowsTrack command actions stream ↔
      lastOf (streamTextFor stream "language") command = some (afterEdits actions stream.track).1 ∧
        lastOf (streamTextFor stream "title") command = some (afterEdits actions stream.track).2.1 ∧
        flagsOf command stream = some (afterEdits actions stream.track).2.2 :=
    ⟨fun hshows => ⟨hshows.language, hshows.title, hshows.flags⟩,
      fun ⟨hlanguage, htitle, hflags⟩ => ⟨hlanguage, htitle, hflags⟩⟩
  rw [hshown, hflags, hlanguage, htitle, hdefault, hforced]
  cases (outputTracks file (excludesAttachments actions))[stream.position]? with
  | none => simp
  | some track =>
    simp only [Option.some.injEq, exists_eq_left']
    rw [@field_editedFor _ (·.language) askedLanguage fun _ _ => rfl,
      @field_editedFor _ (·.title) askedTitle fun _ _ => rfl,
      @field_editedFor _ (·.isDefault) askedDefault fun _ _ => rfl,
      @field_editedFor _ (·.isForced) askedForced fun _ _ => rfl]
    simp only [afterEdits, Prod.mk.injEq, OutputTrackMetadata.fromTrack]

/-! ## When the streams are hit -/

/-- Where the streams are hit, the numbers of the transcodes are those of their streams. -/
theorem HitsStreams.numbersAgree
    (h : buildFfmpegCommand env file hwAccel actions path = .ok command)
    (hhits : HitsStreams env file hwAccel command actions) : NumbersAgree file actions := by
  intro a ha kind hkind index hindex stream hstream
  obtain ⟨part, hpart⟩ : ∃ part, part ∈ streamArguments env hwAccel a :=
    exists_streamArgument hkind
  have hselects := (hhits.intended a ha kind hkind part hpart).2 stream
  rw [streams_eq h] at hselects
  -- What selects the stream is the number, what it is meant for is the index.
  have haddresses := (selects_iff hkind hpart).symm.trans (hselects hstream)
  exact addresses_iff_meantFor.mp haddresses index hindex

/-- Where the numbers and the places agree, the streams are hit. -/
theorem hitsStreams_of_numbersAgree (hindices : (file.tracks.map (·.index)).Nodup)
    (hsynthesize : ∀ a ∈ actions, a.operation ≠ .synthesizeAudio)
    (h : buildFfmpegCommand env file hwAccel actions path = .ok command)
    (hnumbers : NumbersAgree file actions) (hplaces : PlacesAgree file actions) :
    HitsStreams env file hwAccel command actions := by
  have haddresses {a : PlannedAction} (ha : a ∈ actions) {kind : StreamKind}
      (hkind : transcodedKind a = some kind) {stream : Stream}
      (hstream : stream ∈ plannedStreams file actions) :
      addresses kind a stream = true ↔ MeantFor kind a stream :=
    addresses_iff_meantFor.mpr fun index hindex =>
      hnumbers a ha kind hkind index hindex stream hstream
  refine ⟨?_, ?_, ?_⟩
  · intro a ha kind hkind part hpart
    refine ⟨streamArguments_mem h ha hpart, fun stream hstream => ?_⟩
    rw [streams_eq h] at hstream
    exact (selects_iff hkind hpart).trans (haddresses ha hkind hstream)
  · intro stream hstream hnone
    rw [streams_eq h] at hstream
    apply copied_of_not_addressed h hsynthesize
    intro a ha kind hkind
    exact Bool.eq_false_iff.mpr fun htrue =>
      hnone a ha kind hkind ((haddresses ha hkind hstream).mp htrue)
  · intro stream hstream
    rw [streams_eq h] at hstream
    exact (showsTrack_iff hindices h).mpr (hplaces stream hstream)

/-- The arguments hit the streams they are meant for exactly if the index of every track to
transcode is the number of its stream among those of the kind, and is no other's, and the metadata
at every place are those of the track there. -/
theorem hitsStreams_iff (hindices : (file.tracks.map (·.index)).Nodup)
    (hsynthesize : ∀ a ∈ actions, a.operation ≠ .synthesizeAudio)
    (h : buildFfmpegCommand env file hwAccel actions path = .ok command) :
    HitsStreams env file hwAccel command actions ↔
      NumbersAgree file actions ∧ PlacesAgree file actions :=
  ⟨fun hhits => ⟨hhits.numbersAgree h, fun stream hstream =>
      (showsTrack_iff hindices h).mp (hhits.metadata stream (by rwa [streams_eq h]))⟩,
    fun hboth => hitsStreams_of_numbersAgree hindices hsynthesize h hboth.1 hboth.2⟩

end

namespace Reencoded

def audioTranscode : PlannedAction :=
  .trackOp .transcodeAudio 1 (.transcode "opus" {}) "Transcode audio track 1 from aac to opus"

def output : Path := ⟨["m", "film.voom_tmp_1.mkv"]⟩

def soundtrack : Track := { index := 1, trackType := .audioMain, codec := "aac" }

/-- The streams of the film. -/
def filmStreams : List Stream :=
  [⟨0, { index := 0, trackType := .video, codec := "h264" }, 0⟩, ⟨1, soundtrack, 0⟩]

end Reencoded

/-- The only video track comes first. -/
theorem firstTrack_hit :
    ∃ command, buildFfmpegCommand Reencoded.env.command Reencoded.film none [Reencoded.transcode]
        Reencoded.output = .ok command ∧
      HitsStreams Reencoded.env.command Reencoded.film none command [Reencoded.transcode] := by
  obtain ⟨command, h⟩ := Lib.Succeeds.isOk_iff.mp (show (buildFfmpegCommand Reencoded.env.command
    Reencoded.film none [Reencoded.transcode] Reencoded.output).isOk = true by decide +kernel)
  refine ⟨command, h, (hitsStreams_iff (by decide) (by decide) h).mpr ⟨?_, fun stream hstream => ?_⟩⟩
  · intro a ha kind hkind index hindex stream hstream
    obtain rfl := List.mem_singleton.mp ha
    obtain rfl := Option.some.inj hkind
    obtain rfl := Option.some.inj hindex
    have hstream : stream ∈ Reencoded.filmStreams := hstream
    rcases List.mem_pair.mp hstream with rfl | rfl <;> decide
  · have hstream : stream ∈ Reencoded.filmStreams := hstream
    rcases List.mem_pair.mp hstream with rfl | rfl <;> exact ⟨_, rfl, rfl⟩

/-- The only audio track comes second: the encoder is for the second audio stream, so the audio
stream is copied. -/
theorem secondTrack_missed :
    ∃ command, buildFfmpegCommand Reencoded.env.command Reencoded.film none
        [Reencoded.audioTranscode] Reencoded.output = .ok command ∧
      ¬ HitsStreams Reencoded.env.command Reencoded.film none command
        [Reencoded.audioTranscode] := by
  obtain ⟨command, h⟩ := Lib.Succeeds.isOk_iff.mp (show (buildFfmpegCommand Reencoded.env.command
    Reencoded.film none [Reencoded.audioTranscode] Reencoded.output).isOk = true by decide +kernel)
  refine ⟨command, h, fun hhits => ?_⟩
  have hstream : ⟨1, Reencoded.soundtrack, 0⟩ ∈
      plannedStreams Reencoded.film [Reencoded.audioTranscode] :=
    List.mem_of_mem_tail (List.mem_singleton_self _)
  -- The track of the second stream has the index 1, and no audio stream stands before it.
  have hagree := hhits.numbersAgree h Reencoded.audioTranscode (List.mem_singleton_self _) .audio
    rfl 1 rfl _ hstream
  exact absurd (hagree.mp rfl).2 (by decide)

end Voom.Executors.Ffmpeg
