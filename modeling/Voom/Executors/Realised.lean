-- SUMMARY: When an FFmpeg command does what the actions of a plan ask for, and what the executor reports as done.
import Voom.Executors.ContainerTarget
import Voom.Executors.Reorder
import Voom.Executors.StreamEdits

/-!
# What an FFmpeg command realises

A plan may mix actions that the builder knows with actions that it only warns about, and the
execution reports them all as successful. Numbers in stream specifiers are track indices, where
FFmpeg counts the streams of a kind.
-/

namespace Voom.Executors.Ffmpeg

/-! ## What it takes to realise an action -/

section

variable (env : CommandEnv) (file : MediaFile) (hwAccel : Option HwAccelConfig)

/-- The streams that an action is meant for: that of its track, or without a track all of the
kind. -/
def MeantFor (kind : StreamKind) (action : PlannedAction) (stream : Stream) : Prop :=
  match action.trackIndex with
  | some index => stream.track.index = index
  | none => stream.kind = kind

section Realises

variable (command : List Part)

/-- The streams that an encode is meant for are there and get the encoder, and the settings are in
effect. -/
structure Encodes (kind : StreamKind) (encoder : String) (settings : List Part)
    (action : PlannedAction) : Prop where
  there : ∀ index, action.trackIndex = some index →
    ∃ stream ∈ streams file command, stream.track.index = index
  codec : ∀ stream ∈ streams file command, MeantFor kind action stream →
    lastOf (codecFor stream) command = some encoder
  settings : ∀ name value, .option name value ∈ settings →
    lastOf (valueOf name) command = some value

/-- The loudness filter is on the streams it is meant for. -/
def Normalizes (loudness : Option LoudnessNormalization) (action : PlannedAction) : Prop :=
  ∀ settings, loudness = some settings → ∀ stream ∈ streams file command,
    MeantFor .audio action stream →
      lastOf (audioFilterFor stream) command = some (loudnormFilter env settings)

/-- The stream of the action's track is there and is as it should be. -/
def OnStream (action : PlannedAction) (p : Stream → Prop) : Prop :=
  ∃ index stream, action.trackIndex = some index ∧
    streamOf (streams file command) index = some stream ∧ p stream

def flagsOf (stream : Stream) : Option (Bool × Bool) :=
  (lastOf (dispositionFor stream) command).bind readDisposition

/-- The command does what the action asks for. A synthesized track is one more stream than the
file has tracks; verification and quarantine are not for a command of FFmpeg. -/
def Realises (action : PlannedAction) : Prop :=
  match action.operation, action.parameters with
  | .setDefault, _ => OnStream file command action fun s => (flagsOf command s).map (·.1) = some true
  | .clearDefault, _ =>
    OnStream file command action fun s => (flagsOf command s).map (·.1) = some false
  | .setForced, _ => OnStream file command action fun s => (flagsOf command s).map (·.2) = some true
  | .clearForced, _ =>
    OnStream file command action fun s => (flagsOf command s).map (·.2) = some false
  | .setTitle, .title title =>
    OnStream file command action fun s => lastOf (streamTextFor s "title") command = some title
  | .setLanguage, .language language =>
    OnStream file command action fun s =>
      lastOf (streamTextFor s "language") command = some language
  | .setContainerTag, .setTag tag value => lastOf (tagFor tag) command = some value
  | .deleteContainerTag, .deleteTag tag => lastOf (tagFor tag) command = some ""
  | .clearContainerTags, .clearTags tags => ∀ tag ∈ tags, lastOf (tagFor tag) command = some ""
  | .convertContainer, .container container =>
    ∃ path, lastOf outputOf command = some path ∧ path.extension = some container.asStr
  | .transcodeVideo, .transcode codec settings =>
    Encodes file command .video (videoEncoder hwAccel codec settings)
      (videoSettings env file hwAccel action codec settings) action
  | .transcodeAudio, .transcode codec settings =>
    Encodes file command .audio (softwareEncoder codec)
      (audioSettings settings.bitrate (settings.channels.bind TranscodeChannels.toCount)) action ∧
      Normalizes env file command settings.loudness action
  | .synthesizeAudio, _ => file.tracks.length < (mapped file command).length
  | .removeTrack, _ => ∀ track ∈ mapped file command, action.trackIndex ≠ some track.index
  | .reorderTracks, .reorderTracks order => (mapped file command).Pairwise (Mkvtoolnix.Precedes order)
  | _, _ => False

end Realises

/-! ## What the builder heeds -/

/-- Operations that the builder warns about and leaves out. -/
def ignoredOps : List OperationType :=
  [.removeTrack, .reorderTracks, .muxSubtitle, .verifyMedia, .quarantine]

/-- The `-map` arguments select the tracks that are not removed, attachments aside when a video
transcode is present. -/
def SelectsKept (command : List Part) (actions : List PlannedAction) : Prop :=
  ∀ track ∈ file.tracks, (excludesAttachments actions = true → track.trackType ≠ .attachment) →
    (track.index ∈ (mapped file command).map (·.index) ↔
      ∀ a ∈ actions, a.operation = .removeTrack → a.trackIndex ≠ some track.index)

/-- Every action is realised, the tracks are selected and nothing is left out. -/
structure Honours (command : List Part) (actions : List PlannedAction) : Prop where
  realised : ∀ a ∈ actions, Realises env file hwAccel command a
  selected : SelectsKept file command actions
  heeded : ∀ a ∈ actions, a.operation ∉ ignoredOps

/-! ## The condition -/

section Honourable

variable (actions : List PlannedAction)

/-- The numbers that the actions give hit the streams that the encode is meant for, and no later
action asks for another encoder or another value of a setting. -/
structure Encodable (kind : StreamKind) (encoder : String) (settings : List Part)
    (action : PlannedAction) : Prop where
  there : ∀ index, action.trackIndex = some index →
    ∃ stream ∈ plannedStreams file actions, stream.track.index = index
  codec : ∀ stream ∈ plannedStreams file actions, MeantFor kind action stream →
    (lastOf (askedCodec hwAccel stream) actions).getD "copy" = encoder
  settings : ∀ name value, .option name value ∈ settings →
    lastOf (valueOf name) (actions.flatMap (askedSettings env file hwAccel)) = some value

def Normalizable (loudness : Option LoudnessNormalization) (action : PlannedAction) : Prop :=
  ∀ settings, loudness = some settings → ∀ stream ∈ plannedStreams file actions,
    MeantFor .audio action stream →
      lastOf (askedFilter env stream) actions = some (loudnormFilter env settings)

/-- The track is mapped, and the one at its place in the list has the value once all actions are
applied: it is that track itself and no later action undoes the edit, or another that happens to
have the value. -/
def Editable {β : Type} (ask : PlannedAction → Option β) (field : Track → β) (value : β)
    (action : PlannedAction) : Prop :=
  ∃ index stream track, action.trackIndex = some index ∧
    streamOf (plannedStreams file actions) index = some stream ∧
    (outputTracks file (excludesAttachments actions))[stream.position]? = some track ∧
    (lastOf (askedOf track.index ask) actions).getD (field track) = value

def Honourable (action : PlannedAction) : Prop :=
  match action.operation, action.parameters with
  | .setDefault, _ => Editable file actions askedDefault (·.isDefault) true action
  | .clearDefault, _ => Editable file actions askedDefault (·.isDefault) false action
  | .setForced, _ => Editable file actions askedForced (·.isForced) true action
  | .clearForced, _ => Editable file actions askedForced (·.isForced) false action
  | .setTitle, .title title => Editable file actions askedTitle (·.title) title action
  | .setLanguage, .language language =>
    Editable file actions askedLanguage (·.language) language action
  | .setContainerTag, .setTag tag value => lastTag actions tag = some value
  | .deleteContainerTag, .deleteTag tag => lastTag actions tag = some ""
  | .clearContainerTags, .clearTags tags => ∀ tag ∈ tags, lastTag actions tag = some ""
  | .convertContainer, .container container => firstTarget actions = some container
  | .transcodeVideo, .transcode codec settings =>
    Encodable env file hwAccel actions .video (videoEncoder hwAccel codec settings)
      (videoSettings env file hwAccel action codec settings) action
  | .transcodeAudio, .transcode codec settings =>
    Encodable env file hwAccel actions .audio (softwareEncoder codec)
      (audioSettings settings.bitrate (settings.channels.bind TranscodeChannels.toCount)) action ∧
      Normalizable env file actions settings.loudness action
  | _, _ => False

end Honourable

/-! ## When the actions are realised -/

variable {env file hwAccel} {actions : List PlannedAction} {action : PlannedAction}
  {command : List Part} {path : Path}

/-- What can be said of a stream once the metadata are written: what the track at its place in the
list has. -/
def Shows {γ : Type} (file : MediaFile) (actions : List PlannedAction)
    (field : OutputTrackMetadata → γ) (v : γ) (p : Stream → Prop) : Prop :=
  ∀ stream, p stream ↔
    ∃ track, (outputTracks file (excludesAttachments actions))[stream.position]? = some track ∧
      field (editedFor track.index actions (.fromTrack stream.position track)) = v

/-- An edit is realised exactly if its track is mapped and the one at its place has the value. -/
theorem onStream_iff {γ : Type} {field : OutputTrackMetadata → γ} {own : Track → γ}
    {ask : PlannedAction → Option γ} {v : γ} {p : Stream → Prop}
    (h : buildFfmpegCommand env file hwAccel actions path = .ok command)
    (hfield : ∀ a s, field (editedBy a s) = (ask a).getD (field s))
    (hown : ∀ i track, field (.fromTrack i track) = own track)
    (hshows : Shows file actions field v p) :
    OnStream file command action p ↔ Editable file actions ask own v action := by
  unfold OnStream Editable
  rw [streams_eq h]
  constructor
  · rintro ⟨index, stream, hindex, hstream, hp⟩
    obtain ⟨track, htrack, hv⟩ := (hshows stream).mp hp
    rw [field_editedFor hfield, hown] at hv
    exact ⟨index, stream, track, hindex, hstream, htrack, hv⟩
  · rintro ⟨index, stream, track, hindex, hstream, htrack, hv⟩
    refine ⟨index, stream, hindex, hstream, (hshows stream).mpr ⟨track, htrack, ?_⟩⟩
    rw [field_editedFor hfield, hown]
    exact hv

theorem shows_flags (hindices : (file.tracks.map (·.index)).Nodup)
    (h : buildFfmpegCommand env file hwAccel actions path = .ok command) :
    (∀ b, Shows file actions (·.isDefault) b fun s => (flagsOf command s).map (·.1) = some b) ∧
      ∀ b, Shows file actions (·.isForced) b fun s => (flagsOf command s).map (·.2) = some b := by
  have hstream (place : Stream) := lastOf_stream hindices h
    (fun p hp => by cases p <;> first | rfl | exact absurd rfl hp) ⟨rfl, rfl⟩
    (filterMap_dispositionFor place)
  constructor
  all_goals
    intro b place
    simp only [flagsOf, hstream place]
    cases (outputTracks file (excludesAttachments actions))[place.position]? with
    | none => simp
    | some track => simp [readDisposition_dispositionValue]

theorem shows_texts (hindices : (file.tracks.map (·.index)).Nodup)
    (h : buildFfmpegCommand env file hwAccel actions path = .ok command) :
    (∀ text, Shows file actions (·.title) text
        fun s => lastOf (streamTextFor s "title") command = some text) ∧
      ∀ text, Shows file actions (·.language) text
        fun s => lastOf (streamTextFor s "language") command = some text := by
  have hpreserved (place : Stream) (key : String) (p : Part) (hp : p.place ≠ .preserved) :
      streamTextFor place key p = none := by
    cases p with
    | metadata n k value =>
      cases n with
      | none => rfl
      | some n => exact absurd rfl hp
    | _ => rfl
  constructor
  · intro text place
    dsimp only
    rw [lastOf_stream hindices h (hpreserved place "title") ⟨rfl, rfl⟩ (filterMap_title place)]
    exact Option.map_eq_some_iff
  · intro text place
    dsimp only
    rw [lastOf_stream hindices h (hpreserved place "language") ⟨rfl, rfl⟩
      (filterMap_language place)]
    exact Option.map_eq_some_iff

section Realised

variable (h : buildFfmpegCommand env file hwAccel actions path = .ok command)

include h

theorem encodes_iff {kind : StreamKind} {encoder : String} {settings : List Part} :
    Encodes file command kind encoder settings action ↔
      Encodable env file hwAccel actions kind encoder settings action := by
  constructor
  · intro hencodes
    refine ⟨?_, ?_, ?_⟩
    · simpa only [streams_eq h] using hencodes.there
    · intro stream hstream hmeant
      have hcodec := hencodes.codec stream (by rwa [streams_eq h]) hmeant
      rw [lastOf_codecFor h] at hcodec
      exact Option.some.inj hcodec
    · intro name value hmem
      rw [← lastOf_valueOf h]
      exact hencodes.settings name value hmem
  · intro hencodable
    refine ⟨?_, ?_, ?_⟩
    · simpa only [streams_eq h] using hencodable.there
    · intro stream hstream hmeant
      rw [streams_eq h] at hstream
      rw [lastOf_codecFor h, hencodable.codec stream hstream hmeant]
    · intro name value hmem
      rw [lastOf_valueOf h]
      exact hencodable.settings name value hmem

theorem normalizes_iff {loudness : Option LoudnessNormalization} :
    Normalizes env file command loudness action ↔
      Normalizable env file actions loudness action := by
  unfold Normalizes Normalizable
  simp only [streams_eq h, lastOf_audioFilterFor h]

theorem convert_iff {container : Container} (hmem : action ∈ actions)
    (hop : action.operation = .convertContainer) (hparams : action.parameters = .container container)
    (hpath : path.extension = some (outputExtension file actions)) :
    (∃ p, lastOf outputOf command = some p ∧ p.extension = some container.asStr) ↔
      firstTarget actions = some container := by
  have hsome : firstTarget actions ≠ none := by
    unfold firstTarget
    rw [Ne, List.findSome?_eq_none_iff]
    intro hnone
    have := hnone action hmem
    simp [hop, hparams] at this
  rw [lastOf_output h]
  constructor
  · rintro ⟨p, hp, hext⟩
    obtain rfl := Option.some.inj hp
    rw [hpath, Option.some.injEq, outputExtension_eq_asStr_iff] at hext
    exact hext.resolve_right fun hnone => hsome hnone.1
  · intro htarget
    exact ⟨path, rfl, by rw [hpath, (outputExtension_eq_asStr_iff _ _).mpr (.inl htarget)]⟩

omit h in
theorem length_mappedTracks (file : MediaFile) (actions : List PlannedAction) :
    (mappedTracks file actions).length ≤ file.tracks.length := by
  unfold mappedTracks
  dsimp only
  split_ifs
  · exact (List.length_filterMap_le _ _).trans (List.length_filter_le _ _)
  · exact le_rfl

/-- An action is realised and not left out exactly under its condition. -/
theorem realises_iff (hindices : (file.tracks.map (·.index)).Nodup) (hmem : action ∈ actions)
    (hpath : path.extension = some (outputExtension file actions)) :
    (Realises env file hwAccel command action ∧ action.operation ∉ ignoredOps) ↔
      Honourable env file hwAccel actions action := by
  have hchecked := action.checked
  cases hop : action.operation with
  | setDefault =>
    rw [and_iff_left (by decide)]
    simp only [Realises, Honourable, hop]
    exact onStream_iff h (fun a s => rfl) (fun _ _ => rfl) ((shows_flags hindices h).1 true)
  | clearDefault =>
    rw [and_iff_left (by decide)]
    simp only [Realises, Honourable, hop]
    exact onStream_iff h (fun a s => rfl) (fun _ _ => rfl) ((shows_flags hindices h).1 false)
  | setForced =>
    rw [and_iff_left (by decide)]
    simp only [Realises, Honourable, hop]
    exact onStream_iff h (fun a s => rfl) (fun _ _ => rfl) ((shows_flags hindices h).2 true)
  | clearForced =>
    rw [and_iff_left (by decide)]
    simp only [Realises, Honourable, hop]
    exact onStream_iff h (fun a s => rfl) (fun _ _ => rfl) ((shows_flags hindices h).2 false)
  | setTitle =>
    cases hparams : action.parameters with
    | title text =>
      rw [and_iff_left (by decide)]
      simp only [Realises, Honourable, hop, hparams]
      exact onStream_iff h (fun a s => rfl) (fun _ _ => rfl) ((shows_texts hindices h).1 text)
    | _ => simp [hop, hparams, validateActionParams] at hchecked
  | setLanguage =>
    cases hparams : action.parameters with
    | language text =>
      rw [and_iff_left (by decide)]
      simp only [Realises, Honourable, hop, hparams]
      exact onStream_iff h (fun a s => rfl) (fun _ _ => rfl) ((shows_texts hindices h).2 text)
    | _ => simp [hop, hparams, validateActionParams] at hchecked
  | setContainerTag =>
    cases hparams : action.parameters with
    | setTag tag value =>
      rw [and_iff_left (by decide)]
      simp only [Realises, Honourable, hop, hparams, lastOf_tagFor h]
    | _ => simp [hop, hparams, validateActionParams] at hchecked
  | clearContainerTags =>
    cases hparams : action.parameters with
    | clearTags tags =>
      rw [and_iff_left (by decide)]
      simp only [Realises, Honourable, hop, hparams, lastOf_tagFor h]
    | _ => simp [hop, hparams, validateActionParams] at hchecked
  | deleteContainerTag =>
    cases hparams : action.parameters with
    | deleteTag tag =>
      rw [and_iff_left (by decide)]
      simp only [Realises, Honourable, hop, hparams, lastOf_tagFor h]
    | _ => simp [hop, hparams, validateActionParams] at hchecked
  | convertContainer =>
    cases hparams : action.parameters with
    | container container =>
      rw [and_iff_left (by decide)]
      simp only [Realises, Honourable, hop, hparams]
      exact convert_iff h hmem hop hparams hpath
    | _ => simp [hop, hparams, validateActionParams] at hchecked
  | transcodeVideo =>
    cases hparams : action.parameters with
    | transcode codec settings =>
      rw [and_iff_left (by decide)]
      simp only [Realises, Honourable, hop, hparams]
      exact encodes_iff h
    | _ => simp [hop, hparams, validateActionParams] at hchecked
  | transcodeAudio =>
    cases hparams : action.parameters with
    | transcode codec settings =>
      rw [and_iff_left (by decide)]
      simp only [Realises, Honourable, hop, hparams]
      exact and_congr (encodes_iff h) (normalizes_iff h)
    | _ => simp [hop, hparams, validateActionParams] at hchecked
  | synthesizeAudio =>
    -- No command maps more streams than there are tracks.
    have hlength := length_mappedTracks file actions
    simp only [Realises, Honourable, hop, mapped_eq h, iff_false]
    exact fun hboth => absurd hboth.1 (by omega)
  | removeTrack | reorderTracks | muxSubtitle | verifyMedia | quarantine =>
    simp only [Honourable, hop, iff_false]
    exact fun hboth => hboth.2 (by decide)

/-- A command honours its actions exactly if each of them meets its condition. -/
theorem honours_iff (hindices : (file.tracks.map (·.index)).Nodup)
    (hpath : path.extension = some (outputExtension file actions)) :
    Honours env file hwAccel command actions ↔
      ∀ a ∈ actions, Honourable env file hwAccel actions a := by
  constructor
  · intro hhonours a ha
    exact (realises_iff h hindices ha hpath).mp ⟨hhonours.realised a ha, hhonours.heeded a ha⟩
  · intro hall
    have hboth := fun a ha => (realises_iff h hindices ha hpath).mpr (hall a ha)
    refine ⟨fun a ha => (hboth a ha).1, ?_, fun a ha => (hboth a ha).2⟩
    intro track htrack hkept
    -- Nothing is removed, so the track has to be mapped.
    have hnone : ∀ a ∈ actions, a.operation = .removeTrack → a.trackIndex ≠ some track.index :=
      fun a ha hop => absurd (hop ▸ (hboth a ha).2) (by decide)
    refine iff_of_true ?_ hnone
    have hout : track ∈ outputTracks file (excludesAttachments actions) := by
      refine List.mem_filter.mpr ⟨htrack, ?_⟩
      cases hexcludes : excludesAttachments actions with
      | false => rfl
      | true => simpa using hkept hexcludes
    rw [mapped_eq h, map_index_mappedTracks (List.ne_nil_of_mem hout)]
    exact List.mem_map_of_mem hout

end Realised

end

/-! ## Plans that are claimed -/

/-- The name of a file after its last dot. -/
theorem extension_join_dot (dir : Path) {stem ext : String} (hstem : stem ≠ "")
    (hdot : '.' ∉ ext.toList) : (dir.join (stem ++ "." ++ ext)).extension = some ext := by
  have hchars : (stem ++ "." ++ ext).toList = stem.toList ++ '.' :: ext.toList := by
    rw [String.toList_append, String.toList_append, List.append_assoc]
    rfl
  have htake : ((stem.toList ++ '.' :: ext.toList).reverse.takeWhile (· ≠ '.')).reverse =
      ext.toList := by
    rw [List.reverse_append, List.reverse_cons, List.append_assoc]
    rw [List.takeWhile_append_of_pos (by
      intro c hc
      simp only [decide_not, Bool.not_eq_true', decide_eq_false_iff_not]
      rintro rfl
      exact hdot (List.mem_reverse.mp hc))]
    simp
  have hlength : (stem.toList ++ '.' :: ext.toList).length - ext.toList.length - 1 =
      stem.toList.length := by
    simp only [List.length_append, List.length_cons]
    omega
  unfold Path.extension
  rw [Path.fileName_join]
  simp only [Option.bind_some, Path.splitExtension, hchars, htake, hlength]
  rw [List.take_left', if_neg]
  · simp
  · simp only [List.length_append, List.length_cons, not_or]
    exact ⟨by omega, fun hnil => hstem (String.toList_injective (by simpa using hnil))⟩
  · rfl

theorem outputExtension_dotless (file : MediaFile) (actions : List PlannedAction) :
    '.' ∉ (outputExtension file actions).toList := by
  rcases outputExtension_cases file actions with ⟨made, hmade⟩ | hown
  · rw [hmade]
    cases made <;> decide
  · unfold Path.extension at hown
    obtain ⟨name, -, hext⟩ := Option.bind_eq_some_iff.mp hown
    exact (splitExtension_some hext).2

theorem tempPathWithExt_extension (path : Path) (id : String) {ext : String}
    (hdot : '.' ∉ ext.toList) : (tempPathWithExt path id ext).extension = some ext := by
  unfold tempPathWithExt
  refine extension_join_dot _ (fun hnil => ?_) hdot
  have hlength := congrArg (fun s : String => s.toList.length) hnil
  have hmarker : ".voom_tmp_".toList.length = 10 := rfl
  have hempty : "".toList.length = 0 := rfl
  simp only [String.toList_append, List.length_append] at hlength
  omega

/-- The hardware that a command may use. -/
def RunEnv.hw (env : RunEnv) : Option HwAccelConfig :=
  if env.hwAccel.enabled then some env.hwAccel else none

section

variable {config : Config} {env : RunEnv} {plan : Plan} {job : Job}

theorem startJob_command (h : startJob env plan = .ok job) :
    prepareActions env plan = .ok job.actions ∧
      buildFfmpegCommand env.command plan.file env.hw job.actions job.outputPath =
        .ok job.command ∧
      job.outputPath.extension = some (outputExtension plan.file job.actions) := by
  unfold startJob at h
  split at h
  · cases h
  · obtain ⟨actions, hactions, h⟩ := Lib.bind_eq_ok.mp h
    obtain ⟨job', hjob, h⟩ := Lib.bind_eq_ok.mp h
    obtain ⟨-, -, h⟩ := Lib.bind_eq_ok.mp h
    obtain rfl := Except.ok.inj h
    unfold jobFor at hjob
    obtain ⟨command, hcommand, hjob⟩ := Lib.bind_eq_ok.mp hjob
    obtain ⟨hdr, -, hjob⟩ := Lib.bind_eq_ok.mp hjob
    obtain rfl := Except.ok.inj hjob
    exact ⟨hactions, hcommand,
      tempPathWithExt_extension _ _ (outputExtension_dotless plan.file actions)⟩

/-- The actions that the results are about. -/
def Reports (results : List ActionResult) (actions : List PlannedAction) : Prop :=
  results.map (fun r => (r.operation, r.description, r.success)) =
    actions.map fun a => (a.operation, a.description, true)

/-- A run of FFmpeg that ends well reports every action of its job. -/
theorem executePlanWithRunners_reports {results : List ActionResult}
    (hstart : startJob env plan = .ok job) (hall : ∀ r ∈ results, r.success = true)
    (hran : executePlanWithRunners env plan = .ok results) : Reports results job.actions := by
  unfold executePlanWithRunners at hran
  obtain ⟨job', hjob, hran⟩ := Lib.bind_eq_ok.mp hran
  obtain rfl := Except.ok.inj (hstart.symm.trans hjob)
  cases hffmpeg : env.ffmpeg with
  | error e =>
    simp only [hffmpeg] at hran
    cases hran
  | ok output =>
    simp only [hffmpeg] at hran
    split at hran
    · obtain ⟨-, -, hran⟩ := Lib.bind_eq_ok.mp hran
      obtain ⟨-, -, hran⟩ := Lib.bind_eq_ok.mp hran
      obtain rfl := Except.ok.inj hran
      simp [Reports, Function.comp_def, ActionResult.succeeded, ActionResult.withExecutionDetail]
    · -- A run that fails reports its first action, as failed.
      split at hran
      · obtain rfl := Except.ok.inj hran
        exact absurd (hall _ List.mem_cons_self) (by simp)
      · cases hran

/-- A successful execution reports every action that is left by the preparation. -/
theorem executePlan_reports (hhandles : canHandle config plan = true)
    (hmux : plan.actions.any (·.operation = .muxSubtitle) = false)
    (hsucceeded : AllSucceeded (executePlan config env plan)) :
    ∃ job results, startJob env plan = .ok job ∧ executePlan config env plan = .ok results ∧
      Reports results job.actions := by
  obtain ⟨⟨job, hstart, hdone⟩, -⟩ := (executePlan_allSucceeded_iff hhandles hmux env).mp hsucceeded
  obtain ⟨results, hresults, hall⟩ := hsucceeded
  refine ⟨job, results, hstart, hresults, ?_⟩
  unfold executePlan at hresults
  rw [if_neg (by simp [hhandles]), if_neg (by simp [hmux])] at hresults
  obtain ⟨ran, hran, hresults⟩ := Lib.bind_eq_ok.mp hresults
  have hsame : ran = results := by
    dsimp only at hresults
    split at hresults
    · obtain ⟨-, -, hresults⟩ := Lib.bind_eq_ok.mp hresults
      exact Except.ok.inj hresults
    · exact Except.ok.inj hresults
  rw [hsame] at hran
  exact executePlanWithRunners_reports hstart hall hran

/-- The execution reports the actions of its job, and the command does what each of them asks for,
selects the tracks that are not removed and leaves nothing out. -/
def HonoursReported (config : Config) (env : RunEnv) (plan : Plan) : Prop :=
  ∃ job results, startJob env plan = .ok job ∧ executePlan config env plan = .ok results ∧
    Reports results job.actions ∧
    Honours env.command plan.file env.hw job.command job.actions

/-- What a successful execution of a claimed plan reports has been done exactly if every action,
once the actions are prepared, meets the condition of its kind. -/
theorem claimed_plan_honoured_iff (config : Config) (env : RunEnv) (plan : Plan)
    (hindices : (plan.file.tracks.map (·.index)).Nodup)
    (hhandles : canHandle config plan = true)
    (hmux : plan.actions.any (·.operation = .muxSubtitle) = false)
    (hsucceeded : AllSucceeded (executePlan config env plan)) :
    HonoursReported config env plan ↔
      ∃ actions, prepareActions env plan = .ok actions ∧
        ∀ a ∈ actions, Honourable env.command plan.file env.hw actions a := by
  obtain ⟨job, results, hstart, hresults, hreports⟩ :=
    executePlan_reports hhandles hmux hsucceeded
  obtain ⟨hactions, hcommand, hpath⟩ := startJob_command hstart
  constructor
  · rintro ⟨job', -, hjob', -, -, hhonours⟩
    obtain rfl := Except.ok.inj (hstart.symm.trans hjob')
    exact ⟨job.actions, hactions, (honours_iff hcommand hindices hpath).mp hhonours⟩
  · rintro ⟨actions, hactions', hall⟩
    obtain rfl := Except.ok.inj (hactions.symm.trans hactions')
    exact ⟨job, results, hstart, hresults, hreports, (honours_iff hcommand hindices hpath).mpr hall⟩

end

namespace Reencoded

/-- A film with a video and an audio track. -/
def film : MediaFile :=
  { id := 1, path := ⟨["m", "film.mkv"]⟩, container := .mkv
    tracks :=
      [ { index := 0, trackType := .video, codec := "h264" },
        { index := 1, trackType := .audioMain, codec := "aac" } ] }

def config : Config := { available := true, encoders := none, decoders := none, formats := none }

def transcode : PlannedAction :=
  .trackOp .transcodeVideo 0 (.transcode "hevc" {}) "Transcode video track 0 from h264 to hevc"

def removal : PlannedAction :=
  .trackOp .removeTrack 1 (.removeTrack "remove filter matched" .audioMain) "Remove audio track 1"

def plan (actions : List PlannedAction) : Plan :=
  { id := 1, file := film, policyName := "p", phaseName := "q", actions }

/-- FFmpeg and all around it do their work. -/
def env : RunEnv := idleEnv true

theorem succeeds {actions : List PlannedAction}
    (h : ((executePlan config env (plan actions)).toOption.any
      fun results => results.all (·.success)) = true) :
    AllSucceeded (executePlan config env (plan actions)) := by
  cases hresults : executePlan config env (plan actions) with
  | error e => simp [hresults, Except.toOption] at h
  | ok results =>
    simp only [hresults, Except.toOption, Option.any_some] at h
    exact ⟨results, rfl, List.all_eq_true.mp h⟩

theorem transcode_honourable :
    Honourable env.command film env.hw [transcode] transcode := by
  refine ⟨?_, ?_, ?_⟩
  · intro index hindex
    obtain rfl := Option.some.inj hindex
    exact ⟨⟨0, { index := 0, trackType := .video, codec := "h264" }, 0⟩, List.mem_cons_self, rfl⟩
  · intro stream hstream hmeant
    have hstreams : plannedStreams film [transcode] =
        [⟨0, { index := 0, trackType := .video, codec := "h264" }, 0⟩,
          ⟨1, { index := 1, trackType := .audioMain, codec := "aac" }, 0⟩] := rfl
    rw [hstreams] at hstream
    simp only [List.mem_cons, List.not_mem_nil, or_false] at hstream
    rcases hstream with rfl | rfl
    · rfl
    · cases hmeant
  · intro name value hmem
    have hnone : videoSettings env.command film env.hw transcode "hevc" {} = [] := rfl
    rw [hnone] at hmem
    cases hmem

end Reencoded

/-- A video transcode of the first track. -/
theorem transcoded_film_honoured :
    HonoursReported Reencoded.config Reencoded.env (Reencoded.plan [Reencoded.transcode]) := by
  refine (claimed_plan_honoured_iff Reencoded.config Reencoded.env _ (by decide)
    (by decide) (by decide +kernel) (Reencoded.succeeds (by decide +kernel))).mpr ⟨_, rfl, ?_⟩
  exact List.forall_mem_singleton.mpr Reencoded.transcode_honourable

/-- The same plan with a removal is claimed too, and the removal is reported as successful; the
track is still mapped. -/
theorem removal_reported_not_done :
    canHandle Reencoded.config (Reencoded.plan [Reencoded.transcode, Reencoded.removal]) = true ∧
      AllSucceeded (executePlan Reencoded.config Reencoded.env
        (Reencoded.plan [Reencoded.transcode, Reencoded.removal])) ∧
      ¬ HonoursReported Reencoded.config Reencoded.env
        (Reencoded.plan [Reencoded.transcode, Reencoded.removal]) := by
  refine ⟨by decide +kernel, Reencoded.succeeds (by decide +kernel), ?_⟩
  rintro ⟨job, results, hstart, -, -, hhonours⟩
  obtain ⟨hactions, hcommand, -⟩ := startJob_command hstart
  have hprepared : job.actions = [Reencoded.transcode, Reencoded.removal] :=
    (Except.ok.inj hactions).symm
  have hselected := hhonours.selected
    { index := 1, trackType := .audioMain, codec := "aac" } (by decide)
    (fun _ => TrackType.noConfusion)
  rw [mapped_eq hcommand, hprepared] at hselected
  exact hselected.mp (by decide) Reencoded.removal (by decide) rfl rfl

end Voom.Executors.Ffmpeg
