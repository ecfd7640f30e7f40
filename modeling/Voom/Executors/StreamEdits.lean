-- SUMMARY: The metadata that an FFmpeg command writes for a stream: what the actions on its track leave of it.
import Mathlib.Data.List.Range
import Voom.Executors.FfmpegReading

/-!
# Metadata of streams

The builder writes language, title and disposition of every stream that it maps, once the actions
on the tracks have been applied in order.
-/

namespace Voom.Executors.Ffmpeg

/-! ## What the actions ask for a track -/

/-- What an action asks for a track. -/
def askedOf {β : Type} (index : Nat) (ask : PlannedAction → Option β) (action : PlannedAction) :
    Option β :=
  if action.trackIndex = some index then ask action else none

def askedDefault (action : PlannedAction) : Option Bool :=
  match action.operation with
  | .setDefault => some true
  | .clearDefault => some false
  | _ => none

def askedForced (action : PlannedAction) : Option Bool :=
  match action.operation with
  | .setForced => some true
  | .clearForced => some false
  | _ => none

def askedTitle (action : PlannedAction) : Option String :=
  match action.operation, action.parameters with
  | .setTitle, .title title => some title
  | _, _ => none

def askedLanguage (action : PlannedAction) : Option String :=
  match action.operation, action.parameters with
  | .setLanguage, .language language => some language
  | _, _ => none

section

variable {env : CommandEnv} {file : MediaFile} {hwAccel : Option HwAccelConfig}
  {actions : List PlannedAction} {action : PlannedAction} {command : List Part} {path : Path}

/-! ## Edits of streams -/

section Edits

variable {index : Nat} {streams streams' : List OutputTrackMetadata} {stream stream' : OutputTrackMetadata}

theorem lastOf_cons {α β : Type} (read : α → Option β) (first : α) (rest : List α) :
    lastOf read (first :: rest) = (lastOf read rest).or (read first) := by
  unfold lastOf
  cases hread : read first with
  | none => simp [hread]
  | some b =>
    rw [List.filterMap_cons_some hread, List.getLast?_cons]
    cases (rest.filterMap read).getLast? <;> rfl

/-- What an action makes of its stream. -/
def editedBy (action : PlannedAction) (stream : OutputTrackMetadata) : OutputTrackMetadata :=
  { stream with
    isDefault := (askedDefault action).getD stream.isDefault
    isForced := (askedForced action).getD stream.isForced
    title := (askedTitle action).getD stream.title
    language := (askedLanguage action).getD stream.language }

theorem edited_inputIndex (action : PlannedAction) (stream : OutputTrackMetadata) :
    (editedBy action stream).inputIndex = stream.inputIndex := rfl

theorem edited_outputIndex (action : PlannedAction) (stream : OutputTrackMetadata) :
    (editedBy action stream).outputIndex = stream.outputIndex := rfl

theorem applyTrackMetadataAction_ok (h : applyTrackMetadataAction action stream = .ok stream') :
    stream' = editedBy action stream := by
  have hvalue {value : String} {edited : OutputTrackMetadata} :
      Lib.Yields (· = edited) ((validateMetadataValue value).map fun _ => edited) :=
    .map fun _ _ => rfl
  obtain ⟨operation, trackIndex, parameters, description, checked⟩ := action
  cases operation with
  | setTitle =>
    cases parameters with
    | title title => exact hvalue _ h
    | _ => cases checked
  | setLanguage =>
    cases parameters with
    | language language => exact hvalue _ h
    | _ => cases checked
  | _ => exact (Except.ok.inj h).symm

/-- Edit the first stream from a track. -/
def editFirst (index : Nat) (edit : OutputTrackMetadata → OutputTrackMetadata) :
    List OutputTrackMetadata → List OutputTrackMetadata
  | [] => []
  | stream :: rest =>
    if stream.inputIndex = index then edit stream :: rest else stream :: editFirst index edit rest

theorem onStream_ok {f : OutputTrackMetadata → Except VoomError OutputTrackMetadata}
    {edit : OutputTrackMetadata → OutputTrackMetadata}
    (hf : ∀ s s', f s = .ok s' → s' = edit s) (h : onStream index f streams = .ok streams') :
    streams' = editFirst index edit streams := by
  induction streams generalizing streams' with
  | nil =>
    obtain rfl := Except.ok.inj h
    rfl
  | cons first rest ih =>
    unfold onStream at h
    unfold editFirst
    split at h
    · rename_i hindex
      cases hfirst : f first with
      | error e => simp [hfirst, Except.map] at h
      | ok edited =>
        rw [hfirst] at h
        obtain rfl := Except.ok.inj h
        rw [if_pos hindex, hf _ _ hfirst]
    · rename_i hindex
      cases hrest : onStream index f rest with
      | error e => simp [hrest, Except.map] at h
      | ok edited =>
        rw [hrest] at h
        obtain rfl := Except.ok.inj h
        rw [if_neg hindex, ih hrest]

/-- The streams after all actions. -/
def editedStreams (actions : List PlannedAction) (streams : List OutputTrackMetadata) :
    List OutputTrackMetadata :=
  actions.foldl (fun streams action =>
    match action.trackIndex with
    | some index => editFirst index (editedBy action) streams
    | none => streams) streams

theorem applyTrackMetadataActions_ok (h : applyTrackMetadataActions actions streams = .ok streams') :
    streams' = editedStreams actions streams := by
  induction actions generalizing streams with
  | nil => exact (Except.ok.inj h).symm
  | cons action rest ih =>
    simp only [applyTrackMetadataActions] at h
    simp only [editedStreams, List.foldl_cons]
    cases hindex : action.trackIndex with
    | none =>
      simp only [hindex] at h
      exact ih h
    | some index =>
      simp only [hindex] at h
      obtain ⟨edited, hedited, h⟩ := Lib.bind_eq_ok.mp h
      obtain rfl := onStream_ok (fun s s' => applyTrackMetadataAction_ok) hedited
      exact ih h

/-- What the actions on a track make of its stream. -/
def editedFor (index : Nat) (actions : List PlannedAction) (stream : OutputTrackMetadata) :
    OutputTrackMetadata :=
  actions.foldl (fun stream action =>
    if action.trackIndex = some index then editedBy action stream else stream) stream

theorem find_editFirst {edit : OutputTrackMetadata → OutputTrackMetadata}
    (hedit : ∀ s, (edit s).inputIndex = s.inputIndex) (i j : Nat) :
    (editFirst i edit streams).find? (·.inputIndex = j) =
      (streams.find? (·.inputIndex = j)).map fun s => if i = j then edit s else s := by
  induction streams with
  | nil => rfl
  | cons first rest ih =>
    unfold editFirst
    by_cases hi : first.inputIndex = i
    · rw [if_pos hi]
      by_cases hj : first.inputIndex = j
      · simp [hedit, hj, ← hi]
      · have hne : i ≠ j := fun heq => hj (hi.trans heq)
        simp [hedit, hj, hne]
    · rw [if_neg hi]
      by_cases hj : first.inputIndex = j
      · have hne : i ≠ j := fun heq => hi (hj.trans heq.symm)
        simp [hj, hne]
      · simp [hj, ih]

theorem map_outputIndex_editFirst {edit : OutputTrackMetadata → OutputTrackMetadata}
    (hedit : ∀ s, (edit s).outputIndex = s.outputIndex) (i : Nat) :
    (editFirst i edit streams).map (·.outputIndex) = streams.map (·.outputIndex) := by
  induction streams with
  | nil => rfl
  | cons first rest ih =>
    unfold editFirst
    split_ifs
    · simp [hedit]
    · simp [ih]

/-- Run: each action edits the stream of its track and no other. -/
theorem find_editedStreams (actions : List PlannedAction) (streams : List OutputTrackMetadata)
    (index : Nat) :
    (editedStreams actions streams).find? (·.inputIndex = index) =
      (streams.find? (·.inputIndex = index)).map (editedFor index actions) := by
  induction actions generalizing streams with
  | nil => exact Option.map_id'.symm
  | cons action rest ih =>
    have hcons : editedFor index (action :: rest) = fun s => editedFor index rest
        (if action.trackIndex = some index then editedBy action s else s) := rfl
    simp only [editedStreams, List.foldl_cons] at ih ⊢
    rw [ih, hcons]
    cases hindex : action.trackIndex with
    | none => simp
    | some i =>
      dsimp only
      rw [find_editFirst (edited_inputIndex action), Option.map_map]
      simp only [Option.some.injEq]
      rfl

theorem map_outputIndex_editedStreams (actions : List PlannedAction)
    (streams : List OutputTrackMetadata) :
    (editedStreams actions streams).map (·.outputIndex) = streams.map (·.outputIndex) := by
  induction actions generalizing streams with
  | nil => rfl
  | cons action rest ih =>
    simp only [editedStreams, List.foldl_cons] at ih ⊢
    rw [ih]
    cases action.trackIndex with
    | none => rfl
    | some i => exact map_outputIndex_editFirst (edited_outputIndex action) i

/-- A field of a stream after the actions: the last value that an action on its track asks for. -/
theorem field_editedFor {γ : Type} {field : OutputTrackMetadata → γ}
    {ask : PlannedAction → Option γ}
    (hfield : ∀ a s, field (editedBy a s) = (ask a).getD (field s)) (index : Nat)
    (actions : List PlannedAction) (stream : OutputTrackMetadata) :
    field (editedFor index actions stream) =
      (lastOf (askedOf index ask) actions).getD (field stream) := by
  induction actions generalizing stream with
  | nil => rfl
  | cons action rest ih =>
    unfold editedFor at ih ⊢
    rw [List.foldl_cons, ih, lastOf_cons, askedOf]
    by_cases hindex : action.trackIndex = some index
    · rw [if_pos hindex, if_pos hindex, hfield]
      cases lastOf (askedOf index ask) rest <;> rfl
    · rw [if_neg hindex, if_neg hindex]
      simp

/-! ### Where streams stand -/

theorem map_index_mappedTracks (hkept : outputTracks file (excludesAttachments actions) ≠ []) :
    (mappedTracks file actions).map (·.index) =
      (outputTracks file (excludesAttachments actions)).map (·.index) := by
  unfold mappedTracks
  cases hexcludes : excludesAttachments actions with
  | false => simp [outputTracks]
  | true =>
    have hsame : outputTracks file true = file.tracks.filter (·.trackType ≠ .attachment) := by
      simp [outputTracks]
    rw [hexcludes, hsame] at hkept
    rw [if_pos ⟨rfl, hkept⟩, hsame, List.map_filterMap, ← List.filterMap_eq_map]
    refine List.filterMap_congr fun t ht => ?_
    have htracks : t ∈ file.tracks := List.mem_of_mem_filter ht
    cases hfind : file.tracks.find? (·.index = t.index) with
    | none => exact absurd (List.find?_eq_none.mp hfind t htracks) (by simp)
    | some t' =>
      have hindex := List.find?_some hfind
      simpa using hindex

/-! ### The metadata of a stream -/

/-- What is written for a stream. -/
def writtenParts (stream : OutputTrackMetadata) : List Part :=
  [.metadata (some stream.outputIndex) "language" stream.language,
    .metadata (some stream.outputIndex) "title" stream.title,
    .disposition stream.outputIndex stream.dispositionValue]

theorem applyPreservedStreamMetadata_ok {preserved : List Part} {exclude : Bool}
    (h : applyPreservedStreamMetadata file exclude actions = .ok preserved) :
    (outputTracks file exclude = [] ∧ preserved = []) ∨
      (outputTracks file exclude ≠ [] ∧ preserved = [.mapMetadata 0, .mapChapters 0] ++
        (editedStreams actions (outputTrackMetadata file exclude)).flatMap writtenParts) := by
  have hnil : outputTrackMetadata file exclude = [] ↔ outputTracks file exclude = [] :=
    List.mapIdx_eq_nil_iff
  unfold applyPreservedStreamMetadata at h
  dsimp only at h
  split at h
  · rename_i hempty
    exact .inl ⟨hnil.mp hempty, (Except.ok.inj h).symm⟩
  · rename_i hempty
    obtain ⟨streams, hstreams, h⟩ := Lib.bind_eq_ok.mp h
    obtain ⟨written, hwritten, h⟩ := Lib.bind_eq_ok.mp h
    obtain rfl := Except.ok.inj h
    obtain rfl := applyTrackMetadataActions_ok hstreams
    obtain rfl := Lib.mapM_eq_map hwritten fun stream _ parts hparts => streamParts_ok hparts
    exact .inr ⟨fun hnone => hempty (hnil.mpr hnone), rfl⟩

theorem map_outputIndex (file : MediaFile) (actions : List PlannedAction) (exclude : Bool) :
    (editedStreams actions (outputTrackMetadata file exclude)).map (·.outputIndex) =
      List.range (outputTracks file exclude).length := by
  rw [map_outputIndex_editedStreams]
  apply List.ext_getElem
  · simp [outputTrackMetadata]
  · intro i _ _
    simp [outputTrackMetadata, OutputTrackMetadata.fromTrack]

theorem editedFor_outputIndex (index : Nat) (actions : List PlannedAction)
    (stream : OutputTrackMetadata) :
    (editedFor index actions stream).outputIndex = stream.outputIndex := by
  induction actions generalizing stream with
  | nil => rfl
  | cons action rest ih =>
    unfold editedFor at ih ⊢
    rw [List.foldl_cons, ih]
    split_ifs <;> rfl

/-- The row of a key, out of rows with different keys. -/
theorem filter_key_eq {α : Type} {key : α → Nat} {items : List α} {item : α}
    (hnodup : (items.map key).Nodup) (hmem : item ∈ items) :
    items.filter (fun other => key other = key item) = [item] := by
  induction items with
  | nil => cases hmem
  | cons first rest ih =>
    obtain ⟨hfirst, hrest⟩ := List.nodup_cons.mp hnodup
    rcases List.mem_cons.mp hmem with rfl | hmem
    · rw [List.filter_cons_of_pos (by simp)]
      refine congrArg _ (List.filter_eq_nil_iff.mpr fun other hother heq => hfirst ?_)
      rw [← of_decide_eq_true heq]
      exact List.mem_map_of_mem hother
    · rw [List.filter_cons_of_neg, ih hrest hmem]
      simp only [decide_eq_true_eq]
      exact fun heq => hfirst (heq ▸ List.mem_map_of_mem hmem)

/-- The row of the track at a place, among the rows of all. -/
theorem find_row (hindices : (file.tracks.map (·.index)).Nodup) {exclude : Bool} {i : Nat}
    {track : Track} (htrack : (outputTracks file exclude)[i]? = some track) :
    (outputTrackMetadata file exclude).find? (·.inputIndex = track.index) =
      some (.fromTrack i track) := by
  have hkeys : (outputTrackMetadata file exclude).map (·.inputIndex) =
      (outputTracks file exclude).map (·.index) := by
    apply List.ext_getElem
    · simp [outputTrackMetadata]
    · intro i _ _
      simp [outputTrackMetadata, OutputTrackMetadata.fromTrack]
  have hnodup : ((outputTrackMetadata file exclude).map (·.inputIndex)).Nodup := by
    rw [hkeys]
    exact hindices.sublist (List.filter_sublist.map _)
  have hmem : OutputTrackMetadata.fromTrack i track ∈ outputTrackMetadata file exclude := by
    apply List.mem_of_getElem? (i := i)
    simp [outputTrackMetadata, htrack]
  rw [← List.head?_filter]
  exact congrArg List.head? (filter_key_eq hnodup hmem)

/-- What is read of the metadata of a stream is what the actions on the track at its place in the
list have left there. -/
theorem lastOf_stream {γ : Type} {read : Part → Option γ} {value : OutputTrackMetadata → γ}
    {place : Stream} (hindices : (file.tracks.map (·.index)).Nodup)
    (h : buildFfmpegCommand env file hwAccel actions path = .ok command)
    (hread : ∀ p : Part, p.place ≠ .preserved → read p = none)
    (hmap : read (.mapMetadata 0) = none ∧ read (.mapChapters 0) = none)
    (hwritten : ∀ s, (writtenParts s).filterMap read =
      if s.outputIndex = place.position then [value s] else []) :
    lastOf read command =
      ((outputTracks file (excludesAttachments actions))[place.position]?).map fun track =>
        value (editedFor track.index actions (.fromTrack place.position track)) := by
  obtain ⟨preserved, hpreserved, hlast⟩ := lastOf_preserved h hread
  rcases applyPreservedStreamMetadata_ok hpreserved with ⟨hnone, rfl⟩ | ⟨-, rfl⟩
  · rw [hlast, hnone]
    rfl
  · -- Of the streams that are written, only the one at this place is read.
    have hvalues : ((editedStreams actions
        (outputTrackMetadata file (excludesAttachments actions))).flatMap
          writtenParts).filterMap read =
        ((editedStreams actions (outputTrackMetadata file (excludesAttachments actions))).filter
          (·.outputIndex = place.position)).map value := by
      rw [List.filterMap_flatMap]
      generalize editedStreams actions _ = streams
      induction streams with
      | nil => rfl
      | cons first rest ih =>
        rw [List.flatMap_cons, ih, hwritten]
        by_cases hfirst : first.outputIndex = place.position <;> simp [hfirst]
    have hplaces := map_outputIndex file actions (excludesAttachments actions)
    have hmapped : [Part.mapMetadata 0, .mapChapters 0].filterMap read = [] := by
      simp [hmap.1, hmap.2]
    rw [hlast, lastOf, List.filterMap_append, hmapped, hvalues]
    cases htrack : (outputTracks file (excludesAttachments actions))[place.position]? with
    | none =>
      have hempty : (editedStreams actions
          (outputTrackMetadata file (excludesAttachments actions))).filter
            (·.outputIndex = place.position) = [] := by
        refine List.filter_eq_nil_iff.mpr fun s hs heq => ?_
        have hmem := List.mem_map_of_mem (f := OutputTrackMetadata.outputIndex) hs
        rw [hplaces, List.mem_range, of_decide_eq_true heq] at hmem
        exact absurd (List.getElem?_eq_none_iff.mp htrack) (by omega)
      rw [hempty]
      rfl
    | some track =>
      have hedited := find_editedStreams actions
        (outputTrackMetadata file (excludesAttachments actions)) track.index
      rw [find_row hindices htrack, Option.map_some] at hedited
      have hfilter := filter_key_eq (hplaces ▸ List.nodup_range)
        (List.mem_of_find?_eq_some hedited)
      rw [editedFor_outputIndex] at hfilter
      exact congrArg (fun rows => (rows.map value).getLast?) hfilter

theorem readDisposition_dispositionValue (s : OutputTrackMetadata) :
    readDisposition s.dispositionValue = some (s.isDefault, s.isForced) := by
  unfold OutputTrackMetadata.dispositionValue
  cases s.isDefault <;> cases s.isForced <;> rfl

theorem filterMap_dispositionFor (place : Stream) (s : OutputTrackMetadata) :
    (writtenParts s).filterMap (dispositionFor place) =
      if s.outputIndex = place.position then [s.dispositionValue] else [] := by
  by_cases h : s.outputIndex = place.position <;> simp [writtenParts, List.filterMap_cons, dispositionFor, h]

theorem filterMap_title (place : Stream) (s : OutputTrackMetadata) :
    (writtenParts s).filterMap (streamTextFor place "title") =
      if s.outputIndex = place.position then [s.title] else [] := by
  by_cases h : s.outputIndex = place.position <;> simp [writtenParts, streamTextFor, h]

theorem filterMap_language (place : Stream) (s : OutputTrackMetadata) :
    (writtenParts s).filterMap (streamTextFor place "language") =
      if s.outputIndex = place.position then [s.language] else [] := by
  by_cases h : s.outputIndex = place.position <;> simp [writtenParts, streamTextFor, h]

end Edits

end

end Voom.Executors.Ffmpeg
