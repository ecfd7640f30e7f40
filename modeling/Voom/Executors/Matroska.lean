-- SUMMARY: mkvmerge and mkvpropedit: reading their command lines, and what they do to the tracks of a file.
import Mathlib.Data.List.Dedup
import Voom.Domain.Apply
import Voom.Executors.Mkvtoolnix
import Voom.Lib.Outcome

/-!
# The two tools

A file is its list of tracks. Both tools know a track by its place in the file they are run
on, mkvmerge from zero and mkvpropedit from one.
-/

namespace Voom.Executors.Mkvtoolnix

/-! ## Lists of numbers -/

/-- What stands between the commas. -/
def readItems {α : Type} (readItem : List Char → Option α) (chars : List Char) : Option (List α) :=
  (chars.splitOn ',').mapM readItem

theorem readItems_intercalate {readItem : List Char → Option Nat} {text : Nat → String}
    (hread : ∀ n, readItem (text n).toList = some n) (hcomma : ∀ n, ',' ∉ (text n).toList)
    {ids : List Nat} (h : ids ≠ []) :
    readItems readItem (",".intercalate (ids.map text)).toList = some ids := by
  have hsplit : (",".intercalate (ids.map text)).toList.splitOn ',' =
      ids.map fun n => (text n).toList := by
    rw [String.toList_intercalate, List.map_map]
    apply List.splitOn_intercalate
    · intro l hl
      obtain ⟨n, -, rfl⟩ := List.mem_map.mp hl
      exact hcomma n
    · simpa using h
  rw [readItems, hsplit]
  clear hsplit h
  induction ids with
  | nil => rfl
  | cons n rest ih => simp [hread n, ih]

theorem comma_notMem_toString (n : Nat) : ',' ∉ (toString n).toList := by
  intro h
  rw [Nat.toString_eq_ofList_toDigits, String.toList_ofList] at h
  have hdigit := Nat.isDigit_of_mem_toDigits (by decide) (by decide) h
  revert hdigit
  decide

/-- All but the tracks that are listed. -/
def readExcluded (text : String) : Option (List Nat) :=
  match text.toList with
  | '!' :: rest => readItems digitsValue rest
  | _ => none

theorem readExcluded_ids {ids : List Nat} (h : ids ≠ []) :
    readExcluded ("!" ++ ",".intercalate (ids.map toString)) = some ids := by
  have hitems : readItems digitsValue (",".intercalate (ids.map toString)).toList = some ids := by
    apply readItems_intercalate _ comma_notMem_toString h
    intro n
    simp
  simpa [readExcluded] using hitems

/-- A track of the first input. -/
def readOrderItem : List Char → Option Nat
  | '0' :: ':' :: digits => digitsValue digits
  | _ => none

theorem orderItem_toList (n : Nat) : s!"0:{n}".toList = '0' :: ':' :: Nat.toDigits 10 n := by
  rw [show s!"0:{n}" = "0:" ++ toString n from rfl]
  simp

def readOrder (text : String) : Option (List Nat) := readItems readOrderItem text.toList

theorem readOrder_ids {ids : List Nat} (h : ids ≠ []) :
    readOrder (",".intercalate (ids.map fun n => s!"0:{n}")) = some ids := by
  apply readItems_intercalate _ _ h
  · intro n
    rw [orderItem_toList, readOrderItem, digitsValue_toDigits]
  · intro n
    have hdigits := comma_notMem_toString n
    rw [orderItem_toList]
    simpa using hdigits

/-! ## mkvmerge -/

/-- A command line of mkvmerge with one input: the tracks left out of each kind, and the order
of tracks, if there is one. -/
structure MergeCommand where
  output : String := ""
  notVideo : List Nat := []
  notAudio : List Nat := []
  notSubtitle : List Nat := []
  trackOrder : Option (List Nat) := none
  input : String
  deriving DecidableEq, Repr

/-- The options, each with its value, and the input file at the end. Of two track orders the
later counts. -/
def readMergeArgs : List String → Option MergeCommand
  | [] => none
  | [input] => some { input }
  | option :: value :: rest => do
    let command ← readMergeArgs rest
    match option with
    | "-o" => return { command with output := value }
    | "--video-tracks" => return { command with notVideo := ← readExcluded value }
    | "--audio-tracks" => return { command with notAudio := ← readExcluded value }
    | "--subtitle-tracks" => return { command with notSubtitle := ← readExcluded value }
    | "--track-order" =>
      let order ← readOrder value
      return { command with trackOrder := command.trackOrder.or (some order) }
    | _ => none

namespace MergeCommand

/-- The tracks left out of the kind that a track is of. -/
def excluded (command : MergeCommand) (trackType : TrackType) : List Nat :=
  if trackType.isVideo then command.notVideo
  else if trackType.isAudio then command.notAudio
  else if trackType.isSubtitle then command.notSubtitle
  else []

/-- The tracks that stay, with their places in the input. -/
def kept (command : MergeCommand) (tracks : List Track) : List (Track × Nat) :=
  tracks.zipIdx.filter fun p => p.2 ∉ command.excluded p.1.trackType

/-- The tracks listed come first, in the order of the list, and the others after them. -/
def arrange (order : List Nat) (kept : List (Track × Nat)) : List (Track × Nat) :=
  order.dedup.filterMap (fun i => kept.find? (·.2 = i)) ++ kept.filter (·.2 ∉ order)

def run (command : MergeCommand) (tracks : List Track) : List Track :=
  (arrange (command.trackOrder.getD []) (command.kept tracks)).map (·.1)

end MergeCommand

/-- The numbers of an order, if there are any. -/
def orderOf (action : PlannedAction) : Option (List Nat) :=
  match action.operation, action.parameters with
  | .reorderTracks, .reorderTracks order =>
    if order.filterMap (parseUnsigned 64) = [] then none
    else some (order.filterMap (parseUnsigned 64))
  | _, _ => none

/-- The command that the executor asks for. -/
def mergeCommand (inputPath outputPath : Path) (actions : List PlannedAction) : MergeCommand :=
  { output := outputPath.display
    notVideo := removals TrackType.isVideo actions
    notAudio := removals TrackType.isAudio actions
    notSubtitle := removals TrackType.isSubtitle actions
    trackOrder := (actions.filterMap orderOf).getLast?
    input := inputPath.display }

theorem orderArgs_of_none {action : PlannedAction} (h : orderOf action = none) :
    orderArgs action = [] := by
  unfold orderOf at h
  split at h
  · rename_i order hop hparams
    split at h
    · rename_i hnone
      simp only [orderArgs, hop, hparams, trackOrder, hnone, List.map_nil, if_true]
    · cases h
  · rename_i hother
    unfold orderArgs
    split
    · rename_i order hop hparams
      exact absurd hparams (hother order hop)
    · rfl

theorem orderArgs_of_some {action : PlannedAction} {ids : List Nat} (h : orderOf action = some ids) :
    ids ≠ [] ∧ orderArgs action =
      ["--track-order", ",".intercalate (ids.map fun n => s!"0:{n}")] := by
  unfold orderOf at h
  split at h
  · rename_i order hop hparams
    split at h
    · cases h
    · rename_i hne
      obtain rfl := Option.some.inj h
      exact ⟨hne, by simp [orderArgs, trackOrder, hop, hparams, hne]⟩
  · cases h

theorem readMergeArgs_orders (actions : List PlannedAction) (input : String) :
    readMergeArgs (actions.flatMap orderArgs ++ [input]) =
      some { input, trackOrder := (actions.filterMap orderOf).getLast? } := by
  induction actions with
  | nil => rfl
  | cons action rest ih =>
    rw [List.flatMap_cons, List.append_assoc]
    cases horder : orderOf action with
    | none =>
      rw [orderArgs_of_none horder, List.nil_append, ih, List.filterMap_cons_none horder]
    | some ids =>
      obtain ⟨hne, hargs⟩ := orderArgs_of_some horder
      have hread := readOrder_ids hne
      rw [hargs, List.filterMap_cons_some horder, List.getLast?_cons]
      generalize ",".intercalate (ids.map fun n => s!"0:{n}") = text at hread ⊢
      cases hlast : (rest.filterMap orderOf).getLast? with
      | none => simp [readMergeArgs, ih, hread, hlast]
      | some last => simp [readMergeArgs, ih, hread, hlast]

/-- mkvmerge reads the command from the arguments. -/
theorem readMergeArgs_buildMergeArgs (inputPath outputPath : Path) (actions : List PlannedAction) :
    readMergeArgs (buildMergeArgs inputPath outputPath actions) =
      some (mergeCommand inputPath outputPath actions) := by
  have horders := readMergeArgs_orders actions inputPath.display
  unfold buildMergeArgs mergeCommand
  simp only [List.append_assoc]
  generalize actions.flatMap orderArgs ++ [inputPath.display] = rest at *
  have hsubtitle : readMergeArgs (removalArgs "--subtitle-tracks"
      (removals TrackType.isSubtitle actions) ++ rest) = some
        { input := inputPath.display, trackOrder := (actions.filterMap orderOf).getLast?
          notSubtitle := removals TrackType.isSubtitle actions } := by
    unfold removalArgs
    split
    · rename_i hnone
      simpa [hnone] using horders
    · rename_i hne
      simp [readMergeArgs, horders, readExcluded_ids hne]
  generalize removalArgs "--subtitle-tracks" _ ++ rest = rest at *
  have haudio : readMergeArgs (removalArgs "--audio-tracks"
      (removals TrackType.isAudio actions) ++ rest) = some
        { input := inputPath.display, trackOrder := (actions.filterMap orderOf).getLast?
          notSubtitle := removals TrackType.isSubtitle actions
          notAudio := removals TrackType.isAudio actions } := by
    unfold removalArgs
    split
    · rename_i hnone
      simpa [hnone] using hsubtitle
    · rename_i hne
      simp [readMergeArgs, hsubtitle, readExcluded_ids hne]
  generalize removalArgs "--audio-tracks" _ ++ rest = rest at *
  have hvideo : readMergeArgs (removalArgs "--video-tracks"
      (removals TrackType.isVideo actions) ++ rest) = some
        { input := inputPath.display, trackOrder := (actions.filterMap orderOf).getLast?
          notSubtitle := removals TrackType.isSubtitle actions
          notAudio := removals TrackType.isAudio actions
          notVideo := removals TrackType.isVideo actions } := by
    unfold removalArgs
    split
    · rename_i hnone
      simpa [hnone] using haudio
    · rename_i hne
      simp [readMergeArgs, haudio, readExcluded_ids hne]
  simp [readMergeArgs, hvideo]

/-! ## mkvpropedit -/

/-- A change that mkvpropedit is asked for, to a track, counted from one, or to the segment and
its tags. -/
inductive PropertyChange where
  | track (number : Nat) (edit : TrackEdit)
  | segment
  deriving DecidableEq, Repr

/-- The value of a setting under a key. -/
def readValue (key text : String) : Option String :=
  if (key ++ "=").toList <+: text.toList then
    some (String.ofList (text.toList.drop (key ++ "=").toList.length))
  else none

def readFlag : String → Option TrackEdit
  | "flag-default=1" => some (.default true)
  | "flag-default=0" => some (.default false)
  | "flag-forced=1" => some (.forced true)
  | "flag-forced=0" => some (.forced false)
  | _ => none

def readSetting (text : String) : Option TrackEdit :=
  (((readValue "name" text).map .title).or ((readValue "language" text).map .language)).or
    (readFlag text)

def readTrackNumber (text : String) : Option Nat :=
  match text.toList with
  | 't' :: 'r' :: 'a' :: 'c' :: 'k' :: ':' :: digits => digitsValue digits
  | _ => none

def readPropertyChanges : List String → Option (List PropertyChange)
  | [] => some []
  | "--tags" :: _ :: rest => (readPropertyChanges rest).map (.segment :: ·)
  | "--edit" :: "info" :: _ :: _ :: rest => (readPropertyChanges rest).map (.segment :: ·)
  | "--edit" :: selector :: "--set" :: setting :: rest => do
    let number ← readTrackNumber selector
    let edit ← readSetting setting
    let others ← readPropertyChanges rest
    return .track number edit :: others
  | _ => none

/-- The file, and then the changes. -/
def readPropeditArgs : List String → Option (List PropertyChange)
  | [] => none
  | _ :: changes => readPropertyChanges changes

namespace PropertyChange

/-- The file has the track that is to be changed. -/
def inFile (tracks : List Track) : PropertyChange → Bool
  | .track number _ => 0 < number && number ≤ tracks.length
  | .segment => true

def onTracks (tracks : List Track) : PropertyChange → List Track
  | .track number edit => tracks.modify (number - 1) (TrackEdit.make · edit)
  | .segment => tracks

end PropertyChange

/-- The file is left alone if there is nothing to do or a track is missing. -/
def runPropedit (changes : List PropertyChange) (tracks : List Track) : Option (List Track) :=
  if changes ≠ [] ∧ changes.all (·.inFile tracks) then
    some (changes.foldl PropertyChange.onTracks tracks)
  else none

/-- The change that an action asks for. -/
def changeOf (action : PlannedAction) : Option PropertyChange :=
  match action.trackEdit with
  | some edit => action.trackIndex.map fun i => .track (i + 1) edit
  | none =>
    match action.operation, action.parameters with
    | .setContainerTag, .setTag tag _ | .deleteContainerTag, .deleteTag tag =>
      if isSegmentInfoProperty tag then some .segment else none
    | .clearContainerTags, _ => some .segment
    | _, _ => none

theorem readTrackNumber_track (n : Nat) : readTrackNumber s!"track:{n}" = some n := by
  rw [show s!"track:{n}" = "track:" ++ toString n from rfl]
  simp [readTrackNumber]

theorem readValue_setting (key value : String) : readValue key (key ++ "=" ++ value) = some value := by
  unfold readValue
  rw [String.toList_append (t := value), if_pos (List.prefix_append _ _), List.drop_left,
    String.ofList_toList]

theorem readSetting_name (text : String) :
    readSetting ("name" ++ "=" ++ text) = some (.title text) := by
  unfold readSetting
  rw [readValue_setting]
  rfl

theorem readSetting_language (text : String) :
    readSetting ("language" ++ "=" ++ text) = some (.language text) := by
  have hname : readValue "name" ("language" ++ "=" ++ text) = none := by
    apply if_neg
    simp
  unfold readSetting
  rw [hname, readValue_setting]
  rfl

theorem readPropertyChanges_trackEdit {setting : String} {edit : TrackEdit}
    (h : readSetting setting = some edit) (index : Option Nat) (rest : List String) :
    readPropertyChanges (trackEdit index setting ++ rest) =
      (readPropertyChanges rest).map ((index.map fun i => PropertyChange.track (i + 1) edit).toList ++ ·) := by
  cases index with
  | none => simp [trackEdit]
  | some i =>
    have hinfo : s!"track:{i + 1}" ≠ "info" := by
      intro heq
      have hnumber := readTrackNumber_track (i + 1)
      rw [heq, show readTrackNumber "info" = none by decide] at hnumber
      cases hnumber
    have hnumber := readTrackNumber_track (i + 1)
    simp only [trackEdit]
    generalize s!"track:{i + 1}" = selector at hinfo hnumber
    simp only [List.cons_append, List.nil_append, readPropertyChanges, hnumber, h]
    cases readPropertyChanges rest <;> simp

/-- mkvpropedit reads the change from the arguments of an action. -/
theorem readPropertyChanges_propeditArgs {action : PlannedAction} {request : List String}
    (h : propeditArgs action = .ok request) (rest : List String) :
    readPropertyChanges (request ++ rest) =
      (readPropertyChanges rest).map ((changeOf action).toList ++ ·) := by
  have hchecked {index : Option Nat} {key value : String} {edit : TrackEdit}
      (hsetting : readSetting (key ++ "=" ++ value) = some edit)
      (h : checkedTrackEdit index key value = .ok request) :
      readPropertyChanges (request ++ rest) = (readPropertyChanges rest).map
        ((index.map fun i => PropertyChange.track (i + 1) edit).toList ++ ·) := by
    unfold checkedTrackEdit at h
    split at h
    · split at h
      · obtain rfl := Except.ok.inj h
        exact readPropertyChanges_trackEdit hsetting _ rest
      · cases h
    · obtain rfl := Except.ok.inj h
      simp
  obtain ⟨operation, trackIndex, parameters, description, checked⟩ := action
  cases operation with
  | setDefault | clearDefault | setForced | clearForced =>
    obtain rfl := Except.ok.inj h
    exact readPropertyChanges_trackEdit (by decide) trackIndex rest
  | setTitle =>
    cases parameters with
    | title text => exact hchecked (readSetting_name text) h
    | _ => cases checked
  | setLanguage =>
    cases parameters with
    | language text => exact hchecked (readSetting_language text) h
    | _ => cases checked
  | setContainerTag =>
    cases parameters with
    | setTag tag value =>
      simp only [propeditArgs] at h
      split at h
      · rename_i htag
        obtain ⟨-, -, h⟩ := Lib.bind_eq_ok.mp h
        obtain ⟨-, -, h⟩ := Lib.bind_eq_ok.mp h
        obtain rfl := Except.ok.inj h
        simp [readPropertyChanges, changeOf, PlannedAction.trackEdit, htag]
      · rename_i htag
        obtain rfl := Except.ok.inj h
        simp [changeOf, PlannedAction.trackEdit, htag]
    | _ => cases checked
  | clearContainerTags =>
    obtain rfl := Except.ok.inj h
    simp [readPropertyChanges, changeOf, PlannedAction.trackEdit]
  | deleteContainerTag =>
    cases parameters with
    | deleteTag tag =>
      simp only [propeditArgs] at h
      split at h
      · rename_i htag
        obtain ⟨-, -, h⟩ := Lib.bind_eq_ok.mp h
        obtain rfl := Except.ok.inj h
        simp [readPropertyChanges, changeOf, PlannedAction.trackEdit, htag]
      · rename_i htag
        obtain rfl := Except.ok.inj h
        simp [changeOf, PlannedAction.trackEdit, htag]
    | _ => cases checked
  | _ =>
    obtain rfl := Except.ok.inj h
    simp [changeOf, PlannedAction.trackEdit]

theorem readPropertyChanges_allPropeditArgs {actions : List PlannedAction} {args : List String}
    (h : allPropeditArgs actions = .ok args) :
    readPropertyChanges args = some (actions.filterMap changeOf) := by
  induction actions generalizing args with
  | nil =>
    obtain rfl := Except.ok.inj h
    rfl
  | cons action rest ih =>
    obtain ⟨request, hrequest, h⟩ := Lib.bind_eq_ok.mp h
    obtain ⟨others, hothers, h⟩ := Lib.bind_eq_ok.mp h
    obtain rfl := Except.ok.inj h
    rw [readPropertyChanges_propeditArgs hrequest, ih hothers]
    cases hchange : changeOf action with
    | none => simp [hchange]
    | some change => simp [hchange]

/-- mkvpropedit reads the changes from the arguments. -/
theorem readPropeditArgs_buildPropeditArgs {path : Path} {actions : List PlannedAction}
    {args : List String} (h : buildPropeditArgs path actions = .ok args) :
    readPropeditArgs args = some (actions.filterMap changeOf) := by
  unfold buildPropeditArgs at h
  cases hall : allPropeditArgs actions with
  | error e => simp [hall, Except.map] at h
  | ok others =>
    simp only [hall, Except.map] at h
    obtain rfl := Except.ok.inj h
    exact readPropertyChanges_allPropeditArgs hall

end Voom.Executors.Mkvtoolnix
