-- SUMMARY: The tracks of a file after an execution of the MKVToolNix executor, and when they are those the plan asks for.
import Voom.Evaluator.Applied
import Voom.Executors.Execution
import Voom.Executors.Matroska

/-!
# Tracks after an execution

The actions of a plan name tracks by their places in the plan's file. For an MKV source
mkvpropedit is run first, on that file. For another source mkvmerge is run first, and
mkvpropedit on what it leaves, where each removed track has moved those after it up by one.
-/

namespace Voom.Executors.Mkvtoolnix

open Evaluator

/-! ## Edits by place -/

/-- A track with all the edits made that are for a place. -/
def editAs (i : Nat) (actions : List PlannedAction) (t : Track) : Track :=
  actions.foldl (fun t a =>
    if a.trackIndex = some i then a.trackEdit.elim t (TrackEdit.make t) else t) t

@[simp] theorem editAs_nil (i : Nat) (t : Track) : editAs i [] t = t := rfl

theorem editAs_cons (i : Nat) (a : PlannedAction) (rest : List PlannedAction) (t : Track) :
    editAs i (a :: rest) t = editAs i rest
      (if a.trackIndex = some i then a.trackEdit.elim t (TrackEdit.make t) else t) := rfl

@[simp] theorem editAs_index (i : Nat) (actions : List PlannedAction) (t : Track) :
    (editAs i actions t).index = t.index := by
  induction actions generalizing t with
  | nil => rfl
  | cons a rest ih =>
    rw [editAs_cons, ih]
    split
    · cases a.trackEdit <;> simp
    · rfl

theorem editAs_own (actions : List PlannedAction) (t : Track) :
    editAs t.index actions t = PlannedAction.editAll actions t := by
  induction actions generalizing t with
  | nil => rfl
  | cons a rest ih =>
    have h := ih (a.onTrack t)
    rw [PlannedAction.onTrack_index] at h
    exact h

/-- Making the changes one after the other edits each place. -/
theorem foldl_changes (actions : List PlannedAction) (tracks : List Track) :
    (actions.filterMap changeOf).foldl PropertyChange.onTracks tracks =
      tracks.mapIdx fun i t => editAs i actions t := by
  induction actions generalizing tracks with
  | nil =>
    apply List.ext_getElem?
    intro i
    simp
  | cons a rest ih =>
    cases hedit : a.trackEdit with
    | none =>
      have hstay (i : Nat) (t : Track) : editAs i (a :: rest) t = editAs i rest t := by
        rw [editAs_cons, hedit]
        simp
      have hchange : changeOf a = none ∨ changeOf a = some .segment := by
        simp only [changeOf, hedit]
        split
        · split <;> simp
        · split <;> simp
        · simp
        · simp
      simp only [hstay]
      rw [← ih tracks]
      rcases hchange with h | h
      · rw [List.filterMap_cons_none h]
      · rw [List.filterMap_cons_some h]
        rfl
    | some e =>
      cases hindex : a.trackIndex with
      | none =>
        have hchange : changeOf a = none := by
          simp [changeOf, hedit, hindex]
        rw [List.filterMap_cons_none hchange, ih]
        simp [editAs_cons, hindex]
      | some j =>
        have hchange : changeOf a = some (.track (j + 1) e) := by
          simp [changeOf, hedit, hindex]
        rw [List.filterMap_cons_some hchange, List.foldl_cons, ih]
        apply List.ext_getElem?
        intro i
        simp only [PropertyChange.onTracks, Nat.add_sub_cancel, List.getElem?_mapIdx,
          List.getElem?_modify, editAs_cons, hindex, hedit, Option.some.injEq, Option.elim_some]
        by_cases hi : j = i
        · subst hi
          simp [Function.comp_def]
        · simp [hi]

/-! ## Merging -/

/-- Each track has its place for index. -/
def AtPositions (tracks : List Track) : Prop :=
  ∀ (i : Nat) (t : Track), tracks[i]? = some t → t.index = i

theorem AtPositions.zipIdx {tracks : List Track} (h : AtPositions tracks) :
    tracks.zipIdx = tracks.map fun t => (t, t.index) := by
  apply List.ext_getElem?
  intro i
  rw [List.getElem?_zipIdx, List.getElem?_map]
  cases ht : tracks[i]? with
  | none => rfl
  | some t => simp [h i t ht]

theorem AtPositions.map {tracks : List Track} (h : AtPositions tracks) {f : Track → Track}
    (hf : ∀ t, (f t).index = t.index) : AtPositions (tracks.map f) := by
  intro i t ht
  rw [List.getElem?_map, Option.map_eq_some_iff] at ht
  obtain ⟨t, ht, rfl⟩ := ht
  rw [hf, h i t ht]

/-- Under the places for indices, editing by place is editing by index. -/
theorem AtPositions.mapIdx_editAs {tracks : List Track} (h : AtPositions tracks)
    (actions : List PlannedAction) :
    (tracks.mapIdx fun i t => editAs i actions t) = tracks.map (PlannedAction.editAll actions) := by
  apply List.ext_getElem?
  intro i
  rw [List.getElem?_mapIdx, List.getElem?_map]
  cases ht : tracks[i]? with
  | none => rfl
  | some t =>
    obtain rfl := h i t ht
    rw [Option.map_some, Option.map_some, editAs_own]

theorem AtPositions.eq_of_index {tracks : List Track} (h : AtPositions tracks) {t t' : Track}
    (ht : t ∈ tracks) (ht' : t' ∈ tracks) (heq : t.index = t'.index) : t = t' := by
  obtain ⟨i, hi⟩ := List.mem_iff_getElem?.mp ht
  obtain ⟨j, hj⟩ := List.mem_iff_getElem?.mp ht'
  rw [h i t hi, h j t' hj] at heq
  subst heq
  exact Option.some.inj (hi.symm.trans hj)

/-- The tracks listed first, the others after them. -/
def arrangeTracks (order : List Nat) (tracks : List Track) : List Track :=
  order.dedup.filterMap (fun i => tracks.find? (·.index = i)) ++ tracks.filter (·.index ∉ order)

theorem run_of_atPositions {tracks : List Track} (h : AtPositions tracks) (command : MergeCommand) :
    command.run tracks = arrangeTracks (command.trackOrder.getD [])
      (tracks.filter fun t => t.index ∉ command.excluded t.trackType) := by
  unfold MergeCommand.run MergeCommand.kept MergeCommand.arrange arrangeTracks
  rw [h.zipIdx, List.filter_map, List.map_append, List.filter_map, List.map_map, List.map_filterMap]
  congr 1
  · congr 1
    funext i
    rw [List.find?_map, Option.map_map]
    simp [Function.comp_def]
  · simp [Function.comp_def]

theorem arrangeTracks_map (order : List Nat) (tracks : List Track) {f : Track → Track}
    (hf : ∀ t, (f t).index = t.index) :
    arrangeTracks order (tracks.map f) = (arrangeTracks order tracks).map f := by
  unfold arrangeTracks
  rw [List.map_append, List.map_filterMap, List.filter_map]
  congr 1
  · congr 1
    funext i
    rw [List.find?_map]
    simp only [Function.comp_def, hf]
  · simp only [decide_not, Function.comp_def, hf]

theorem mem_arrangeTracks {order : List Nat} {tracks : List Track}
    (hinj : ∀ t ∈ tracks, ∀ u ∈ tracks, t.index = u.index → t = u) {t : Track} :
    t ∈ arrangeTracks order tracks ↔ t ∈ tracks := by
  unfold arrangeTracks
  simp only [List.mem_append, List.mem_filterMap, List.mem_dedup, List.mem_filter,
    decide_eq_true_eq]
  constructor
  · rintro (⟨i, -, hfind⟩ | ⟨ht, -⟩)
    · exact List.mem_of_find?_eq_some hfind
    · exact ht
  · intro ht
    by_cases hlisted : t.index ∈ order
    · refine Or.inl ⟨t.index, hlisted, ?_⟩
      cases hfind : tracks.find? (·.index = t.index) with
      | none => simpa using List.find?_eq_none.mp hfind t ht
      | some u =>
        have hindex := List.find?_some hfind
        rw [hinj u (List.mem_of_find?_eq_some hfind) t ht (of_decide_eq_true hindex)]
    · exact Or.inr ⟨ht, hlisted⟩

/-! ## Tracks after an execution -/

/-- The track that a mux adds. -/
def muxedTrack (place : Nat) (action : PlannedAction) : Track :=
  match action.parameters with
  | .muxSubtitle _ language forced title =>
    { index := place, trackType := .subtitleMain, codec := "subrip", language, isForced := forced
      title := title.getD "" }
  | _ => { index := place, trackType := .subtitleMain, codec := "subrip" }

def Deed.onTracks (tracks : List Track) : Deed → List Track
  | .edited args _ _ => ((readPropeditArgs args).bind (runPropedit · tracks)).getD tracks
  | .merged args _ => ((readMergeArgs args).map (MergeCommand.run · tracks)).getD tracks
  | .muxed action => tracks ++ [muxedTrack tracks.length action]

def tracksAfter (env : Env) (plan : Plan) : List Track :=
  (executePlan env plan).deeds.foldl Deed.onTracks plan.file.tracks

/-- The execution does not fail, and leaves the tracks that the plan asks for. -/
def DoneAsPlanned (env : Env) (plan : Plan) : Prop :=
  (∃ results, (executePlan env plan).result = .ok results) ∧
    tracksAfter env plan = (plan.applyTo plan.file).tracks

/-- The command for the run of mkvmerge. -/
def planCommand (env : Env) (plan : Plan) : MergeCommand :=
  mergeCommand plan.file.path (tempPathWithExt plan.file.path env.merge.tempId "mkv") (merges plan)

/-- mkvpropedit is run on the plan's own file. -/
def EditsFirst (plan : Plan) : Prop := plan.file.container = .mkv ∨ merges plan = []

instance (plan : Plan) : Decidable (EditsFirst plan) :=
  inferInstanceAs (Decidable (plan.file.container = .mkv ∨ merges plan = []))

/-- The tracks that mkvpropedit meets. -/
def metTracks (env : Env) (plan : Plan) : List Track :=
  if EditsFirst plan then plan.file.tracks else (planCommand env plan).run plan.file.tracks

/-- Nothing stands in the way: the file and the store are there, mkvmerge ends well, and so does
mkvpropedit if it can make the changes to the file it is run on. -/
structure Works (env : Env) (plan : Plan) : Prop where
  fileExists : env.fileExists = true
  stillExists : env.stillExists = true
  stored : ∀ e, env.storage ≠ some (.error e)
  merged : ∃ output, env.merge.outcome = .ok output ∧ mergeSucceeded output = true
  renamed : env.merge.rename.isOk = true
  muxed : ∀ i, (∃ output, (env.mux i).outcome = .ok output ∧ muxSucceeded output = true) ∧
    (env.mux i).rename.isOk = true
  edited : (∃ output, env.propedit = .ok output ∧ output.success = true) ↔
    (runPropedit ((edits plan).filterMap changeOf) (metTracks env plan)).isSome = true

/-! ## When it is as planned -/

/-- The tracks that the plan does not remove. -/
def surviving (plan : Plan) : List Track :=
  plan.file.tracks.filter (·.index ∉ removedIndices plan)

/-- A removal with one type gets a track of another type listed for its kind. -/
def listsKind (named trackType : TrackType) : Bool :=
  named.isVideo && trackType.isVideo || named.isAudio && trackType.isAudio ||
    named.isSubtitle && trackType.isSubtitle ||
    decide (named = .attachment) && decide (trackType ≠ .attachment)

/-- A removal of the track that mkvmerge understands. -/
def Listed (plan : Plan) (t : Track) : Prop :=
  ∃ a ∈ plan.actions, a.trackIndex = some t.index ∧
    ∃ reason named, a.parameters = .removeTrack reason named ∧ listsKind named t.trackType = true

/-- The numbers of the order that counts. -/
def orderNumbers (plan : Plan) : List Nat := ((merges plan).filterMap orderOf).getLast?.getD []

/-- The tracks that should be met by mkvpropedit. -/
def meets (plan : Plan) : List Track :=
  if EditsFirst plan then plan.file.tracks else surviving plan

/-- Nothing is muxed; the values of the edits are valid, and there is something to edit; each
removal is understood, and no order moves the tracks that stay; the edited tracks are in the file
that is edited, and each track there has the place that the edits for it name, or is edited in the
same way. -/
structure Faithful (plan : Plan) : Prop where
  noMux : ∀ a ∈ plan.actions, a.operation ≠ .muxSubtitle
  valid : ∀ a ∈ edits plan, Lib.Succeeds (propeditArgs a)
  something : edits plan ≠ [] → ∃ a ∈ edits plan, (changeOf a).isSome = true
  listed : ∀ t ∈ plan.file.tracks, t.index ∈ removedIndices plan → Listed plan t
  inPlace : arrangeTracks (orderNumbers plan) (surviving plan) = surviving plan
  present : ∀ a ∈ edits plan, a.trackEdit.isSome = true → ∀ i ∈ a.trackIndex,
    i < (meets plan).length
  unmoved : ∀ (i : Nat) (t : Track), (meets plan)[i]? = some t →
    editAs i plan.actions t = PlannedAction.editAll plan.actions t

/-! ## Removals -/

theorem operation_of_removal {a : PlannedAction} {reason : String} {named : TrackType}
    (h : a.parameters = .removeTrack reason named) : a.operation = .removeTrack := by
  obtain ⟨operation, trackIndex, parameters, description, checked⟩ := a
  subst h
  cases operation <;> first | rfl | cases checked

theorem mem_removals {inCategory : TrackType → Bool} {actions : List PlannedAction} {i : Nat} :
    i ∈ removals inCategory actions ↔ ∃ a ∈ actions, a.trackIndex = some i ∧
      ∃ reason named, a.parameters = .removeTrack reason named ∧
        (inCategory named || decide (named = .attachment)) = true := by
  simp only [removals, List.mem_filterMap]
  constructor
  · rintro ⟨a, ha, h⟩
    split at h
    · rename_i hindex hparams
      split at h
      · rename_i hnamed
        obtain rfl := Option.some.inj h
        exact ⟨a, ha, hindex, _, _, hparams, hnamed⟩
      · cases h
    · cases h
  · rintro ⟨a, ha, hindex, reason, named, hparams, hnamed⟩
    refine ⟨a, ha, ?_⟩
    simp only [operation_of_removal hparams, hindex, hparams]
    exact if_pos hnamed

/-- mkvmerge drops the tracks with a removal that it understands. -/
theorem mem_excluded_iff {env : Env} {plan : Plan} {t : Track} :
    t.index ∈ (planCommand env plan).excluded t.trackType ↔ Listed plan t := by
  have hmem (inCategory : TrackType → Bool) : t.index ∈ removals inCategory (merges plan) ↔
      ∃ a ∈ plan.actions, a.trackIndex = some t.index ∧
        ∃ reason named, a.parameters = .removeTrack reason named ∧
          (inCategory named || decide (named = .attachment)) = true := by
    rw [mem_removals]
    constructor
    · rintro ⟨a, ha, h⟩
      exact ⟨a, (List.mem_filter.mp ha).1, h⟩
    · rintro ⟨a, ha, hindex, reason, named, hparams, h⟩
      refine ⟨a, List.mem_filter.mpr ⟨ha, ?_⟩, hindex, reason, named, hparams, h⟩
      rw [operation_of_removal hparams]
      rfl
  unfold Listed MergeCommand.excluded planCommand mergeCommand
  cases htype : t.trackType <;>
    simp only [TrackType.isVideo, TrackType.isAudio, TrackType.isSubtitle, if_true, if_false,
      Bool.false_eq_true, hmem, List.not_mem_nil, false_iff] <;>
    simp [listsKind, TrackType.isVideo, TrackType.isAudio, TrackType.isSubtitle]

theorem removed_of_listed {plan : Plan} {t : Track} (h : Listed plan t) :
    t.index ∈ removedIndices plan := by
  obtain ⟨a, ha, hindex, reason, named, hparams, -⟩ := h
  apply List.mem_filterMap.mpr
  exact ⟨a, List.mem_filter.mpr ⟨ha, by simp [operation_of_removal hparams]⟩, hindex⟩

/-- The tracks that mkvmerge leaves of a file. -/
theorem planCommand_run {env : Env} {plan : Plan} {tracks : List Track} (h : AtPositions tracks) :
    (planCommand env plan).run tracks = arrangeTracks (orderNumbers plan)
      (tracks.filter fun t => t.index ∉ (planCommand env plan).excluded t.trackType) :=
  run_of_atPositions h (planCommand env plan)

/-- mkvmerge leaves the tracks that should stay exactly if it understands each removal and is
not told to move them. -/
theorem run_eq_surviving_iff {env : Env} {plan : Plan} (h : AtPositions plan.file.tracks) :
    (planCommand env plan).run plan.file.tracks = surviving plan ↔
      (∀ t ∈ plan.file.tracks, t.index ∈ removedIndices plan → Listed plan t) ∧
        arrangeTracks (orderNumbers plan) (surviving plan) = surviving plan := by
  rw [planCommand_run h]
  have hinj : ∀ t ∈ plan.file.tracks.filter
      (fun t => t.index ∉ (planCommand env plan).excluded t.trackType),
      ∀ u ∈ plan.file.tracks.filter
        (fun t => t.index ∉ (planCommand env plan).excluded t.trackType),
        t.index = u.index → t = u := by
    intro t ht u hu heq
    exact h.eq_of_index (List.mem_filter.mp ht).1 (List.mem_filter.mp hu).1 heq
  have hsame (hlisted : ∀ t ∈ plan.file.tracks, t.index ∈ removedIndices plan → Listed plan t) :
      (plan.file.tracks.filter fun t =>
        decide (t.index ∉ (planCommand env plan).excluded t.trackType)) = surviving plan := by
    apply List.filter_congr
    intro t ht
    apply decide_eq_decide.mpr
    rw [mem_excluded_iff]
    exact not_congr ⟨removed_of_listed, hlisted t ht⟩
  constructor
  · intro heq
    have hlisted : ∀ t ∈ plan.file.tracks, t.index ∈ removedIndices plan → Listed plan t := by
      intro t ht hremoved
      by_contra hnot
      have hkept : t ∈ arrangeTracks (orderNumbers plan) (plan.file.tracks.filter fun t =>
          decide (t.index ∉ (planCommand env plan).excluded t.trackType)) := by
        rw [mem_arrangeTracks hinj, List.mem_filter]
        exact ⟨ht, decide_eq_true (mt mem_excluded_iff.mp hnot)⟩
      rw [heq] at hkept
      have hstays := (List.mem_filter.mp hkept).2
      exact of_decide_eq_true hstays hremoved
    rw [hsame hlisted] at heq
    exact ⟨hlisted, heq⟩
  · rintro ⟨hlisted, hplace⟩
    rw [hsame hlisted, hplace]

/-! ## Edits -/

theorem editAs_edits (i : Nat) (plan : Plan) (t : Track) :
    editAs i (edits plan) t = editAs i plan.actions t := by
  unfold edits classifyActions
  induction plan.actions generalizing t with
  | nil => rfl
  | cons a rest ih =>
    cases hkind : a.operation.isMetadataOp with
    | true => simp only [List.filter_cons, hkind, if_true, editAs_cons, ih]
    | false =>
      have hnone : a.trackEdit = none := by
        apply trackEdit_eq_none
        intro hmem
        simp only [List.mem_cons, List.not_mem_nil, or_false] at hmem
        rcases hmem with h | h | h | h | h | h <;> rw [h] at hkind <;> cases hkind
      simp only [List.filter_cons, hkind, Bool.false_eq_true, if_false, editAs_cons, hnone, ih,
        Option.elim_none, ite_self]

theorem runPropedit_isSome_iff {plan : Plan} {tracks : List Track} :
    (runPropedit ((edits plan).filterMap changeOf) tracks).isSome = true ↔
      (∃ a ∈ edits plan, (changeOf a).isSome = true) ∧
        ∀ a ∈ edits plan, a.trackEdit.isSome = true → ∀ i ∈ a.trackIndex, i < tracks.length := by
  have hsome : (edits plan).filterMap changeOf ≠ [] ↔
      ∃ a ∈ edits plan, (changeOf a).isSome = true := by
    rw [Ne, List.filterMap_eq_nil_iff]
    simp [Option.isSome_iff_ne_none]
  have hinFile (a : PlannedAction) : (∀ c ∈ changeOf a, c.inFile tracks = true) ↔
      (a.trackEdit.isSome = true → ∀ i ∈ a.trackIndex, i < tracks.length) := by
    cases hedit : a.trackEdit with
    | none =>
      have hsegment : ∀ c ∈ changeOf a, c = .segment := by
        intro c hc
        simp only [changeOf, hedit] at hc
        split at hc
        · split at hc <;> simp_all
        · split at hc <;> simp_all
        · simp_all
        · cases hc
      constructor
      · simp
      · intro _ c hc
        rw [hsegment c hc]
        rfl
    | some e =>
      cases hindex : a.trackIndex with
      | none => simp [changeOf, hedit, hindex]
      | some i => simp only [changeOf, hedit, hindex, Option.map_some, Option.mem_def,
          Option.some.injEq, PropertyChange.inFile, forall_eq', lt_add_iff_pos_left, add_pos_iff,
          zero_lt_one, or_true, decide_true, Nat.succ_le_iff, Bool.true_and, decide_eq_true_eq,
          Option.isSome_some, forall_const]
  have hall : (((edits plan).filterMap changeOf).all (·.inFile tracks)) = true ↔
      ∀ a ∈ edits plan, a.trackEdit.isSome = true → ∀ i ∈ a.trackIndex, i < tracks.length := by
    rw [List.all_eq_true]
    simp only [List.mem_filterMap]
    constructor
    · intro h a ha
      apply (hinFile a).mp
      intro c hc
      exact h c ⟨a, ha, hc⟩
    · rintro h c ⟨a, ha, hc⟩
      exact (hinFile a).mpr (h a ha) c hc
  unfold runPropedit
  rw [← hsome, ← hall]
  split
  · rename_i h
    simpa using h
  · rename_i h
    simpa using h

/-! ## Runs -/

/-- Runs that are all done leave their deeds in order. -/
theorem Parts.of_done {e : Execution} {parts : List (Deed × RunState)} (h : Parts e parts)
    (hdone : ∀ p ∈ parts, p.2 = .done) :
    (∃ results, e.result = .ok results) ∧ e.deeds = parts.map Prod.fst := by
  induction h with
  | nil => exact ⟨⟨[], rfl⟩, rfl⟩
  | @cons e e' deed state parts hpart _ ih =>
    rw [List.forall_mem_cons] at hdone
    obtain rfl : state = .done := hdone.1
    obtain ⟨hdeeds, rs, hrs, -⟩ := hpart
    obtain ⟨⟨results, hresults⟩, hrest⟩ := ih hdone.2
    simp [Execution.andThen, hrs, hresults, hdeeds, hrest, Except.map]

section

variable {env : Env} {plan : Plan} (hworks : Works env plan)
include hworks

theorem Works.placed (session : Option Uuid) (dest : Path) {rename : Except String Unit}
    (h : rename.isOk = true) : placed env.storage session dest rename = true := by
  unfold Mkvtoolnix.placed recordMutationForPendingWrite
  rw [h, Bool.and_true]
  split
  · rename_i hstorage
    exact absurd hstorage (hworks.stored _)
  · rfl

theorem Works.mergeState (session : Option Uuid) (actions : List PlannedAction) (path : Path) :
    mergeState env path session actions = .done := by
  obtain ⟨output, houtcome, hsucceeded⟩ := hworks.merged
  simp only [Mkvtoolnix.mergeState, hworks.stillExists, houtcome, hsucceeded, if_true,
    hworks.placed session (determineFinalPath path actions) hworks.renamed]

theorem Works.muxState (i : Nat) (action : PlannedAction) :
    muxState env plan i action = .done ∨ muxState env plan i action = .aborted := by
  obtain ⟨⟨output, houtcome, hsucceeded⟩, hrenamed⟩ := hworks.muxed i
  unfold Mkvtoolnix.muxState
  split
  · rename_i language _ _ output' _ houtput
    obtain rfl := Except.ok.inj (houtcome.symm.trans houtput)
    rw [hsucceeded, hworks.placed plan.scanSession plan.file.path hrenamed]
    split
    · exact Or.inr rfl
    · exact Or.inl rfl
  · exact Or.inr rfl

theorem Works.mergeRuns_done : ∀ p ∈ mergeRuns env plan, p.2 = .done := by
  intro p hp
  unfold mergeRuns at hp
  split at hp
  · cases hp
  · rw [List.mem_singleton.mp hp]
    exact hworks.mergeState _ _ _

end

theorem buildPropeditArgs_succeeds (path : Path) {actions : List PlannedAction} :
    (∃ args, buildPropeditArgs path actions = .ok args) ↔
      ∀ a ∈ actions, Lib.Succeeds (propeditArgs a) := by
  have hall : Lib.Succeeds (allPropeditArgs actions) ↔
      ∀ a ∈ actions, Lib.Succeeds (propeditArgs a) := by
    induction actions with
    | nil => simp [allPropeditArgs]
    | cons a rest ih =>
      rw [allPropeditArgs, Lib.Succeeds.bind_iff (fun _ => Lib.Succeeds.bind_pure_iff), ih,
        List.forall_mem_cons]
  rw [← hall]
  exact Lib.Succeeds.map_iff

/-- mkvpropedit can do its work. -/
def EditsSucceed (env : Env) (plan : Plan) : Prop :=
  edits plan = [] ∨ (∀ a ∈ edits plan, Lib.Succeeds (propeditArgs a)) ∧
    (runPropedit ((edits plan).filterMap changeOf) (metTracks env plan)).isSome = true

theorem Works.editState_done_iff {env : Env} {plan : Plan} (hworks : Works env plan) :
    editState env (editPath plan) (edits plan) = .done ↔
      (∀ a ∈ edits plan, Lib.Succeeds (propeditArgs a)) ∧
        (runPropedit ((edits plan).filterMap changeOf) (metTracks env plan)).isSome = true := by
  rw [← hworks.edited, ← buildPropeditArgs_succeeds (editPath plan)]
  unfold editState
  cases hargs : buildPropeditArgs (editPath plan) (edits plan) with
  | error e => simp
  | ok args =>
    cases houtcome : env.propedit with
    | error e => simp
    | ok output => by_cases hsuccess : output.success = true <;> simp [hsuccess]

theorem editState_cases (env : Env) (path : Path) (actions : List PlannedAction) :
    editState env path actions = .done ∨ editState env path actions = .aborted := by
  unfold editState
  split
  · split
    · exact Or.inl rfl
    · exact Or.inr rfl
  · exact Or.inr rfl

/-! ## What an execution leaves -/

theorem foldl_mergeRuns (env : Env) (plan : Plan) (tracks : List Track) :
    ((mergeRuns env plan).map Prod.fst).foldl Deed.onTracks tracks =
      (planCommand env plan).run tracks := by
  unfold mergeRuns
  split
  · rename_i hnone
    have hcommand : planCommand env plan = { planCommand env plan with
        notVideo := [], notAudio := [], notSubtitle := [], trackOrder := none } := by
      simp [planCommand, mergeCommand, hnone, removals]
    rw [hcommand]
    simp [MergeCommand.run, MergeCommand.arrange, MergeCommand.kept, MergeCommand.excluded]
  · simp [mergeDeed, Deed.onTracks, readMergeArgs_buildMergeArgs, planCommand]

theorem foldl_editRuns {env : Env} {plan : Plan} {tracks : List Track}
    (hvalid : ∀ a ∈ edits plan, Lib.Succeeds (propeditArgs a))
    (hrun : edits plan = [] ∨
      (runPropedit ((edits plan).filterMap changeOf) tracks).isSome = true) :
    ((editRuns env plan).map Prod.fst).foldl Deed.onTracks tracks =
      tracks.mapIdx fun i t => editAs i plan.actions t := by
  simp only [← editAs_edits]
  rw [← foldl_changes]
  unfold editRuns
  split
  · rename_i hnone
    simp [hnone]
  · rename_i hne
    obtain ⟨args, hargs⟩ := (buildPropeditArgs_succeeds (editPath plan)).mpr hvalid
    obtain ⟨after, hafter⟩ := Option.isSome_iff_exists.mp (hrun.resolve_left hne)
    have hfold : after = ((edits plan).filterMap changeOf).foldl PropertyChange.onTracks tracks := by
      unfold runPropedit at hafter
      split at hafter
      · exact (Option.some.inj hafter).symm
      · cases hafter
    simp only [List.map_cons, List.map_nil, List.foldl_cons, List.foldl_nil, editDeed, hargs,
      Except.toOption, Option.getD_some, Deed.onTracks, readPropeditArgs_buildPropeditArgs hargs,
      Option.bind_some, hafter, hfold]

/-- What an execution without a mux does, if mkvpropedit can do its work. -/
theorem Works.tracksAfter {env : Env} {plan : Plan} (hworks : Works env plan)
    (hmux : ¬ plan.actions.any (·.operation = .muxSubtitle) = true)
    (hedits : EditsSucceed env plan) :
    (∃ results, (executePlan env plan).result = .ok results) ∧
      tracksAfter env plan =
        if EditsFirst plan then
          (planCommand env plan).run
            (plan.file.tracks.mapIdx fun i t => editAs i plan.actions t)
        else
          ((planCommand env plan).run plan.file.tracks).mapIdx fun i t =>
            editAs i plan.actions t := by
  have hdone : ∀ p ∈ runs env plan, p.2 = .done := by
    intro p hp
    rcases (mem_runs_of_no_mux hmux).mp hp with hp | hp
    · unfold editRuns at hp
      split at hp
      · cases hp
      · rename_i hne
        rw [List.mem_singleton.mp hp]
        exact hworks.editState_done_iff.mpr (hedits.resolve_left hne)
    · exact hworks.mergeRuns_done p hp
  obtain ⟨hresult, hdeeds⟩ := (executePlan_parts hworks.fileExists).of_done hdone
  refine ⟨hresult, ?_⟩
  have hvalid : ∀ a ∈ edits plan, Lib.Succeeds (propeditArgs a) := by
    rcases hedits with hnone | h
    · simp [hnone]
    · exact h.1
  have hrun : edits plan = [] ∨
      (runPropedit ((edits plan).filterMap changeOf) (metTracks env plan)).isSome = true :=
    hedits.imp_right And.right
  unfold Mkvtoolnix.tracksAfter
  rw [hdeeds]
  unfold runs
  rw [if_neg hmux]
  unfold metTracks at hrun
  by_cases hfirst : EditsFirst plan
  · rw [if_pos hfirst] at hrun ⊢
    rw [if_pos (show plan.file.container = .mkv ∨ merges plan = [] from hfirst), List.map_append,
      List.foldl_append, foldl_editRuns hvalid hrun, foldl_mergeRuns]
  · rw [if_neg hfirst] at hrun ⊢
    rw [if_neg (show ¬ (plan.file.container = .mkv ∨ merges plan = []) from hfirst),
      List.map_append, List.foldl_append, foldl_mergeRuns, foldl_editRuns hvalid hrun]

/-! ## Comparison -/

section

variable {env : Env} {plan : Plan} (hpositions : AtPositions plan.file.tracks)
include hpositions

omit hpositions in
theorem mem_of_mem_surviving {t : Track} (ht : t ∈ surviving plan) : t ∈ plan.file.tracks :=
  (List.mem_filter.mp ht).1

theorem eq_of_indices {R S : List Track} (hR : ∀ t ∈ R, t ∈ plan.file.tracks)
    (hS : ∀ t ∈ S, t ∈ plan.file.tracks) (heq : R.map (·.index) = S.map (·.index)) : R = S := by
  induction R generalizing S with
  | nil =>
    rw [List.map_nil, eq_comm, List.map_eq_nil_iff] at heq
    exact heq.symm
  | cons t R ih =>
    cases S with
    | nil => simp at heq
    | cons u S =>
      rw [List.map_cons, List.map_cons, List.cons.injEq] at heq
      rw [List.forall_mem_cons] at hR hS
      rw [hpositions.eq_of_index hR.1 hS.1 heq.1, ih hR.2 hS.2 heq.2]

theorem mem_of_mem_run {t : Track} (ht : t ∈ (planCommand env plan).run plan.file.tracks) :
    t ∈ plan.file.tracks := by
  rw [planCommand_run hpositions, mem_arrangeTracks] at ht
  · exact (List.mem_filter.mp ht).1
  · intro t ht u hu heq
    exact hpositions.eq_of_index (List.mem_filter.mp ht).1 (List.mem_filter.mp hu).1 heq

theorem run_map {f : Track → Track} (hindex : ∀ t, (f t).index = t.index)
    (htype : ∀ t, (f t).trackType = t.trackType) :
    (planCommand env plan).run (plan.file.tracks.map f) =
      ((planCommand env plan).run plan.file.tracks).map f := by
  rw [planCommand_run (hpositions.map hindex), planCommand_run hpositions, List.filter_map,
    arrangeTracks_map _ _ hindex]
  congr 2
  apply List.filter_congr
  intro t _
  simp [hindex, htype]

theorem edit_then_merge_iff :
    (planCommand env plan).run (plan.file.tracks.mapIdx fun i t => editAs i plan.actions t) =
        (surviving plan).map (PlannedAction.editAll plan.actions) ↔
      (planCommand env plan).run plan.file.tracks = surviving plan := by
  rw [hpositions.mapIdx_editAs, run_map hpositions (PlannedAction.editAll_index plan.actions)
    (PlannedAction.editAll_trackType plan.actions)]
  constructor
  · intro heq
    apply eq_of_indices hpositions (fun t => mem_of_mem_run hpositions)
      (fun t => mem_of_mem_surviving)
    have hindices := congrArg (List.map (·.index)) heq
    simpa [Function.comp_def] using hindices
  · intro heq
    rw [heq]

theorem merge_then_edit_iff :
    (((planCommand env plan).run plan.file.tracks).mapIdx fun i t => editAs i plan.actions t) =
        (surviving plan).map (PlannedAction.editAll plan.actions) ↔
      (planCommand env plan).run plan.file.tracks = surviving plan ∧
        ∀ (i : Nat) (t : Track), (surviving plan)[i]? = some t →
          editAs i plan.actions t = PlannedAction.editAll plan.actions t := by
  constructor
  · intro heq
    have hrun : (planCommand env plan).run plan.file.tracks = surviving plan := by
      apply eq_of_indices hpositions (fun t => mem_of_mem_run hpositions)
        (fun t => mem_of_mem_surviving)
      apply List.ext_getElem?
      intro i
      have hplace := congrArg (fun tracks : List Track => (tracks[i]?).map (·.index)) heq
      simpa [Function.comp_def] using hplace
    refine ⟨hrun, ?_⟩
    intro i t ht
    have hplace := congrArg (·[i]?) heq
    simpa [hrun, ht] using hplace
  · rintro ⟨hrun, hsame⟩
    rw [hrun]
    apply List.ext_getElem?
    intro i
    rw [List.getElem?_mapIdx, List.getElem?_map]
    cases ht : (surviving plan)[i]? with
    | none => rfl
    | some t => rw [Option.map_some, Option.map_some, hsame i t ht]

end

/-- An execution that muxes adds a track, which no plan asks for in so many words. -/
theorem not_doneAsPlanned_of_mux {env : Env} {plan : Plan} (hworks : Works env plan)
    (hmux : plan.actions.any (·.operation = .muxSubtitle) = true) : ¬ DoneAsPlanned env plan := by
  rintro ⟨⟨results, hresults⟩, htracks⟩
  have hparts : Parts (executePlan env plan) (runs env plan) := executePlan_parts hworks.fileExists
  have hruns : runs env plan =
      (muxes plan).zipIdx.map fun p => (.muxed p.1, muxState env plan p.2 p.1) := by
    unfold runs
    rw [if_pos hmux]
  have hdone : ∀ p ∈ runs env plan, p.2 = .done := by
    intro p hp
    by_contra hnot
    have haborted : RunState.aborted ∈ (runs env plan).map Prod.snd := by
      apply List.mem_map.mpr
      refine ⟨p, hp, ?_⟩
      rw [hruns] at hp
      obtain ⟨⟨action, i⟩, -, rfl⟩ := List.mem_map.mp hp
      exact (hworks.muxState i action).resolve_left hnot
    obtain ⟨error, herror⟩ := hparts.result.1 haborted
    rw [hresults] at herror
    cases herror
  have hlength (actions : List (PlannedAction × Nat)) (tracks : List Track) :
      ((actions.map fun p => Deed.muxed p.1).foldl Deed.onTracks tracks).length =
        tracks.length + actions.length := by
    induction actions generalizing tracks with
    | nil => rfl
    | cons action rest ih =>
      rw [List.map_cons, List.foldl_cons, ih]
      simp [Deed.onTracks]
      omega
  have hafter : (tracksAfter env plan).length = plan.file.tracks.length + (muxes plan).length := by
    have hdeeds := (hparts.of_done hdone).2
    rw [hruns, List.map_map] at hdeeds
    have h := hlength (muxes plan).zipIdx plan.file.tracks
    rw [List.length_zipIdx] at h
    rw [tracksAfter, hdeeds]
    exact h
  have hspec : (plan.applyTo plan.file).tracks.length ≤ plan.file.tracks.length := by
    rw [applyTo_tracks, List.length_map]
    exact List.length_filter_le _ _
  have hmuxes : 0 < (muxes plan).length := by
    obtain ⟨a, ha, hop⟩ := List.any_eq_true.mp hmux
    exact List.length_pos_of_mem (List.mem_filter.mpr ⟨ha, hop⟩)
  rw [htracks] at hafter
  omega

theorem editsSucceed_of_result {env : Env} {plan : Plan} (hworks : Works env plan)
    (hmux : ¬ plan.actions.any (·.operation = .muxSubtitle) = true) {results : List ActionResult}
    (hresults : (executePlan env plan).result = .ok results) : EditsSucceed env plan := by
  by_cases hnone : edits plan = []
  · exact Or.inl hnone
  · rcases editState_cases env (editPath plan) (edits plan) with hdone | haborted
    · exact Or.inr (hworks.editState_done_iff.mp hdone)
    · have hmem : RunState.aborted ∈ (runs env plan).map Prod.snd := by
        apply List.mem_map.mpr
        refine ⟨(editDeed env (editPath plan) (edits plan), .aborted), ?_, rfl⟩
        rw [mem_runs_of_no_mux hmux, editRuns, if_neg hnone, haborted]
        exact Or.inl List.mem_cons_self
      obtain ⟨error, herror⟩ := (executePlan_parts hworks.fileExists).result.1 hmem
      rw [hresults] at herror
      cases herror

/-- Executions edit and remove the tracks that the plan names exactly when the plan is faithful:
above all, when no removed track stands before an edited one unless the source is MKV, and no
attachment is to be removed. -/
theorem execution_done_as_planned_iff (env : Env) (plan : Plan)
    (hpositions : AtPositions plan.file.tracks) (hworks : Works env plan) :
    DoneAsPlanned env plan ↔ Faithful plan := by
  have hspec : (plan.applyTo plan.file).tracks =
      (surviving plan).map (PlannedAction.editAll plan.actions) := applyTo_tracks plan
  by_cases hmux : plan.actions.any (·.operation = .muxSubtitle) = true
  · -- neither holds
    constructor
    · exact fun h => absurd h (not_doneAsPlanned_of_mux hworks hmux)
    · intro h
      obtain ⟨a, ha, hop⟩ := List.any_eq_true.mp hmux
      exact absurd (of_decide_eq_true hop) (h.noMux a ha)
  · have hmet (hrun : (planCommand env plan).run plan.file.tracks = surviving plan) :
        metTracks env plan = meets plan := by
      unfold metTracks meets
      rw [hrun]
    constructor
    · rintro ⟨⟨results, hresults⟩, htracks⟩
      have hedits := editsSucceed_of_result hworks hmux hresults
      rw [(hworks.tracksAfter hmux hedits).2, hspec] at htracks
      have hkept : (planCommand env plan).run plan.file.tracks = surviving plan ∧
          ∀ (i : Nat) (t : Track), (meets plan)[i]? = some t →
            editAs i plan.actions t = PlannedAction.editAll plan.actions t := by
        unfold meets
        by_cases hfirst : EditsFirst plan
        · rw [if_pos hfirst] at htracks ⊢
          refine ⟨(edit_then_merge_iff hpositions).mp htracks, ?_⟩
          intro i t ht
          obtain rfl := hpositions i t ht
          exact editAs_own plan.actions t
        · rw [if_neg hfirst] at htracks ⊢
          exact (merge_then_edit_iff hpositions).mp htracks
      obtain ⟨hlisted, hplace⟩ := (run_eq_surviving_iff hpositions).mp hkept.1
      rw [EditsSucceed, runPropedit_isSome_iff, hmet hkept.1] at hedits
      refine ⟨?_, ?_, ?_, hlisted, hplace, ?_, hkept.2⟩
      · intro a ha hop
        exact hmux (List.any_eq_true.mpr ⟨a, ha, decide_eq_true hop⟩)
      · rcases hedits with hnone | h
        · simp [hnone]
        · exact h.1
      · exact fun hne => (hedits.resolve_left hne).2.1
      · rcases hedits with hnone | h
        · simp [hnone]
        · exact h.2.2
    · intro h
      have hrun : (planCommand env plan).run plan.file.tracks = surviving plan :=
        (run_eq_surviving_iff hpositions).mpr ⟨h.listed, h.inPlace⟩
      have hedits : EditsSucceed env plan := by
        by_cases hnone : edits plan = []
        · exact Or.inl hnone
        · rw [EditsSucceed, runPropedit_isSome_iff, hmet hrun]
          exact Or.inr ⟨h.valid, h.something hnone, h.present⟩
      obtain ⟨hresult, htracks⟩ := hworks.tracksAfter hmux hedits
      refine ⟨hresult, ?_⟩
      have hunmoved := h.unmoved
      unfold meets at hunmoved
      rw [htracks, hspec]
      by_cases hfirst : EditsFirst plan
      · rw [if_pos hfirst]
        exact (edit_then_merge_iff hpositions).mpr hrun
      · rw [if_neg hfirst] at hunmoved ⊢
        exact (merge_then_edit_iff hpositions).mpr ⟨hrun, hunmoved⟩

/-! ## A conversion that flags another track -/

/-- An AVI file with three audio tracks. -/
def dubbedFilm : MediaFile :=
  { id := 0, path := ⟨["films", "film.avi"]⟩, container := .avi
    tracks :=
      [{ index := 0, trackType := .video, codec := "h264" },
       { index := 1, trackType := .audioMain, codec := "ac3", language := "eng" },
       { index := 2, trackType := .audioMain, codec := "ac3", language := "jpn" },
       { index := 3, trackType := .audioMain, codec := "ac3", language := "fra" }] }

/-- Convert to MKV, remove one audio track and make another the default. -/
def convertPlan (removed flagged : Nat) : Plan :=
  { id := 0, file := dubbedFilm, policyName := "policy", phaseName := "convert"
    actions :=
      [ .fileOp .convertContainer (.container .mkv) "Convert container from avi to mkv",
        .trackOp .removeTrack removed (.removeTrack "remove filter matched" .audioMain)
          "Remove audio track",
        .trackOp .setDefault flagged .empty "Set default on audio track" ] }

def endsWell : ToolOutput := { code := some 0, statusText := "exit status: 0", stderr := "", durationMs := 1 }

/-- All runs end well. -/
def goodEnv : Env :=
  { fileExists := true, stillExists := true, storage := none, propedit := .ok endsWell
    merge := ⟨"1", .ok endsWell, .ok ()⟩
    mux := fun _ => ⟨"2", .ok endsWell, .ok ()⟩ }

theorem goodEnv_works {plan : Plan}
    (h : (runPropedit ((edits plan).filterMap changeOf) (metTracks goodEnv plan)).isSome = true) :
    Works goodEnv plan where
  fileExists := rfl
  stillExists := rfl
  stored e := by simp [goodEnv]
  merged := ⟨endsWell, rfl, rfl⟩
  renamed := rfl
  muxed _ := ⟨⟨endsWell, rfl, rfl⟩, rfl⟩
  edited := iff_of_true ⟨endsWell, rfl, rfl⟩ h

theorem dubbedFilm_atPositions : AtPositions dubbedFilm.tracks := by
  intro i t ht
  match i with
  | 0 | 1 | 2 | 3 => obtain rfl := Option.some.inj ht; rfl
  | _ + 4 => cases ht

/-- The removed track stands after the flagged one. -/
theorem removal_after_edit_is_faithful : Faithful (convertPlan 3 1) := by
  have hworks : Works goodEnv (convertPlan 3 1) := goodEnv_works (by decide)
  apply (execution_done_as_planned_iff goodEnv (convertPlan 3 1) dubbedFilm_atPositions hworks).mp
  exact ⟨⟨_, rfl⟩, by decide⟩

/-- The first audio track is removed and the second should be the default, but the third is. -/
theorem removal_before_edit_flags_next :
    canHandle true (convertPlan 1 2) = true ∧ AtPositions (convertPlan 1 2).file.tracks ∧
      Works goodEnv (convertPlan 1 2) ∧
      (tracksAfter goodEnv (convertPlan 1 2)).map (fun t => (t.index, t.isDefault)) =
        [(0, false), (2, false), (3, true)] ∧
      ¬ DoneAsPlanned goodEnv (convertPlan 1 2) := by
  have hafter : tracksAfter goodEnv (convertPlan 1 2) ≠
      ((convertPlan 1 2).applyTo (convertPlan 1 2).file).tracks := by decide
  exact ⟨by decide, dubbedFilm_atPositions, goodEnv_works (by decide),
    by decide, fun h => hafter h.2⟩

end Voom.Executors.Mkvtoolnix
