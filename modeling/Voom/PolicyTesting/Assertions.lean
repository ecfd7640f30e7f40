-- SUMMARY: The assertions of policy tests, and what they say of the file that the plans lead to.
import Mathlib.Data.List.Dedup
import Voom.Evaluator.Applied
import Voom.Evaluator.Sources

/-!
# Policy-test assertions

An assertion about tracks or codecs reads the actions of all plans of a policy.
The plans are made for the file as it is at the start, so two of them may remove
or transcode the same track; the assertions count actions and not tracks.
-/

namespace Voom.PolicyTesting

open Evaluator

/-! ## The assertions -/

structure AssertionFailure where
  message : String
  deriving DecidableEq, Repr

inductive TrackKind where
  | audio
  | subtitle
  deriving DecidableEq, Repr

def matchesTrackKind (trackType : TrackType) : TrackKind → Bool
  | .audio => trackType.isAudio
  | .subtitle => trackType.isSubtitle

def trackKindName : TrackKind → String
  | .audio => "audio"
  | .subtitle => "subtitle"

def sourceTracks : List Plan → Except AssertionFailure (List Track)
  | [] => .error ⟨"expected plans, got an empty plan list"⟩
  | plan :: _ => .ok plan.file.tracks

/-- `plans.iter().flat_map(|plan| &plan.actions)` -/
def allActions (plans : List Plan) : List PlannedAction := plans.flatMap (·.actions)

/-- A removal of a track of the kind. -/
def removesKind (kind : TrackKind) (a : PlannedAction) : Bool :=
  match a.parameters with
  | .removeTrack _ trackType => matchesTrackKind trackType kind
  | _ => false

def assertTracksKept (plans : List Plan) (expected : Nat) (kind : TrackKind) :
    Except AssertionFailure Unit := do
  let tracks ← sourceTracks plans
  let initial := tracks.countP (matchesTrackKind ·.trackType kind)
  let removed := ((allActions plans).filter (·.operation = .removeTrack)).countP (removesKind kind)
  let actual := initial - removed
  if actual ≠ expected then
    .error ⟨s!"expected {expected} {trackKindName kind} tracks kept, got {actual}"⟩
  else .ok ()

def assertAudioTracksKept (plans : List Plan) (expected : Nat) : Except AssertionFailure Unit :=
  assertTracksKept plans expected .audio

def assertSubtitleTracksKept (plans : List Plan) (expected : Nat) :
    Except AssertionFailure Unit :=
  assertTracksKept plans expected .subtitle

def sourceVideoCodec (plans : List Plan) : Except AssertionFailure String := do
  let tracks ← sourceTracks plans
  match tracks.find? (·.trackType.isVideo) with
  | some track => .ok track.codec
  | none => .error ⟨"expected a source video track"⟩

/-- The codec of a video transcode. -/
def videoCodec (a : PlannedAction) : Option String :=
  match a.operation, a.parameters with
  | .transcodeVideo, .transcode codec _ => some codec
  | _, _ => none

def assertVideoCodec (plans : List Plan) (expected : String) : Except AssertionFailure Unit := do
  let source ← sourceVideoCodec plans
  let actual := (allActions plans).foldl (fun actual a => (videoCodec a).getD actual) source
  if actual ≠ expected then
    .error ⟨s!"expected video codec '{expected}', got '{actual}'"⟩
  else .ok ()

/-! ## The final file -/

/-- The indices that removals of any plan name. -/
def removedAnywhere (plans : List Plan) : List Nat := plans.flatMap removedIndices

/-- The tracks of a kind that no plan removes. -/
def tracksKept (kind : TrackKind) (plans : List Plan) (file : MediaFile) : Nat :=
  file.tracks.countP fun t =>
    matchesTrackKind t.trackType kind && !(removedAnywhere plans).contains t.index

/-- A track as an action leaves it: dropped, transcoded or as it is. -/
def carriedOut (a : PlannedAction) (t : Track) : Option Track :=
  if a.drops t then none
  else if a.trackIndex = some t.index then some { t with codec := (videoCodec a).getD t.codec }
  else some t

/-- The tracks after all plans, in order. -/
def finalTracks (plans : List Plan) (tracks : List Track) : List Track :=
  (allActions plans).foldl (fun tracks a => tracks.filterMap (carriedOut a)) tracks

/-- The codec of the first video track that survives. -/
def finalVideoCodec (plans : List Plan) (file : MediaFile) : Option String :=
  ((finalTracks plans file.tracks).find? (·.trackType.isVideo)).map (·.codec)

/-- The assertions succeed for what is true of the final file and for nothing else. -/
structure JudgesFinalFile (plans : List Plan) (file : MediaFile) : Prop where
  audio : ∀ n, assertAudioTracksKept plans n = .ok () ↔ n = tracksKept .audio plans file
  subtitle : ∀ n, assertSubtitleTracksKept plans n = .ok () ↔ n = tracksKept .subtitle plans file
  video : ∀ codec, assertVideoCodec plans codec = .ok () ↔ finalVideoCodec plans file = some codec

/-! ## When they do -/

/-- No track of the kind is removed twice, or none is left. -/
def CountedOnce (kind : TrackKind) (plans : List Plan) (file : MediaFile) : Prop :=
  (∀ t ∈ file.tracks, matchesTrackKind t.trackType kind = true →
    (removedAnywhere plans).count t.index ≤ 1) ∨
  ∀ t ∈ file.tracks, matchesTrackKind t.trackType kind = true → t.index ∈ removedAnywhere plans

/-- The codecs of the video transcodes. -/
def videoCodecs (plans : List Plan) : List String := (allActions plans).filterMap videoCodec

/-- The codecs of the video transcodes of one track. -/
def videoCodecsOf (plans : List Plan) (index : Nat) : List String :=
  ((allActions plans).filter (·.trackIndex = some index)).filterMap videoCodec

/-- The last video transcode has the codec of the last one of the first video track that survives,
or of this track itself if it is not transcoded; without video transcodes this track has the codec
of the first video track. -/
def CodecShown (plans : List Plan) (file : MediaFile) : Prop :=
  match file.tracks.find? (·.trackType.isVideo) with
  | none => True
  | some source =>
    ∃ t, file.tracks.find? (fun t =>
        t.trackType.isVideo && !(removedAnywhere plans).contains t.index) = some t ∧
      match (videoCodecs plans).getLast? with
      | some codec => ((videoCodecsOf plans t.index).getLast?).getD t.codec = codec
      | none => t.codec = source.codec

/-- What the assertions need of the plans to judge the final file. -/
structure Accountable (plans : List Plan) (file : MediaFile) : Prop where
  nonempty : plans ≠ []
  audio : CountedOnce .audio plans file
  subtitle : CountedOnce .subtitle plans file
  video : CodecShown plans file

/-! ## Tracks -/

/-- The indices of the tracks of a kind. -/
def kindIndices (kind : TrackKind) (file : MediaFile) : List Nat :=
  (file.tracks.filter (matchesTrackKind ·.trackType kind)).map (·.index)

/-- The removals of tracks of a kind, by their indices. -/
def removedOfKind (kind : TrackKind) (plans : List Plan) (file : MediaFile) : List Nat :=
  (removedAnywhere plans).filter (· ∈ kindIndices kind file)

theorem removedAnywhere_eq (plans : List Plan) :
    removedAnywhere plans =
      ((allActions plans).filter (·.operation = .removeTrack)).filterMap (·.trackIndex) := by
  unfold removedAnywhere allActions
  rw [List.filter_flatMap, List.filterMap_flatMap]
  rfl

section

variable {plans : List Plan} {file : MediaFile} {kind : TrackKind}

theorem kindIndices_nodup (hdistinct : DistinctIndices file) : (kindIndices kind file).Nodup :=
  hdistinct.sublist (List.filter_sublist.map _)

theorem mem_kindIndices_iff (hdistinct : DistinctIndices file) {t : Track} (ht : t ∈ file.tracks) :
    t.index ∈ kindIndices kind file ↔ matchesTrackKind t.trackType kind = true := by
  constructor
  · intro h
    obtain ⟨t', ht', hindex⟩ := List.mem_map.mp h
    obtain ⟨ht', hkind⟩ := List.mem_filter.mp ht'
    rwa [hdistinct.eq_of_index ht' ht hindex] at hkind
  · intro h
    exact List.mem_map.mpr ⟨t, List.mem_filter.mpr ⟨ht, h⟩, rfl⟩

/-- A removal is counted for the kind of the track it names. -/
theorem countP_removesKind (hdistinct : DistinctIndices file) {actions : List PlannedAction}
    (h : ∀ a ∈ actions, RemovesTrackOf file a) :
    actions.countP (removesKind kind) =
      ((actions.filterMap (·.trackIndex)).filter (· ∈ kindIndices kind file)).length := by
  induction actions with
  | nil => rfl
  | cons a rest ih =>
    obtain ⟨⟨t, ht, hindex, reason, hparams⟩, hrest⟩ := List.forall_mem_cons.mp h
    have hkind : removesKind kind a = matchesTrackKind t.trackType kind := by
      simp only [removesKind, hparams]
    have hmem : t.index ∈ kindIndices kind file ↔ matchesTrackKind t.trackType kind = true :=
      mem_kindIndices_iff hdistinct ht
    rw [List.countP_cons, ih hrest, List.filterMap_cons_some hindex, List.filter_cons, hkind]
    simp only [hmem]
    cases matchesTrackKind t.trackType kind with
    | true => rfl
    | false => rfl

/-- The tracks kept and those removed, each counted once, are all tracks of the kind. -/
theorem tracksKept_add (hdistinct : DistinctIndices file) :
    tracksKept kind plans file + (removedOfKind kind plans file).dedup.length =
      (kindIndices kind file).length := by
  have hkept : tracksKept kind plans file =
      (kindIndices kind file).countP (fun i => !(removedAnywhere plans).contains i) := by
    unfold tracksKept kindIndices
    rw [List.countP_map, List.countP_filter]
    apply List.countP_congr
    intro t _
    simp [and_comm]
  have hremoved : ((removedOfKind kind plans file).dedup).Perm
      ((kindIndices kind file).filter fun i => (removedAnywhere plans).contains i) := by
    apply (List.perm_ext_iff_of_nodup (List.nodup_dedup _)
      ((kindIndices_nodup hdistinct).filter _)).mpr
    intro i
    simp [removedOfKind, and_comm]
  have hsplit := List.length_eq_countP_add_countP
    (fun i => (removedAnywhere plans).contains i) (l := kindIndices kind file)
  rw [hkept, hremoved.length_eq, ← List.countP_eq_length_filter, hsplit, Nat.add_comm]
  simp

theorem countedOnce_iff (hdistinct : DistinctIndices file) :
    CountedOnce kind plans file ↔ (removedOfKind kind plans file).Nodup ∨
      (removedOfKind kind plans file).dedup.length = (kindIndices kind file).length := by
  have hsum : tracksKept kind plans file + (removedOfKind kind plans file).dedup.length =
      (kindIndices kind file).length := tracksKept_add hdistinct
  apply or_congr
  · rw [List.nodup_iff_count_le_one]
    constructor
    · intro h i
      by_cases hi : i ∈ kindIndices kind file
      · obtain ⟨t, ht, rfl⟩ := List.mem_map.mp hi
        obtain ⟨ht, hkind⟩ := List.mem_filter.mp ht
        exact (List.filter_sublist.count_le _).trans (h t ht hkind)
      · rw [List.count_eq_zero_of_not_mem]
        · exact Nat.zero_le 1
        · intro hmem
          exact hi (of_decide_eq_true (List.mem_filter.mp hmem).2)
    · intro h t ht hkind
      have hmem := (mem_kindIndices_iff hdistinct ht).mpr hkind
      have hcount := h t.index
      rwa [removedOfKind, List.count_filter (by simpa using hmem)] at hcount
  · have hnone : (removedOfKind kind plans file).dedup.length = (kindIndices kind file).length ↔
        tracksKept kind plans file = 0 := by omega
    rw [hnone, tracksKept, List.countP_eq_zero]
    simp

theorem assertTracksKept_eq_ok_iff {tracks : List Track} (hsource : sourceTracks plans = .ok tracks)
    (n : Nat) :
    assertTracksKept plans n kind = .ok () ↔
      n = tracks.countP (matchesTrackKind ·.trackType kind) -
        ((allActions plans).filter (·.operation = .removeTrack)).countP (removesKind kind) := by
  unfold assertTracksKept
  rw [hsource]
  simp only [bind, Except.bind]
  split
  next hne =>
    constructor
    · intro h
      cases h
    · intro h
      exact absurd h.symm hne
  next heq =>
    rw [not_not] at heq
    exact ⟨fun _ => heq.symm, fun _ => rfl⟩

/-- Counting removals gives the tracks kept if and only if each is counted once or none is kept. -/
theorem assertTracksKept_judges_iff (hdistinct : DistinctIndices file)
    (hsource : sourceTracks plans = .ok file.tracks)
    (hremovals : ∀ a ∈ allActions plans, a.operation = .removeTrack → RemovesTrackOf file a) :
    (∀ n, assertTracksKept plans n kind = .ok () ↔ n = tracksKept kind plans file) ↔
      CountedOnce kind plans file := by
  have hremoved : ((allActions plans).filter (·.operation = .removeTrack)).countP
      (removesKind kind) = (removedOfKind kind plans file).length := by
    rw [countP_removesKind hdistinct, ← removedAnywhere_eq]
    · rfl
    · intro a ha
      obtain ⟨ha, hop⟩ := List.mem_filter.mp ha
      exact hremovals a ha (of_decide_eq_true hop)
  have hinitial : file.tracks.countP (matchesTrackKind ·.trackType kind) =
      (kindIndices kind file).length := by
    rw [kindIndices, List.length_map, List.countP_eq_length_filter]
  simp only [assertTracksKept_eq_ok_iff hsource, hremoved, hinitial]
  have hsum : tracksKept kind plans file + (removedOfKind kind plans file).dedup.length =
      (kindIndices kind file).length := tracksKept_add hdistinct
  have hle := (List.dedup_sublist (removedOfKind kind plans file)).length_le
  have hnodup : (removedOfKind kind plans file).Nodup ↔
      (removedOfKind kind plans file).dedup.length = (removedOfKind kind plans file).length := by
    rw [← List.dedup_eq_self]
    exact ⟨congrArg List.length, (List.dedup_sublist _).eq_of_length⟩
  rw [countedOnce_iff hdistinct, hnodup]
  constructor
  · intro h
    have hkept := (h _).mpr rfl
    omega
  · intro h n
    constructor
    · intro hn
      omega
    · intro hn
      omega

/-! ## Codecs -/

theorem foldl_getD_eq {β : Type} (read : PlannedAction → Option β) (actions : List PlannedAction)
    (first : β) :
    actions.foldl (fun value a => (read a).getD value) first =
      ((actions.filterMap read).getLast?).getD first := by
  induction actions generalizing first with
  | nil => rfl
  | cons a rest ih =>
    rw [List.foldl_cons, ih, List.filterMap_cons]
    cases hread : read a with
    | none => rfl
    | some value =>
      rw [List.getLast?_cons]
      simp

/-- One track through all actions. -/
theorem foldl_filterMap (actions : List PlannedAction) (tracks : List Track) :
    actions.foldl (fun tracks a => tracks.filterMap (carriedOut a)) tracks =
      tracks.filterMap fun t => actions.foldlM (fun t a => carriedOut a t) t := by
  induction actions generalizing tracks with
  | nil => simp
  | cons a rest ih =>
    rw [List.foldl_cons, ih, List.filterMap_filterMap]
    apply List.filterMap_congr
    intro t _
    rfl

/-- What the actions make of a track: nothing if one drops it, and otherwise the track in the codec
of its last video transcode. -/
theorem foldlM_carriedOut (actions : List PlannedAction) (t : Track) :
    actions.foldlM (fun t a => carriedOut a t) t =
      if actions.any (·.drops t) then none
      else some { t with codec := (((actions.filter (·.trackIndex = some t.index)).filterMap
        videoCodec).getLast?).getD t.codec } := by
  induction actions generalizing t with
  | nil => rfl
  | cons a rest ih =>
    rw [List.foldlM_cons, List.any_cons]
    cases hdrops : a.drops t with
    | true => simp [carriedOut, hdrops]
    | false =>
      rw [Bool.false_or]
      by_cases hindex : a.trackIndex = some t.index
      · have hstep : carriedOut a t = some { t with codec := (videoCodec a).getD t.codec } := by
          simp [carriedOut, hdrops, hindex]
        have hsame : (fun b : PlannedAction => b.drops { t with
            codec := (videoCodec a).getD t.codec }) = fun b => b.drops t := by
          funext b
          exact b.drops_congr rfl
        rw [hstep, Option.bind_eq_bind, Option.bind_some, ih, hsame,
          List.filter_cons_of_pos (by simpa using hindex), List.filterMap_cons]
        cases hcodec : videoCodec a with
        | none => rfl
        | some codec =>
          rw [List.getLast?_cons]
          simp
      · have hstep : carriedOut a t = some t := by simp [carriedOut, hdrops, hindex]
        rw [hstep, Option.bind_eq_bind, Option.bind_some, ih,
          List.filter_cons_of_neg (by simpa using hindex)]

theorem any_drops_allActions (plans : List Plan) (t : Track) :
    (allActions plans).any (·.drops t) = (removedAnywhere plans).contains t.index := by
  unfold allActions removedAnywhere
  rw [List.any_flatMap, List.contains_eq_any_beq, List.any_flatMap]
  congr 1
  funext plan
  rw [← List.contains_eq_any_beq, Bool.eq_iff_iff, any_drops_iff, List.contains_iff_mem]

/-- The first video track that survives, in the codec of its last video transcode. -/
theorem finalVideoCodec_eq (plans : List Plan) (file : MediaFile) :
    finalVideoCodec plans file =
      (file.tracks.find? fun t =>
        t.trackType.isVideo && !(removedAnywhere plans).contains t.index).map fun t =>
          ((videoCodecsOf plans t.index).getLast?).getD t.codec := by
  have hone (t : Track) : (allActions plans).foldlM (fun t a => carriedOut a t) t =
      if (removedAnywhere plans).contains t.index then none
      else some { t with codec := ((videoCodecsOf plans t.index).getLast?).getD t.codec } := by
    rw [foldlM_carriedOut, any_drops_allActions]
    rfl
  have hvideo (t : Track) : ((allActions plans).foldlM (fun t a => carriedOut a t) t).any
      (·.trackType.isVideo) =
        (t.trackType.isVideo && !(removedAnywhere plans).contains t.index) := by
    rw [hone]
    cases (removedAnywhere plans).contains t.index <;> simp
  unfold finalVideoCodec finalTracks
  rw [foldl_filterMap, List.find?_filterMap]
  simp only [hvideo]
  cases hfound : file.tracks.find? fun t =>
      t.trackType.isVideo && !(removedAnywhere plans).contains t.index with
  | none => rfl
  | some t =>
    have hkept := List.find?_some hfound
    rw [Bool.and_eq_true, Bool.not_eq_true'] at hkept
    rw [Option.bind_some, hone, hkept.2]
    rfl

theorem assertVideoCodec_eq_ok_iff (hsource : sourceTracks plans = .ok file.tracks)
    (codec : String) :
    assertVideoCodec plans codec = .ok () ↔
      ∃ source, file.tracks.find? (·.trackType.isVideo) = some source ∧
        ((videoCodecs plans).getLast?).getD source.codec = codec := by
  unfold assertVideoCodec sourceVideoCodec
  rw [hsource]
  simp only [bind, Except.bind]
  cases file.tracks.find? (·.trackType.isVideo) with
  | none =>
    constructor
    · intro h
      cases h
    · rintro ⟨source, hnone, -⟩
      cases hnone
  | some source =>
    simp only [foldl_getD_eq, Option.some.injEq, exists_eq_left']
    split
    next hne =>
      constructor
      · intro h
        cases h
      · intro h
        exact absurd h hne
    next heq =>
      rw [not_not] at heq
      exact ⟨fun _ => heq, fun _ => rfl⟩

/-- Without video transcodes no track has one. -/
theorem videoCodecsOf_eq_nil (h : (videoCodecs plans).getLast? = none) (index : Nat) :
    (videoCodecsOf plans index).getLast? = none := by
  rw [List.getLast?_eq_none_iff] at h ⊢
  apply List.filterMap_eq_nil_iff.mpr
  intro a ha
  exact List.filterMap_eq_nil_iff.mp h a (List.mem_filter.mp ha).1

theorem assertVideoCodec_judges_iff (hsource : sourceTracks plans = .ok file.tracks) :
    (∀ codec, assertVideoCodec plans codec = .ok () ↔
      finalVideoCodec plans file = some codec) ↔ CodecShown plans file := by
  simp only [assertVideoCodec_eq_ok_iff hsource, finalVideoCodec_eq, CodecShown,
    Option.map_eq_some_iff]
  cases hfirst : file.tracks.find? (·.trackType.isVideo) with
  | none =>
    -- Without a video track there is none that survives.
    have hnone : file.tracks.find? (fun t =>
        t.trackType.isVideo && !(removedAnywhere plans).contains t.index) = none := by
      rw [List.find?_eq_none] at hfirst ⊢
      intro t ht hkept
      rw [Bool.and_eq_true] at hkept
      exact hfirst t ht hkept.1
    simp only [hnone]
    simp
  | some source =>
    simp only [Option.some.injEq, exists_eq_left']
    constructor
    · intro h
      obtain ⟨t, hkept, hcodec⟩ := (h _).mp rfl
      refine ⟨t, hkept, ?_⟩
      cases hlast : (videoCodecs plans).getLast? with
      | none =>
        rw [videoCodecsOf_eq_nil hlast, hlast] at hcodec
        exact hcodec
      | some codec => simpa [hlast] using hcodec
    · rintro ⟨t, hkept, hcodec⟩ codec
      have hvalue : ((videoCodecsOf plans t.index).getLast?).getD t.codec =
          ((videoCodecs plans).getLast?).getD source.codec := by
        cases hlast : (videoCodecs plans).getLast? with
        | none =>
          rw [videoCodecsOf_eq_nil hlast]
          rw [hlast] at hcodec
          exact hcodec
        | some codec =>
          rw [hlast] at hcodec
          exact hcodec
      simp only [hkept, Option.some.injEq, exists_eq_left', hvalue]

end

/-! ## All assertions -/

theorem judgesFinalFile_iff {plans : List Plan} {file : MediaFile} (hdistinct : DistinctIndices file)
    (hfile : ∀ plan ∈ plans, plan.file = file)
    (hremovals : ∀ a ∈ allActions plans, a.operation = .removeTrack → RemovesTrackOf file a) :
    JudgesFinalFile plans file ↔ Accountable plans file := by
  cases hplans : plans with
  | nil =>
    constructor
    · intro h
      -- No number of tracks passes without plans.
      have hok := (h.audio _).mpr rfl
      cases hok
    · intro h
      exact absurd rfl h.nonempty
  | cons plan rest =>
    have hsource : sourceTracks plans = .ok file.tracks := by
      rw [hplans, sourceTracks, hfile plan (by simp [hplans])]
    rw [← hplans]
    have htracks := fun kind => @assertTracksKept_judges_iff _ _ kind hdistinct hsource hremovals
    have haudio := htracks .audio
    have hsubtitle := htracks .subtitle
    have hvideo := @assertVideoCodec_judges_iff _ file hsource
    constructor
    · intro h
      exact ⟨by simp [hplans], haudio.mp h.audio, hsubtitle.mp h.subtitle, hvideo.mp h.video⟩
    · intro h
      exact ⟨haudio.mpr h.audio, hsubtitle.mpr h.subtitle, hvideo.mpr h.video⟩

/-- The assertions judge the final file of a policy if and only if there are plans, the tracks
removed are removed once, unless all of them are, and the codec of the last video transcode is the
one of the video track that survives. -/
theorem assertions_judge_iff (env : EvalEnv) (newId : Nat → Uuid) (policy : Dsl.CompiledPolicy)
    (file : MediaFile) (hdistinct : DistinctIndices file) (capabilities : Option CapabilityMap)
    (phaseOutputLookup : Option (String → Option PhaseOutput)) :
    JudgesFinalFile
        (evaluateWithPhaseOutputs env newId policy file capabilities phaseOutputLookup) file ↔
      Accountable
        (evaluateWithPhaseOutputs env newId policy file capabilities phaseOutputLookup) file := by
  apply judgesFinalFile_iff hdistinct
  · intro plan hplan
    exact file_of_mem_plans hplan
  · intro a ha hremove
    obtain ⟨plan, hplan, ha⟩ := List.mem_flatMap.mp ha
    exact removesTrackOf_of_mem_plans hplan ha hremove

/-- Phases in this order. -/
def policyOf (phases : List Dsl.CompiledPhase) : Dsl.CompiledPolicy :=
  { name := "policy", phases, phaseOrder := phases.map (·.name) }

def plansOf (phases : List Dsl.CompiledPhase) (file : MediaFile) : List Plan :=
  evaluateWithPhaseOutputs plainEnv id (policyOf phases) file none none

def keepEnglish : Dsl.CompiledPhase :=
  { name := "keep", operations := [.keep .audio (some (.langIn ["eng"]))] }

def removeJapanese : Dsl.CompiledPhase :=
  { name := "remove", operations := [.remove .audio (some (.langIn ["jpn"]))] }

theorem keepEnglish_judged : JudgesFinalFile (plansOf [keepEnglish] film) film := by
  apply (assertions_judge_iff plainEnv id (policyOf [keepEnglish]) film (by decide) none none).mpr
  have haudio : ∀ t ∈ film.tracks, matchesTrackKind t.trackType .audio = true →
      (removedAnywhere (plansOf [keepEnglish] film)).count t.index ≤ 1 := by decide
  have hsubtitle : ∀ t ∈ film.tracks, matchesTrackKind t.trackType .subtitle = true →
      (removedAnywhere (plansOf [keepEnglish] film)).count t.index ≤ 1 := by decide
  have hkept : film.tracks.find? (fun t =>
      t.trackType.isVideo && !(removedAnywhere (plansOf [keepEnglish] film)).contains t.index) =
        some { index := 0, trackType := .video, codec := "h264" } := by decide
  have hnone : (videoCodecs (plansOf [keepEnglish] film)).getLast? = none := by decide
  refine ⟨by decide, .inl haudio, .inl hsubtitle, ?_⟩
  refine ⟨_, hkept, ?_⟩
  rw [plansOf] at hnone
  rw [hnone]

/-- A film with cover art as its second video track. -/
def covered : MediaFile :=
  { id := 0, path := ⟨["films", "film.mkv"]⟩, container := .mkv
    tracks :=
      [{ index := 0, trackType := .video, codec := "h264" },
       { index := 1, trackType := .video, codec := "mjpeg" }] }

def transcodeOthers : Dsl.CompiledPhase :=
  { name := "transcode", operations := [.transcode .video "hevc" { preserve := ["h264"] }] }

/-- A track that two phases remove is counted twice, and the codec of the cover art is taken for that
of the film. -/
theorem overlap_miscounted :
    (assertAudioTracksKept (plansOf [keepEnglish, removeJapanese] film) 0 = .ok () ∧
      tracksKept .audio (plansOf [keepEnglish, removeJapanese] film) film = 1 ∧
      ¬ JudgesFinalFile (plansOf [keepEnglish, removeJapanese] film) film) ∧
    assertVideoCodec (plansOf [transcodeOthers] covered) "hevc" = .ok () ∧
      finalVideoCodec (plansOf [transcodeOthers] covered) covered = some "h264" ∧
      ¬ JudgesFinalFile (plansOf [transcodeOthers] covered) covered := by
  have haudio : assertAudioTracksKept (plansOf [keepEnglish, removeJapanese] film) 0 = .ok () := by
    decide
  have hkept : tracksKept .audio (plansOf [keepEnglish, removeJapanese] film) film = 1 := by
    decide
  have hvideo : assertVideoCodec (plansOf [transcodeOthers] covered) "hevc" = .ok () := by
    decide
  have hfinal : finalVideoCodec (plansOf [transcodeOthers] covered) covered = some "h264" := by
    decide
  refine ⟨⟨haudio, hkept, ?_⟩, hvideo, hfinal, ?_⟩
  · intro h
    have hwrong := (h.audio 0).mp haudio
    rw [hkept] at hwrong
    cases hwrong
  · intro h
    have hwrong := (h.video "hevc").mp hvideo
    rw [hfinal] at hwrong
    exact absurd hwrong (by decide)

end Voom.PolicyTesting
