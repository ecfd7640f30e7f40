-- SUMMARY: Measuring loudness in front of an execution: which actions are dropped, and when what is left makes the executor panic.
import Voom.Evaluator.Evaluate
import Voom.Executors.Footprint

/-!
# Loudness

An action for nothing but loudness is dropped when its track is loud enough already. The pass
names the actions to drop by their descriptions, so one that shares a description goes as well,
and when no action is left, a failure of FFmpeg is reported for the first action of an empty list.
-/

namespace Voom.Executors.Ffmpeg.Loudness

/-! ## Actions and measurements -/

/-- Measurement values emitted by the first pass of `loudnorm`. -/
structure LoudnessMeasurement where
  inputI : F64
  inputTp : F64
  inputLra : F64
  inputThresh : F64
  targetOffset : F64
  deriving DecidableEq, Repr

structure LoudnessTrackUpdate where
  trackIndex : Nat
  integratedLufs : F64
  truePeakDb : F64
  loudnessRangeLu : Option F64
  deriving DecidableEq, Repr

/-- An action, with the measurement that its loudness settings carry. -/
structure MeasuredAction extends PlannedAction where
  measured : Option LoudnessMeasurement := none
  deriving DecidableEq

/-- The arithmetic of doubles, what `measure_loudness` comes back with for each action, and which
actions of the plan have been measured before. -/
structure LoudnessEnv where
  arith : Evaluator.EvalEnv
  measure : Nat → Except VoomError LoudnessMeasurement
  measured : Nat → Option LoudnessMeasurement

/-- The loudness that is to be measured for an action, and the track. -/
def loudnessRequest (action : MeasuredAction) : Option (LoudnessNormalization × Nat) :=
  match action.parameters with
  | .transcode _ settings =>
    match settings.loudness, action.measured, action.trackIndex with
    | some loudness, none, some trackIndex => some (loudness, trackIndex)
    | _, _, _ => none
  | _ => none

/-- The description says that the action is for nothing else. -/
def isNormalization (action : MeasuredAction) : Bool :=
  decide ("Normalize audio track ".toList <+: action.description.toList)

def clearLoudness (action : MeasuredAction) : MeasuredAction :=
  { action with
    toPlannedAction :=
      withSettings (fun settings => { settings with loudness := none }) action.toPlannedAction }

/-! ## The pass -/

/-- What one round of the pass leaves: the action, a description to remove and an update. -/
structure Round where
  action : MeasuredAction
  removed : Option String := none
  update : Option LoudnessTrackUpdate := none

section Pass

variable (loud : LoudnessEnv)

def prepareRound (item : MeasuredAction × Nat) : Except VoomError Round :=
  match loudnessRequest item.1 with
  | none => .ok { action := item.1 }
  | some (loudness, trackIndex) => do
    let measurement ← loud.measure item.2
    if Evaluator.isWithinTarget loud.arith loudness measurement.inputI then
      if isNormalization item.1 then
        return { action := item.1, removed := some item.1.description }
      else return { action := clearLoudness item.1 }
    else
      return {
        action := { item.1 with measured := some measurement }
        update := some {
          trackIndex
          integratedLufs := loudness.targetLufs
          truePeakDb := loudness.truePeakDb
          loudnessRangeLu := loudness.lraMax } }

/-- Actions named for removal go, with all that have the same description. -/
def prepareLoudnessActions (actions : List MeasuredAction) :
    Except VoomError (List MeasuredAction × List LoudnessTrackUpdate) := do
  let rounds ← actions.zipIdx.mapM (prepareRound loud)
  let removeActions := rounds.filterMap (·.removed)
  let actions := rounds.map (·.action)
  let kept :=
    if removeActions = [] then actions
    else actions.filter fun action => !removeActions.contains action.description
  return (kept, rounds.filterMap (·.update))

end Pass

/-! ## The execution -/

/-- How an execution ends without a result: with an error, or with a panic of its thread. -/
inductive Stop where
  | error (e : VoomError)
  | indexOutOfRange

structure PlanExecution where
  actionResults : List ActionResult
  loudnessUpdates : List LoudnessTrackUpdate

/-- The actions after the search for their quality targets. -/
def searched (env : RunEnv) (loud : LoudnessEnv) (plan : Plan) : List MeasuredAction :=
  plan.actions.zipIdx.map fun p =>
    { toPlannedAction := prepareVmafAction plan.file (env.vmaf p.2) p.1
      measured := loud.measured p.2 }

/-- All that comes before the run of FFmpeg. -/
def startJob (env : RunEnv) (loud : LoudnessEnv) (plan : Plan) :
    Except VoomError (Job × List LoudnessTrackUpdate) :=
  if !env.fileExists then .error (toolError ("file not found: " ++ plan.file.path.display))
  else do
    let (actions, updates) ← prepareLoudnessActions loud (searched env loud plan)
    let job ← jobFor env plan.file (actions.map (·.toPlannedAction))
    ensureHdrTool env job
    return (job, updates)

def executePlanWithRunners (env : RunEnv) (loud : LoudnessEnv) (plan : Plan) :
    Except Stop PlanExecution := do
  let (job, loudnessUpdates) ← (startJob env loud plan).mapError Stop.error
  let command := shellQuoteArgs "ffmpeg" (render job.command)
  match env.ffmpeg with
  | .error e => .error (.error e)
  | .ok output =>
    if output.success then do
      (applyDynamicHdrReinjection env plan job).mapError Stop.error
      (renameOutput env plan job).mapError Stop.error
      let detail : ExecutionDetail :=
        { command, exitCode := some 0, stderrTail := "", durationMs := output.durationMs }
      let actionResults := job.actions.map fun action =>
        (ActionResult.succeeded action.operation action.description).withExecutionDetail detail
      return { actionResults, loudnessUpdates }
    else
      let tail := stderrTail output.stderr 20
      let shown := if tail = "" then "(no output)" else tail
      let error := "ffmpeg exited with " ++ output.statusText ++ ":\n" ++ shown ++ "\ncmd: " ++ command
      let detail : ExecutionDetail :=
        { command, exitCode := output.code, stderrTail := tail, durationMs := output.durationMs }
      -- `actions[0]`
      match job.actions with
      | first :: _ =>
        let result := ActionResult.failure first.operation first.description error
        return { actionResults := [result.withExecutionDetail detail], loudnessUpdates := [] }
      | [] => .error .indexOutOfRange

/-! ## What is to be dropped -/

section Drop

variable (loud : LoudnessEnv)

/-- The track was measured and is within the target. -/
def isSatisfied (item : MeasuredAction × Nat) : Bool :=
  match loudnessRequest item.1, loud.measure item.2 with
  | some (loudness, _), .ok measurement =>
    Evaluator.isWithinTarget loud.arith loudness measurement.inputI
  | _, _ => false

/-- A normalisation that is within its target. -/
def isSuperfluous (item : MeasuredAction × Nat) : Bool :=
  isSatisfied loud item && isNormalization item.1

/-- What becomes of an action that is kept. -/
def rewritten (item : MeasuredAction × Nat) : MeasuredAction :=
  match loudnessRequest item.1, loud.measure item.2 with
  | some _, .ok measurement =>
    if isSatisfied loud item then clearLoudness item.1
    else { item.1 with measured := some measurement }
  | _, _ => item.1

/-- The pass drops the superfluous normalisations and leaves all other actions in order. -/
def DropsExactly (actions : List MeasuredAction) : Prop :=
  ∀ kept updates, prepareLoudnessActions loud actions = .ok (kept, updates) →
    kept = (actions.zipIdx.filter (!isSuperfluous loud ·)).map (rewritten loud)

/-- Every measurement that is asked for comes back. -/
def Measurable (actions : List MeasuredAction) : Prop :=
  ∀ item ∈ actions.zipIdx, loudnessRequest item.1 ≠ none → ∃ m, loud.measure item.2 = .ok m

/-- Of actions with the same description, all are superfluous or none is. -/
def OwnDescriptions (actions : List MeasuredAction) : Prop :=
  ∀ item ∈ actions.zipIdx, isSuperfluous loud item = true →
    ∀ other ∈ actions.zipIdx, other.1.description = item.1.description →
      isSuperfluous loud other = true

end Drop

/-! ## The pass, action by action -/

section

variable {env : RunEnv} {loud : LoudnessEnv} {plan : Plan} {actions : List MeasuredAction}

@[simp] theorem clearLoudness_description (action : MeasuredAction) :
    (clearLoudness action).description = action.description := rfl

@[simp] theorem rewritten_description (item : MeasuredAction × Nat) :
    (rewritten loud item).description = item.1.description := by
  unfold rewritten
  split
  · split
    · rfl
    · rfl
  · rfl

/-- A round that comes back keeps or rewrites the action and names it if it is superfluous. -/
theorem prepareRound_ok {item : MeasuredAction × Nat} {round : Round}
    (h : prepareRound loud item = .ok round) :
    round.action.description = item.1.description ∧
      (isSuperfluous loud item = false → round.action = rewritten loud item) ∧
      round.removed = if isSuperfluous loud item then some item.1.description else none := by
  unfold prepareRound at h
  unfold isSuperfluous rewritten isSatisfied
  cases hrequest : loudnessRequest item.1 with
  | none =>
    rw [hrequest] at h
    obtain rfl := Except.ok.inj h
    simp
  | some request =>
    obtain ⟨loudness, trackIndex⟩ := request
    simp only [hrequest] at h
    obtain ⟨m, hm, h⟩ := Lib.bind_eq_ok.mp h
    simp only [hm]
    cases hwithin : Evaluator.isWithinTarget loud.arith loudness m.inputI with
    | false =>
      simp only [hwithin, Bool.false_eq_true, if_false] at h
      obtain rfl := Except.ok.inj h
      simp
    | true =>
      simp only [hwithin, if_true] at h
      cases hnormalization : isNormalization item.1 with
      | false =>
        simp only [hnormalization, Bool.false_eq_true, if_false] at h
        obtain rfl := Except.ok.inj h
        simp
      | true =>
        simp only [hnormalization, if_true] at h
        obtain rfl := Except.ok.inj h
        simp

/-- A round comes back unless its measurement does not. -/
theorem prepareRound_succeeds {item : MeasuredAction × Nat} :
    Lib.Succeeds (prepareRound loud item) ↔
      (loudnessRequest item.1 ≠ none → ∃ m, loud.measure item.2 = .ok m) := by
  unfold prepareRound
  cases hrequest : loudnessRequest item.1 with
  | none => simp
  | some request =>
    obtain ⟨loudness, trackIndex⟩ := request
    cases hm : loud.measure item.2 with
    | error e => simp [bind, Except.bind]
    | ok m =>
      simp only [Lib.ok_bind]
      split
      · split <;> simp
      · simp

/-- The descriptions of the superfluous actions. -/
def superfluousDescriptions (loud : LoudnessEnv) (actions : List MeasuredAction) : List String :=
  (actions.zipIdx.filter (isSuperfluous loud ·)).map (·.1.description)

theorem mem_superfluousDescriptions {description : String} :
    description ∈ superfluousDescriptions loud actions ↔
      ∃ item ∈ actions.zipIdx, isSuperfluous loud item = true ∧ item.1.description = description := by
  simp [superfluousDescriptions, and_assoc]

theorem removed_of_rounds {items : List (MeasuredAction × Nat)} {rounds : List Round}
    (h : items.mapM (prepareRound loud) = .ok rounds) :
    rounds.filterMap (·.removed) =
      (items.filter (isSuperfluous loud ·)).map (·.1.description) := by
  induction items generalizing rounds with
  | nil =>
    obtain rfl := Except.ok.inj h
    rfl
  | cons item items ih =>
    rw [List.mapM_cons] at h
    obtain ⟨round, hround, h⟩ := Lib.bind_eq_ok.mp h
    obtain ⟨others, hothers, h⟩ := Lib.bind_eq_ok.mp h
    obtain rfl := Except.ok.inj h
    obtain ⟨-, -, hremoved⟩ := prepareRound_ok hround
    rw [List.filterMap_cons, hremoved, ih hothers]
    cases hsuperfluous : isSuperfluous loud item with
    | true => rw [List.filter_cons_of_pos hsuperfluous, List.map_cons, if_pos rfl]
    | false =>
      rw [List.filter_cons_of_neg (by simp [hsuperfluous])]
      rfl

/-- Of the actions whose descriptions are not named, none is superfluous if all those are named. -/
theorem kept_of_rounds {items : List (MeasuredAction × Nat)} {rounds : List Round}
    (names : List String) (h : items.mapM (prepareRound loud) = .ok rounds)
    (hnames : ∀ item ∈ items, isSuperfluous loud item = true → item.1.description ∈ names) :
    (rounds.map (·.action)).filter (fun action => !names.contains action.description) =
      (items.filter fun item => !names.contains item.1.description).map (rewritten loud) := by
  induction items generalizing rounds with
  | nil =>
    obtain rfl := Except.ok.inj h
    rfl
  | cons item items ih =>
    rw [List.mapM_cons] at h
    obtain ⟨round, hround, h⟩ := Lib.bind_eq_ok.mp h
    obtain ⟨others, hothers, h⟩ := Lib.bind_eq_ok.mp h
    obtain rfl := Except.ok.inj h
    rw [List.forall_mem_cons] at hnames
    obtain ⟨hdescription, hrewritten, -⟩ := prepareRound_ok hround
    have hrest := ih hothers hnames.2
    by_cases hnamed : item.1.description ∈ names
    · rw [List.map_cons, List.filter_cons_of_neg (by simpa [hdescription] using hnamed),
        List.filter_cons_of_neg (by simpa using hnamed), hrest]
    · have hkept : isSuperfluous loud item = false := by
        rw [← Bool.not_eq_true]
        exact fun hsuperfluous => hnamed (hnames.1 hsuperfluous)
      rw [List.map_cons, List.filter_cons_of_pos (by simpa [hdescription] using hnamed),
        List.filter_cons_of_pos (by simpa using hnamed), List.map_cons, hrest, hrewritten hkept]

/-- What the pass leaves: the actions with descriptions of their own, rewritten. -/
theorem prepareLoudnessActions_ok {kept : List MeasuredAction} {updates : List LoudnessTrackUpdate}
    (h : prepareLoudnessActions loud actions = .ok (kept, updates)) :
    kept = (actions.zipIdx.filter fun item =>
      !(superfluousDescriptions loud actions).contains item.1.description).map (rewritten loud) := by
  unfold prepareLoudnessActions at h
  obtain ⟨rounds, hrounds, h⟩ := Lib.bind_eq_ok.mp h
  obtain ⟨rfl, -⟩ := Prod.mk.inj (Except.ok.inj h)
  have hremoved : rounds.filterMap (·.removed) = superfluousDescriptions loud actions :=
    removed_of_rounds hrounds
  have hkept := kept_of_rounds (superfluousDescriptions loud actions) hrounds
    fun item hitem hsuperfluous => mem_superfluousDescriptions.mpr ⟨item, hitem, hsuperfluous, rfl⟩
  rw [hremoved, ← hkept]
  split
  · -- with nothing to remove, no action is named
    rename_i hnone
    rw [hnone]
    simp
  · rfl

theorem prepareLoudnessActions_succeeds :
    Lib.Succeeds (prepareLoudnessActions loud actions) ↔ Measurable loud actions := by
  have hrounds : Lib.Succeeds (prepareLoudnessActions loud actions) ↔
      Lib.Succeeds (actions.zipIdx.mapM (prepareRound loud)) := by
    unfold prepareLoudnessActions
    exact Lib.Succeeds.bind_pure_iff
  rw [hrounds, Lib.Succeeds.mapM_iff]
  exact forall₂_congr fun item _ => prepareRound_succeeds

/-- The pass is exact if no description is shared with a superfluous action. -/
theorem dropsExactly_iff :
    DropsExactly loud actions ↔ (Measurable loud actions → OwnDescriptions loud actions) := by
  constructor
  · intro hdrops hmeasurable item hitem hsuperfluous other hother hsame
    obtain ⟨⟨kept, updates⟩, hpass⟩ := prepareLoudnessActions_succeeds.mpr hmeasurable
    have heq := (prepareLoudnessActions_ok hpass).symm.trans (hdrops kept updates hpass)
    -- the named actions are among those kept by right, and as many
    have hsub : actions.zipIdx.filter (fun item =>
        !(superfluousDescriptions loud actions).contains item.1.description) =
          (actions.zipIdx.filter (!isSuperfluous loud ·)).filter fun item =>
            !(superfluousDescriptions loud actions).contains item.1.description := by
      rw [List.filter_filter]
      apply List.filter_congr
      intro item hitem
      cases hsuperfluous : isSuperfluous loud item with
      | false => simp
      | true =>
        have hnamed : item.1.description ∈ superfluousDescriptions loud actions :=
          mem_superfluousDescriptions.mpr ⟨item, hitem, hsuperfluous, rfl⟩
        simpa using hnamed
    have hlength := congrArg List.length heq
    rw [List.length_map, List.length_map, hsub] at hlength
    have hall := List.filter_eq_self.mp (List.filter_sublist.eq_of_length hlength)
    by_contra hnot
    have hnamed : other.1.description ∈ superfluousDescriptions loud actions :=
      mem_superfluousDescriptions.mpr ⟨item, hitem, hsuperfluous, hsame.symm⟩
    have hmem : other ∈ actions.zipIdx.filter (!isSuperfluous loud ·) :=
      List.mem_filter.mpr ⟨hother, by simpa using hnot⟩
    simpa [hnamed] using hall other hmem
  · intro hown kept updates hpass
    have hmeasurable : Measurable loud actions := prepareLoudnessActions_succeeds.mp ⟨_, hpass⟩
    rw [prepareLoudnessActions_ok hpass]
    congr 1
    apply List.filter_congr
    intro other hother
    congr 1
    rw [Bool.eq_iff_iff, List.contains_iff_mem, mem_superfluousDescriptions]
    constructor
    · rintro ⟨item, hitem, hsuperfluous, hsame⟩
      exact hown hmeasurable item hitem hsuperfluous other hother hsame.symm
    · intro hsuperfluous
      exact ⟨other, hother, hsuperfluous, rfl⟩

/-! ## When the execution panics -/

/-- FFmpeg runs and exits with a failure. -/
def ToolFails (env : RunEnv) : Prop := ∃ output, env.ffmpeg = .ok output ∧ output.success = false

/-- The texts of the tracks can be written to a command. -/
def TextsValid (file : MediaFile) : Prop :=
  ∀ t ∈ file.tracks, validateMetadataValue t.language = .ok () ∧ validateMetadataValue t.title = .ok ()

theorem streamParts_succeeds {stream : OutputTrackMetadata} :
    Lib.Succeeds (streamParts stream) ↔
      validateMetadataValue stream.language = .ok () ∧ validateMetadataValue stream.title = .ok () := by
  unfold streamParts
  cases hlanguage : validateMetadataValue stream.language with
  | error e => simp [bind, Except.bind]
  | ok u =>
    cases htitle : validateMetadataValue stream.title with
    | error e => simp [bind, Except.bind]
    | ok u => simp [bind, Except.bind]

theorem outputTracks_all (file : MediaFile) : outputTracks file false = file.tracks := by
  simp [outputTracks]

/-- Without actions, the texts of the tracks decide whether there is a command. -/
theorem applyPreservedStreamMetadata_nil_succeeds {file : MediaFile} :
    Lib.Succeeds (applyPreservedStreamMetadata file false []) ↔ TextsValid file := by
  have hstreams : (∀ stream ∈ outputTrackMetadata file false, Lib.Succeeds (streamParts stream)) ↔
      TextsValid file := by
    rw [outputTrackMetadata, outputTracks_all]
    constructor
    · intro h t ht
      obtain ⟨i, hi, rfl⟩ := List.mem_iff_getElem.mp ht
      exact streamParts_succeeds.mp (h _ (List.mem_mapIdx.mpr ⟨i, hi, rfl⟩))
    · intro h stream hstream
      obtain ⟨i, hi, rfl⟩ := List.mem_mapIdx.mp hstream
      exact streamParts_succeeds.mpr (h _ (List.getElem_mem hi))
  unfold applyPreservedStreamMetadata
  rw [← hstreams]
  by_cases hnone : outputTrackMetadata file false = []
  · simp [hnone]
  · rw [if_neg hnone, applyTrackMetadataActions, Lib.ok_bind, Lib.Succeeds.bind_pure_iff,
      Lib.Succeeds.mapM_iff]

theorem jobFor_nil_succeeds {file : MediaFile} :
    Lib.Succeeds (jobFor env file []) ↔ TextsValid file := by
  have hcommand (hw : Option HwAccelConfig) (path : Path) :
      Lib.Succeeds (buildFfmpegCommand env.command file hw [] path) ↔ TextsValid file := by
    unfold buildFfmpegCommand
    rw [List.mapM_nil]
    exact Lib.Succeeds.bind_pure_iff.trans applyPreservedStreamMetadata_nil_succeeds
  unfold jobFor
  exact Lib.Succeeds.bind_pure_iff.trans (hcommand _ _)

/-- Nothing is transcoded without actions, so no dynamic metadata is to be put back. -/
theorem dynamicHdr_of_nil {file : MediaFile} {job : Job} (h : jobFor env file [] = .ok job) :
    job.actions = [] ∧ job.dynamicHdr = none := by
  unfold jobFor at h
  obtain ⟨command, -, h⟩ := Lib.bind_eq_ok.mp h
  obtain ⟨dynamicHdr, hhdr, h⟩ := Lib.bind_eq_ok.mp h
  obtain rfl := Except.ok.inj h
  exact ⟨rfl, (Except.ok.inj hhdr).symm⟩

theorem actions_of_jobFor {file : MediaFile} {actions : List PlannedAction} {job : Job}
    (h : jobFor env file actions = .ok job) : job.actions = actions := by
  unfold jobFor at h
  obtain ⟨command, -, h⟩ := Lib.bind_eq_ok.mp h
  obtain ⟨dynamicHdr, -, h⟩ := Lib.bind_eq_ok.mp h
  obtain rfl := Except.ok.inj h
  rfl

theorem startJob_nil_iff :
    (∃ job updates, startJob env loud plan = .ok (job, updates) ∧ job.actions = []) ↔
      env.fileExists = true ∧ TextsValid plan.file ∧
        ∃ updates, prepareLoudnessActions loud (searched env loud plan) = .ok ([], updates) := by
  unfold startJob
  cases env.fileExists with
  | false => simp
  | true =>
    simp only [Bool.not_true, Bool.false_eq_true, if_false, true_and]
    constructor
    · rintro ⟨job, updates, hstart, hnil⟩
      obtain ⟨⟨kept, updates⟩, hpass, hstart⟩ := Lib.bind_eq_ok.mp hstart
      obtain ⟨job, hjob, hstart⟩ := Lib.bind_eq_ok.mp hstart
      obtain ⟨-, -, hstart⟩ := Lib.bind_eq_ok.mp hstart
      obtain ⟨rfl, rfl⟩ := Prod.mk.inj (Except.ok.inj hstart)
      rw [actions_of_jobFor hjob, List.map_eq_nil_iff] at hnil
      subst hnil
      exact ⟨jobFor_nil_succeeds.mp ⟨_, hjob⟩, updates, hpass⟩
    · rintro ⟨hvalid, updates, hpass⟩
      obtain ⟨job, hjob⟩ := (@jobFor_nil_succeeds env _).mpr hvalid
      obtain ⟨hactions, hhdr⟩ := dynamicHdr_of_nil hjob
      refine ⟨job, updates, ?_, hactions⟩
      rw [hpass, Lib.ok_bind]
      simp only [List.map_nil, hjob, Lib.ok_bind, ensureHdrTool, hhdr]
      rfl

theorem panics_iff_startJob :
    executePlanWithRunners env loud plan = .error .indexOutOfRange ↔
      (∃ job updates, startJob env loud plan = .ok (job, updates) ∧ job.actions = []) ∧
        ToolFails env := by
  unfold executePlanWithRunners ToolFails
  cases hstart : startJob env loud plan with
  | error e => simp [Except.mapError, bind, Except.bind]
  | ok started =>
    obtain ⟨job, updates⟩ := started
    simp only [Except.mapError, Lib.ok_bind]
    cases hrun : env.ffmpeg with
    | error e => simp
    | ok output =>
      cases hsuccess : output.success with
      | true =>
        -- what follows a run that succeeds ends in errors at worst
        cases hreinject : applyDynamicHdrReinjection env plan job with
        | error e => simp [hsuccess, bind, Except.bind]
        | ok u =>
          cases hrename : renameOutput env plan job with
          | error e => simp [hsuccess, bind, Except.bind]
          | ok u => simp [hsuccess, bind, Except.bind, pure, Except.pure]
      | false =>
        cases hactions : job.actions with
        | nil => simp [hactions, hsuccess]
        | cons first rest => simp [hactions, hsuccess, pure, Except.pure]

/-! ## The execution as the bus sees it -/

/-- Whether an action is within its target, without the measurement. -/
def LoudnessEnv.withinTarget (loud : LoudnessEnv) (actions : List MeasuredAction) (i : Nat) :
    Except VoomError Bool :=
  match actions[i]?.bind loudnessRequest with
  | some (loudness, _) =>
    (loud.measure i).map fun m => Evaluator.isWithinTarget loud.arith loudness m.inputI
  | none => .ok false

/-- The environment of an execution that only knows which actions are within their targets. -/
def forget (env : RunEnv) (loud : LoudnessEnv) (plan : Plan) : RunEnv :=
  { env with withinTarget := loud.withinTarget (searched env loud plan) }

/-- What the bus answers. -/
def Stop.answer : Stop → VoomError
  | .error e => e
  | .indexOutOfRange => panicked

theorem prepareLoudnessAction_eq {item : MeasuredAction × Nat} (h : actions[item.2]? = some item.1) :
    prepareLoudnessAction (loud.withinTarget actions item.2) item.1.toPlannedAction =
      (prepareRound loud item).map fun round => (round.action.toPlannedAction, round.removed) := by
  unfold LoudnessEnv.withinTarget
  rw [h, Option.bind_some]
  unfold prepareLoudnessAction prepareRound
  cases hparameters : item.1.parameters with
  | transcode codec settings =>
    cases htrack : item.1.trackIndex with
    | none => simp [loudnessRequest, hparameters, htrack, Except.map]
    | some trackIndex =>
      cases hloudness : settings.loudness with
      | none => simp [loudnessRequest, hparameters, htrack, hloudness, Except.map]
      | some loudness =>
        cases hmeasured : item.1.measured with
        | some m => simp [loudnessRequest, hparameters, htrack, hloudness, hmeasured, Except.map]
        | none =>
          simp only [loudnessRequest, hparameters, htrack, hloudness, hmeasured]
          cases hm : loud.measure item.2 with
          | error e => rfl
          | ok m =>
            cases hwithin : Evaluator.isWithinTarget loud.arith loudness m.inputI with
            | false =>
              simp only [Lib.map_ok, Lib.ok_bind, hwithin]
              rfl
            | true =>
              simp only [Lib.map_ok, Lib.ok_bind, hwithin, if_true]
              cases hnormalization : isNormalization item.1 with
              | true =>
                rw [if_pos (of_decide_eq_true hnormalization), if_pos rfl]
                rfl
              | false =>
                rw [if_neg (of_decide_eq_false hnormalization), if_neg Bool.false_ne_true]
                rfl
  | _ => simp [loudnessRequest, hparameters, Except.map]

theorem prepareActions_forget :
    prepareActions (forget env loud plan) plan =
      (prepareLoudnessActions loud (searched env loud plan)).map fun result =>
        result.1.map (·.toPlannedAction) := by
  have hitems : (plan.actions.zipIdx.map fun p => prepareVmafAction plan.file (env.vmaf p.2) p.1).zipIdx =
      (searched env loud plan).zipIdx.map fun item => (item.1.toPlannedAction, item.2) := by
    apply List.ext_getElem?
    intro i
    simp only [searched, List.getElem?_zipIdx, List.getElem?_map, Option.map_map]
    cases plan.actions[i]? with
    | none => rfl
    | some action => rfl
  have hrounds : ((searched env loud plan).zipIdx.map fun item =>
        (item.1.toPlannedAction, item.2)).mapM (fun p =>
          prepareLoudnessAction (loud.withinTarget (searched env loud plan) p.2) p.1) =
      ((searched env loud plan).zipIdx.mapM (prepareRound loud)).map
        (List.map fun round => (round.action.toPlannedAction, round.removed)) := by
    rw [← Lib.mapM_map_result, List.mapM_map]
    refine Lib.mapM_congr_mem fun item hitem => ?_
    exact prepareLoudnessAction_eq (List.mem_zipIdx_iff_getElem?.mp hitem)
  unfold prepareActions prepareLoudnessActions forget
  simp only [hitems]
  rw [hrounds]
  cases (searched env loud plan).zipIdx.mapM (prepareRound loud) with
  | error e => rfl
  | ok rounds =>
    have hfilter (names : List String) : ((rounds.map fun round =>
          (round.action.toPlannedAction, round.removed)).map (·.1)).filter
            (fun action => !names.contains action.description) =
        (if names = [] then rounds.map (·.action)
          else (rounds.map (·.action)).filter fun action =>
            !names.contains action.description).map (·.toPlannedAction) := by
      split
      · rename_i hnone
        simp [hnone]
      · simp [List.filter_map, Function.comp_def]
    have hnames : (rounds.map fun round => (round.action.toPlannedAction, round.removed)).filterMap
        (·.2) = rounds.filterMap (·.removed) := by
      rw [List.filterMap_map]
      rfl
    simp only [Lib.map_ok, Lib.ok_bind, hnames]
    exact congrArg Except.ok (hfilter _)

/-- The execution is the one of `FfmpegRun`, with the panic told apart from errors. -/
theorem executePlanWithRunners_forget :
    Ffmpeg.executePlanWithRunners (forget env loud plan) plan =
      ((executePlanWithRunners env loud plan).map (·.actionResults)).mapError Stop.answer := by
  have hstart : Ffmpeg.startJob (forget env loud plan) plan =
      (startJob env loud plan).map Prod.fst := by
    unfold Ffmpeg.startJob startJob
    rw [prepareActions_forget]
    have hfile : (forget env loud plan).fileExists = env.fileExists := rfl
    rw [hfile]
    cases env.fileExists with
    | false => rfl
    | true =>
      cases prepareLoudnessActions loud (searched env loud plan) with
      | error e => rfl
      | ok prepared =>
        obtain ⟨actions, updates⟩ := prepared
        have hjob : jobFor (forget env loud plan) plan.file (actions.map (·.toPlannedAction)) =
          jobFor env plan.file (actions.map (·.toPlannedAction)) := rfl
        simp only [Lib.map_ok, Lib.ok_bind, hjob]
        cases jobFor env plan.file (actions.map (·.toPlannedAction)) with
        | error e => rfl
        | ok job =>
          have htool : ensureHdrTool (forget env loud plan) job = ensureHdrTool env job := rfl
          simp only [Lib.ok_bind, htool]
          cases ensureHdrTool env job with
          | error e => rfl
          | ok u => rfl
  unfold Ffmpeg.executePlanWithRunners executePlanWithRunners
  rw [hstart]
  cases startJob env loud plan with
  | error e => rfl
  | ok started =>
    obtain ⟨job, updates⟩ := started
    have hrun : (forget env loud plan).ffmpeg = env.ffmpeg := rfl
    have hreinject : applyDynamicHdrReinjection (forget env loud plan) plan job =
      applyDynamicHdrReinjection env plan job := rfl
    have hrename : renameOutput (forget env loud plan) plan job = renameOutput env plan job := rfl
    simp only [Lib.map_ok, Lib.ok_bind, Except.mapError, hrun, hreinject, hrename]
    cases env.ffmpeg with
    | error e => rfl
    | ok output =>
      cases hsuccess : output.success with
      | true =>
        simp only [hsuccess, if_true]
        cases applyDynamicHdrReinjection env plan job with
        | error e => rfl
        | ok u =>
          cases renameOutput env plan job with
          | error e => rfl
          | ok u => rfl
      | false =>
        simp only [hsuccess, Bool.false_eq_true, if_false]
        cases job.actions with
        | nil => rfl
        | cons first rest => rfl

/-! ## The actions of the plan -/

/-- The actions as planned. -/
def planned (loud : LoudnessEnv) (plan : Plan) : List MeasuredAction :=
  plan.actions.zipIdx.map fun p => { toPlannedAction := p.1, measured := loud.measured p.2 }

theorem vmafSettings_loudness (answer : Except String IterationResult) (target : Nat)
    (settings : TranscodeSettings) : (vmafSettings answer target settings).loudness = settings.loudness := by
  unfold vmafSettings
  cases answer with
  | ok result => rfl
  | error e =>
    cases hfallback : settings.fallback with
    | none => simp
    | some fallback => simp

/-- The search for a quality target changes neither what is asked for loudness nor the
description. -/
theorem prepareVmafAction_keeps (file : MediaFile) (answer : Except String IterationResult)
    (action : PlannedAction) (measured : Option LoudnessMeasurement) :
    loudnessRequest ⟨prepareVmafAction file answer action, measured⟩ =
        loudnessRequest ⟨action, measured⟩ ∧
      (prepareVmafAction file answer action).description = action.description := by
  unfold prepareVmafAction
  split
  · rename_i codec settings hparameters
    split
    · rename_i target htarget
      refine ⟨?_, rfl⟩
      simp only [loudnessRequest, withSettings, mapSettings, hparameters, vmafSettings_loudness]
    · exact ⟨rfl, rfl⟩
  · exact ⟨rfl, rfl⟩

/-- What the search makes of an action. -/
def searchItem (env : RunEnv) (plan : Plan) (item : MeasuredAction × Nat) : MeasuredAction × Nat :=
  ({ item.1 with
      toPlannedAction := prepareVmafAction plan.file (env.vmaf item.2) item.1.toPlannedAction },
    item.2)

theorem zipIdx_searched (env : RunEnv) (loud : LoudnessEnv) (plan : Plan) :
    (searched env loud plan).zipIdx = (planned loud plan).zipIdx.map (searchItem env plan) := by
  apply List.ext_getElem?
  intro i
  simp only [searched, planned, List.getElem?_zipIdx, List.getElem?_map, Option.map_map]
  cases plan.actions[i]? with
  | none => rfl
  | some action => simp [searchItem]

@[simp] theorem searchItem_description (item : MeasuredAction × Nat) :
    (searchItem env plan item).1.description = item.1.description :=
  (prepareVmafAction_keeps _ _ _ item.1.measured).2

theorem loudnessRequest_searchItem (item : MeasuredAction × Nat) :
    loudnessRequest (searchItem env plan item).1 = loudnessRequest item.1 :=
  (prepareVmafAction_keeps _ _ _ item.1.measured).1

@[simp] theorem isSuperfluous_searchItem (item : MeasuredAction × Nat) :
    isSuperfluous loud (searchItem env plan item) = isSuperfluous loud item := by
  have hindex : (searchItem env plan item).2 = item.2 := rfl
  unfold isSuperfluous isSatisfied isNormalization
  rw [loudnessRequest_searchItem, searchItem_description, hindex]

theorem measurable_searched :
    Measurable loud (searched env loud plan) ↔ Measurable loud (planned loud plan) := by
  unfold Measurable
  rw [zipIdx_searched, List.forall_mem_map]
  refine forall₂_congr fun item _ => ?_
  rw [loudnessRequest_searchItem]
  exact Iff.rfl

theorem ownDescriptions_searched :
    OwnDescriptions loud (searched env loud plan) ↔ OwnDescriptions loud (planned loud plan) := by
  unfold OwnDescriptions
  simp only [zipIdx_searched, List.forall_mem_map, isSuperfluous_searchItem, searchItem_description]

/-- No action is left after the pass. -/
def AllSuperfluous (loud : LoudnessEnv) (actions : List MeasuredAction) : Prop :=
  ∀ item ∈ actions.zipIdx, isSuperfluous loud item = true

theorem allSuperfluous_searched :
    AllSuperfluous loud (searched env loud plan) ↔ AllSuperfluous loud (planned loud plan) := by
  unfold AllSuperfluous
  rw [zipIdx_searched, List.forall_mem_map]
  refine forall₂_congr fun item _ => ?_
  rw [isSuperfluous_searchItem]

/-- A superfluous action was measured. -/
theorem AllSuperfluous.measurable (h : AllSuperfluous loud actions) : Measurable loud actions := by
  intro item hitem _
  have hsatisfied := (Bool.and_eq_true_iff.mp (h item hitem)).1
  unfold isSatisfied at hsatisfied
  cases hm : loud.measure item.2 with
  | error e => simp [hm] at hsatisfied
  | ok m => exact ⟨m, rfl⟩

theorem AllSuperfluous.dropsExactly (h : AllSuperfluous loud actions) : DropsExactly loud actions :=
  dropsExactly_iff.mpr fun _ _ _ _ other hother _ => h other hother

/-- If the pass is exact, it leaves nothing exactly if all actions are superfluous. -/
theorem leavesNothing_iff (h : DropsExactly loud actions) :
    (∃ updates, prepareLoudnessActions loud actions = .ok ([], updates)) ↔
      AllSuperfluous loud actions := by
  constructor
  · rintro ⟨updates, hpass⟩ item hitem
    have hnil := h [] updates hpass
    rw [eq_comm, List.map_eq_nil_iff, List.filter_eq_nil_iff] at hnil
    simpa using hnil item hitem
  · intro hall
    obtain ⟨⟨kept, updates⟩, hpass⟩ := prepareLoudnessActions_succeeds.mpr hall.measurable
    have hkept := h kept updates hpass
    rw [List.filter_eq_nil_iff.mpr, List.map_nil] at hkept
    · exact ⟨updates, hkept ▸ hpass⟩
    · intro item hitem
      simp [hall item hitem]

/-- An execution ends in a value or an error and its pass is exact if and only if no action shares
the description of a superfluous normalisation, and FFmpeg does not run and fail for a plan of
superfluous normalisations. -/
theorem execution_safe_iff (env : RunEnv) (loud : LoudnessEnv) (plan : Plan) :
    (executePlanWithRunners env loud plan ≠ .error .indexOutOfRange ∧
        DropsExactly loud (searched env loud plan)) ↔
      (Measurable loud (planned loud plan) → OwnDescriptions loud (planned loud plan)) ∧
        ¬(AllSuperfluous loud (planned loud plan) ∧ env.fileExists = true ∧
          TextsValid plan.file ∧ ToolFails env) := by
  rw [dropsExactly_iff, measurable_searched, ownDescriptions_searched, and_comm]
  refine and_congr_right fun hown => not_congr ?_
  have hexact : DropsExactly loud (searched env loud plan) := by
    rwa [dropsExactly_iff, measurable_searched, ownDescriptions_searched]
  rw [panics_iff_startJob, startJob_nil_iff, leavesNothing_iff hexact, allSuperfluous_searched]
  constructor
  · rintro ⟨⟨hfile, hvalid, hall⟩, hfails⟩
    exact ⟨hall, hfile, hvalid, hfails⟩
  · rintro ⟨hall, hfile, hvalid, hfails⟩
    exact ⟨⟨hfile, hvalid, hall⟩, hfails⟩

end

namespace Normalised

/-- A film with a soundtrack. -/
def film : MediaFile :=
  { id := 1, path := ⟨["m", "film.mp4"]⟩, container := .mp4
    tracks :=
      [ { index := 0, trackType := .video, codec := "h264" },
        { index := 1, trackType := .audioMain, codec := "aac" } ] }

def config : Config := { available := true, encoders := none, decoders := none, formats := none }

/-- An action as `emit_normalize_audio` plans it. -/
def normalization (tolerance : F64) : PlannedAction :=
  .trackOp .transcodeAudio 1
    (.transcode "aac"
      { loudness := some { LoudnessPreset.defaults .ebuR128 with toleranceLufs := tolerance } })
    "Normalize audio track 1 to -23.0 LUFS"

def plan (actions : List PlannedAction) : Plan :=
  { id := 1, file := film, policyName := "p", phaseName := "q", actions }

/-- Subtraction that is right for the numbers used here. -/
def arith : Evaluator.EvalEnv where
  toLowercase := id
  isMatch _ _ := false
  jsonToString _ := ""
  sub
    | .finite a, .finite b => .finite (a - b)
    | _, _ => .nan
  ofInt n := .finite n
  formatTenths _ := ""

/-- The soundtrack is measured one unit above the target. -/
def loud : LoudnessEnv where
  arith := arith
  measure _ := .ok ⟨.finite (-22), .finite (-2), .finite 5, .finite (-33), .finite 0⟩
  measured _ := none

def failing : RunEnv := { idleEnv true with ffmpeg := .ok (exitsWith 1) }

end Normalised

/-- A film that is loud enough and an FFmpeg that fails: the executor panics. Of two normalisations
with one description, the one that is within its own tolerance takes the other with it. -/
theorem normalised_film_panics :
    canHandle Normalised.config (Normalised.plan [Normalised.normalization (.finite 2)]) = true ∧
      executePlanWithRunners Normalised.failing Normalised.loud
        (Normalised.plan [Normalised.normalization (.finite 2)]) = .error .indexOutOfRange ∧
      canHandle Normalised.config (Normalised.plan
        [Normalised.normalization (.finite 2), Normalised.normalization (.finite (1 / 2))]) = true ∧
      ¬DropsExactly Normalised.loud (searched Normalised.failing Normalised.loud (Normalised.plan
        [Normalised.normalization (.finite 2), Normalised.normalization (.finite (1 / 2))])) := by
  refine ⟨by decide, ?_, by decide, ?_⟩
  · have hall : AllSuperfluous Normalised.loud (searched Normalised.failing Normalised.loud
        (Normalised.plan [Normalised.normalization (.finite 2)])) := by
      unfold AllSuperfluous
      decide +kernel
    have hvalid : TextsValid Normalised.film := by
      unfold TextsValid
      decide +kernel
    exact panics_iff_startJob.mpr ⟨startJob_nil_iff.mpr
      ⟨rfl, hvalid, (leavesNothing_iff hall.dropsExactly).mpr hall⟩, _, rfl, rfl⟩
  · intro hexact
    have hown := dropsExactly_iff.mp hexact fun _ _ _ => ⟨_, rfl⟩
    have hnot : ¬OwnDescriptions Normalised.loud (searched Normalised.failing Normalised.loud
        (Normalised.plan
          [Normalised.normalization (.finite 2), Normalised.normalization (.finite (1 / 2))])) := by
      unfold OwnDescriptions
      decide +kernel
    exact hnot hown

end Voom.Executors.Ffmpeg.Loudness
