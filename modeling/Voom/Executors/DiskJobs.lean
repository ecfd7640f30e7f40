-- SUMMARY: The jobs on disk that the two executors carry out for a plan, and when they report success.
import Voom.Executors.OnDisk

/-!
# The jobs of the executors

The jobs follow the runs of `Execution` for MKVToolNix and the stages of `FfmpegRun` for FFmpeg.
An execution reports success for all actions exactly if its jobs are done, for FFmpeg also if the
store takes the outcomes of the transcodes.
-/

namespace Voom.Executors

open Lib.Jobs (Outcome Run)

/-- The state of a run, as far as the results tell. -/
def stateOf : Outcome → RunState
  | .refused | .aborted => .aborted
  | .failed => .failed
  | .done => .done

@[simp] theorem stateOf_eq_done {outcome : Outcome} : stateOf outcome = .done ↔ outcome = .done := by
  cases outcome <;> simp [stateOf]

@[simp] theorem not_allSucceeded_error (e : VoomError) : ¬ AllSucceeded (.error e) := by
  rintro ⟨results, h, -⟩
  cases h

theorem allSucceeded_ok {results : List ActionResult} :
    AllSucceeded (.ok results) ↔ ∀ r ∈ results, r.success = true := by
  constructor
  · rintro ⟨rs, h, hall⟩
    obtain rfl := Except.ok.inj h
    exact hall
  · exact fun h => ⟨results, rfl, h⟩

/-! ## MKVToolNix -/

namespace Mkvtoolnix

/-- The execution sees the files of the disk. -/
def Env.Sees (env : Env) (plan : Plan) (disk : Disk) : Prop :=
  env.fileExists = (disk plan.file.path).isSome ∧ env.stillExists = (disk plan.file.path).isSome

def editOutcome (env : Env) (path : Path) (actions : List PlannedAction) : Outcome :=
  match buildPropeditArgs path actions, env.propedit with
  | .error _, _ => .refused
  | .ok _, .error _ => .aborted
  | .ok _, .ok output => if output.success then .done else .aborted

def mergeOutcome (env : Env) (path : Path) (session : Option Uuid) (actions : List PlannedAction) :
    Outcome :=
  if !env.stillExists then .refused
  else
    match env.merge.outcome with
    | .error _ => .aborted
    | .ok output =>
      if mergeSucceeded output then
        if placed env.storage session (determineFinalPath path actions) env.merge.rename then .done
        else .aborted
      else .failed

def muxOutcome (env : Env) (plan : Plan) (i : Nat) (action : PlannedAction) : Outcome :=
  match action.parameters with
  | .muxSubtitle _ language _ _ =>
    if !isValidLanguage language then .refused
    else
      match (env.mux i).outcome with
      | .error _ => .aborted
      | .ok output =>
        if muxSucceeded output then
          if placed env.storage plan.scanSession plan.file.path (env.mux i).rename then .done
          else .aborted
        else .failed
  | _ => .refused

theorem editState_eq (env : Env) (path : Path) (actions : List PlannedAction) :
    editState env path actions = stateOf (editOutcome env path actions) := by
  unfold editState editOutcome
  cases buildPropeditArgs path actions with
  | error e => rfl
  | ok args =>
    cases env.propedit with
    | error e => rfl
    | ok output =>
      dsimp only
      split <;> rfl

theorem mergeState_eq (env : Env) (path : Path) (session : Option Uuid)
    (actions : List PlannedAction) :
    mergeState env path session actions = stateOf (mergeOutcome env path session actions) := by
  unfold mergeState mergeOutcome
  cases env.stillExists with
  | false => rfl
  | true =>
    cases env.merge.outcome with
    | error e => rfl
    | ok output =>
      simp only [Bool.not_true, Bool.false_eq_true, if_false]
      split
      · split <;> rfl
      · rfl

theorem muxState_eq (env : Env) (plan : Plan) (i : Nat) (action : PlannedAction) :
    muxState env plan i action = stateOf (muxOutcome env plan i action) := by
  unfold muxState muxOutcome
  cases action.parameters with
  | muxSubtitle subtitlePath language forced title =>
    cases (env.mux i).outcome with
    | error e =>
      dsimp only
      split <;> rfl
    | ok output =>
      dsimp only
      split
      · rfl
      · split
        · split <;> rfl
        · rfl
  | _ => rfl

def editJobs (env : Env) (left : Left) (plan : Plan) : List (Run Path Content) :=
  if edits plan = [] then []
  else [⟨.edit (editPath plan), editOutcome env (editPath plan) (edits plan), left.edit⟩]

def mergeJobs (env : Env) (left : Left) (plan : Plan) : List (Run Path Content) :=
  if merges plan = [] then []
  else
    [⟨.replace (tempPathWithExt plan.file.path env.merge.tempId "mkv") plan.file.path
        (determineFinalPath plan.file.path (merges plan)),
      mergeOutcome env plan.file.path plan.scanSession (merges plan), left.output⟩]

def muxJob (env : Env) (left : Left) (plan : Plan) (action : PlannedAction) (i : Nat) :
    Run Path Content :=
  ⟨.replace (tempPathWithExt plan.file.path (env.mux i).tempId "mkv") plan.file.path plan.file.path,
    muxOutcome env plan i action, left.mux i⟩

/-- The jobs of an execution, in the order of its runs. -/
def jobs (env : Env) (left : Left) (plan : Plan) : List (Run Path Content) :=
  if !env.fileExists then []
  else if plan.actions.any (·.operation = .muxSubtitle) then
    (muxes plan).zipIdx.map fun p => muxJob env left plan p.1 p.2
  else if plan.file.container = .mkv ∨ merges plan = [] then
    editJobs env left plan ++ mergeJobs env left plan
  else mergeJobs env left plan ++ editJobs env left plan

/-- The disk after an execution. -/
def diskAfter (env : Env) (left : Left) (plan : Plan) (disk : Disk) : Disk :=
  Lib.Jobs.after (jobs env left plan) disk

/-- The jobs are the runs of the execution. -/
theorem jobs_states {env : Env} (left : Left) {plan : Plan} (hfile : env.fileExists = true) :
    (jobs env left plan).map (fun r => stateOf r.outcome) = (runs env plan).map Prod.snd := by
  have hedit : (editJobs env left plan).map (fun r => stateOf r.outcome) =
      (editRuns env plan).map Prod.snd := by
    unfold editJobs editRuns
    split
    · rfl
    · simp [editState_eq]
  have hmerge : (mergeJobs env left plan).map (fun r => stateOf r.outcome) =
      (mergeRuns env plan).map Prod.snd := by
    unfold mergeJobs mergeRuns
    split
    · rfl
    · simp [mergeState_eq]
  unfold jobs runs
  simp only [hfile, Bool.not_true, Bool.false_eq_true, if_false]
  split
  · simp [muxJob, muxState_eq]
  · split
    · rw [List.map_append, List.map_append, hedit, hmerge]
    · rw [List.map_append, List.map_append, hedit, hmerge]

/-- All results of an execution are successes exactly if all its parts are done. -/
theorem Parts.allSucceeded_iff {e : Execution} {parts : List (Deed × RunState)} (h : Parts e parts) :
    AllSucceeded e.result ↔ ∀ part ∈ parts, part.2 = .done := by
  induction h with
  | nil => simp [allSucceeded_ok]
  | @cons e e' deed state parts hpart _ ih =>
    rw [List.forall_mem_cons]
    cases state with
    | aborted =>
      obtain ⟨error, herror⟩ := hpart
      simp [Execution.andThen, herror]
    | failed =>
      obtain ⟨-, r, hr, hfailed⟩ := hpart
      refine iff_of_false ?_ (by simp)
      simp only [Execution.andThen, hr]
      cases e'.result with
      | error error => simp [Except.map]
      | ok results => simp [Except.map, allSucceeded_ok, hfailed]
    | done =>
      obtain ⟨-, rs, hrs, -, hall⟩ := hpart
      simp only [Execution.andThen, hrs, true_and]
      rw [← ih]
      cases e'.result with
      | error error => simp [Except.map]
      | ok results =>
        simp only [Except.map, allSucceeded_ok, List.forall_mem_append]
        exact ⟨fun h => h.2, fun h => ⟨hall, h⟩⟩

/-- An execution succeeds exactly if the file is there and all jobs are done. -/
theorem executePlan_allSucceeded_iff (env : Env) (left : Left) (plan : Plan) :
    AllSucceeded (executePlan env plan).result ↔
      env.fileExists = true ∧ ∀ r ∈ jobs env left plan, r.outcome = .done := by
  by_cases hfile : env.fileExists = true
  · rw [(executePlan_parts hfile).allSucceeded_iff]
    have hstates : (∀ part ∈ runs env plan, part.2 = .done) ↔
        ∀ state ∈ (runs env plan).map Prod.snd, state = .done := by
      rw [List.forall_mem_map]
    rw [hstates, ← jobs_states left hfile]
    simp [hfile]
  · simp [executePlan, hfile]

end Mkvtoolnix

/-! ## FFmpeg -/

namespace Ffmpeg

/-- The execution sees the files of the disk. -/
def RunEnv.Sees (env : RunEnv) (plan : Plan) (disk : Disk) : Prop :=
  env.fileExists = (disk plan.file.path).isSome

/-- How the run of FFmpeg goes, once it is started. -/
def jobOutcome (env : RunEnv) (plan : Plan) (job : Job) : Outcome :=
  match env.ffmpeg with
  | .error _ => .aborted
  | .ok output =>
    if output.success then
      match applyDynamicHdrReinjection env plan job, renameOutput env plan job with
      | .ok _, .ok _ => .done
      | _, _ => .aborted
    else if job.actions = [] then .aborted else .failed

def muxOutcome (env : RunEnv) (plan : Plan) (i : Nat) (action : PlannedAction) : Outcome :=
  match action.parameters with
  | .muxSubtitle _ language _ _ =>
    if !isValidLanguage language then .refused
    else
      match (env.mux i).outcome with
      | .error _ => .aborted
      | .ok output =>
        if output.success then
          if Mkvtoolnix.placed env.storage plan.scanSession plan.file.path (env.mux i).rename then .done
          else .aborted
        else .failed
  | _ => .refused

def muxJob (env : RunEnv) (left : Left) (plan : Plan) (action : PlannedAction) (i : Nat) :
    Run Path Content :=
  ⟨.replace (tempPath plan.file.path (env.mux i).tempId) plan.file.path plan.file.path,
    muxOutcome env plan i action, left.mux i⟩

/-- The jobs of an execution: the muxes, or FFmpeg's output. -/
def jobs (env : RunEnv) (left : Left) (plan : Plan) : List (Run Path Content) :=
  if plan.actions.any (·.operation = .muxSubtitle) then
    (Mkvtoolnix.muxes plan).zipIdx.map fun p => muxJob env left plan p.1 p.2
  else
    match startJob env plan with
    | .error _ => []
    | .ok job =>
      [⟨.replace job.outputPath plan.file.path (finalPath plan.file.path job.extension),
        jobOutcome env plan job, left.output⟩]

/-- The disk after an execution. -/
def diskAfter (env : RunEnv) (left : Left) (plan : Plan) (disk : Disk) : Disk :=
  Lib.Jobs.after (jobs env left plan) disk

/-- The store takes the outcomes of the transcodes, or there are none. -/
def OutcomesTaken (env : RunEnv) (plan : Plan) : Prop :=
  env.storage.isSome = true → transcodes plan ≠ [] → env.outcomes = .ok ()

theorem executeMuxSubtitle_cases (env : RunEnv) (plan : Plan) (i : Nat) (action : PlannedAction) :
    (∃ e, executeMuxSubtitle env.storage (env.mux i) plan action = .error e ∧
      (muxOutcome env plan i action).ends = true) ∨
    (∃ r, executeMuxSubtitle env.storage (env.mux i) plan action = .ok [r] ∧
      ((muxOutcome env plan i action = .done ∧ r.success = true) ∨
        (muxOutcome env plan i action = .failed ∧ r.success = false))) := by
  unfold executeMuxSubtitle muxOutcome
  cases action.parameters with
  | muxSubtitle subtitlePath language forced title =>
    dsimp only
    split
    · exact .inl ⟨_, rfl, rfl⟩
    cases (env.mux i).outcome with
    | error e => exact .inl ⟨_, rfl, rfl⟩
    | ok output =>
      dsimp only
      split
      · cases hrecord : recordMutationForPendingWrite env.storage plan.scanSession plan.file.path with
        | error e => exact .inl ⟨e, rfl, by simp [Mkvtoolnix.placed, hrecord, Except.isOk,
            Except.toBool, Outcome.ends]⟩
        | ok u =>
          cases hrename : (env.mux i).rename with
          | error e => exact .inl ⟨_, rfl, by simp [Mkvtoolnix.placed, hrecord, Except.isOk,
              Except.toBool, Outcome.ends]⟩
          | ok u => exact .inr ⟨_, rfl, .inl ⟨by simp [Mkvtoolnix.placed, hrecord, Except.isOk,
              Except.toBool], rfl⟩⟩
      · exact .inr ⟨_, rfl, .inr ⟨rfl, rfl⟩⟩
  | _ => exact .inl ⟨_, rfl, rfl⟩

theorem executeMuxes_allSucceeded_iff (env : RunEnv) (plan : Plan) (actions : List PlannedAction)
    (i : Nat) :
    AllSucceeded (executeMuxes env plan actions i) ↔
      ∀ p ∈ actions.zipIdx i, muxOutcome env plan p.2 p.1 = .done := by
  induction actions generalizing i with
  | nil => simp [executeMuxes, allSucceeded_ok]
  | cons action rest ih =>
    rw [List.zipIdx_cons, List.forall_mem_cons, ← ih]
    rw [show executeMuxes env plan (action :: rest) i =
      executeMuxSubtitle env.storage (env.mux i) plan action >>= fun results =>
        executeMuxes env plan rest (i + 1) >>= fun others => pure (results ++ others) from rfl]
    rcases executeMuxSubtitle_cases env plan i action with ⟨e, he, hends⟩ | ⟨r, hr, hcase⟩
    · refine iff_of_false ?_ ?_
      · rw [he]
        exact not_allSucceeded_error e
      · rintro ⟨hdone, -⟩
        simp only at hdone
        rw [hdone] at hends
        cases hends
    · rw [hr]
      cases hrest : executeMuxes env plan rest (i + 1) with
      | error e => simp [bind, Except.bind]
      | ok results =>
        rcases hcase with ⟨hdone, hsuccess⟩ | ⟨hfailed, hsuccess⟩
        · simp [bind, Except.bind, pure, Except.pure, allSucceeded_ok, hsuccess, hdone]
        · simp [bind, Except.bind, pure, Except.pure, allSucceeded_ok, hsuccess, hfailed]

theorem executePlanWithRunners_allSucceeded_iff (env : RunEnv) (plan : Plan) :
    AllSucceeded (executePlanWithRunners env plan) ↔
      ∃ job, startJob env plan = .ok job ∧ jobOutcome env plan job = .done := by
  unfold executePlanWithRunners
  cases hstart : startJob env plan with
  | error e => simp [bind, Except.bind]
  | ok job =>
    simp only [Except.ok.injEq, exists_eq_left']
    unfold jobOutcome
    cases env.ffmpeg with
    | error e => simp [bind, Except.bind]
    | ok output =>
      cases hsuccess : output.success with
      | true =>
        cases hreinject : applyDynamicHdrReinjection env plan job with
        | error e => simp [bind, Except.bind, hreinject, hsuccess]
        | ok u =>
          cases hrename : renameOutput env plan job with
          | error e => simp [bind, Except.bind, hreinject, hrename, hsuccess]
          | ok u => simp [bind, Except.bind, pure, Except.pure, hreinject, hrename, hsuccess,
            allSucceeded_ok]
      | false =>
        cases hactions : job.actions with
        | nil => simp [bind, Except.bind, hactions, hsuccess]
        | cons first rest =>
          simp [bind, Except.bind, pure, Except.pure, hactions, hsuccess, allSucceeded_ok]

/-- An execution of a plan without muxes succeeds exactly if its output is in place and the store
takes the outcomes. -/
theorem executePlan_allSucceeded_iff {config : Config} {plan : Plan}
    (hhandles : canHandle config plan = true)
    (hmux : plan.actions.any (·.operation = .muxSubtitle) = false) (env : RunEnv) :
    AllSucceeded (executePlan config env plan) ↔
      (∃ job, startJob env plan = .ok job ∧ jobOutcome env plan job = .done) ∧
        OutcomesTaken env plan := by
  rw [← executePlanWithRunners_allSucceeded_iff]
  unfold executePlan OutcomesTaken
  rw [if_neg (by simp [hhandles]), if_neg (by simp [hmux])]
  cases hresult : executePlanWithRunners env plan with
  | error e => simp [bind, Except.bind]
  | ok results =>
    by_cases hstore : env.storage.isSome = true ∧ transcodes plan ≠ []
    · simp only [bind, Except.bind]
      rw [if_pos hstore]
      cases env.outcomes with
      | error e => simp [hstore.1, hstore.2]
      | ok u => simp [pure, Except.pure]
    · simp only [bind, Except.bind]
      rw [if_neg hstore]
      have htaken : env.storage.isSome = true → transcodes plan ≠ [] → env.outcomes = .ok () :=
        fun h h' => absurd ⟨h, h'⟩ hstore
      simp only [pure, Except.pure, and_iff_left htaken]

end Ffmpeg

end Voom.Executors
