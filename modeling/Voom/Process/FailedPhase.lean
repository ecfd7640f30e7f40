-- SUMMARY: A failed phase leaves the file as the phase found it: the law, and the runs in which it holds.
import Voom.Lib.Run
import Voom.Process.Rounds

/-!
# Failed phases

The law relates three stores over a run of phases: the disk, the backup
manager's records, and the pipeline's current file. It needs that no phase
starts with a record whose backup holds something other than the file, which
the code does not see to once a backup is retained.
-/

namespace Voom.Process

open Kernel BackupManager Lib

/-! ## The law -/

/-- The pipeline's view of a file agrees with what is on disk at its path. -/
def InSync (hash : Content → Hash) (file : MediaFile) (disk : Disk) : Prop :=
  ∀ content, disk file.path = some content →
    file.size = content.length ∧ ∀ h, file.contentHash = some h → h = hash content

/-- What a failed phase may leave of the state it started from: the content is
back, no converted output lies beside it, and this is the file the next phase
is evaluated on and the recorded transitions show. -/
structure LeftAsFound (env : PipelineEnv) (plan : Plan) (st st' : PipelineState) : Prop where
  content : st'.disk st.currentFile.path = st.disk st.currentFile.path
  noOutput : ∀ target, conversionTarget plan = some target → target ≠ st.currentFile.path →
    st'.disk target = st.disk target ∨ st'.disk target = none
  path : st'.currentFile.path = st.currentFile.path
  size : st'.currentFile.size = st.currentFile.size
  contentHash : st'.currentFile.contentHash = st.currentFile.contentHash
  inSync : InSync env.hash st'.currentFile st'.disk
  recorded : ∀ t ∈ st'.transitions.drop st.transitions.length,
    t.path = st.currentFile.path ∧ t.toSize = st.currentFile.size ∧
      t.toHash = st.currentFile.contentHash.getD ""

/-- The law for one phase. -/
def FailedAsFound (env : PipelineEnv) (st : PipelineState) (phase : String) : Prop :=
  st.stopped = none → ∀ outcome, (processPhase env st phase).2 = some outcome →
    outcome.isFailure = true → ∀ plan,
      env.evaluate phase st.currentFile st.phaseOutcomes = .ok (some plan) →
      LeftAsFound env plan st (pipelineStep env st phase)

/-! ## When it holds -/

/-- An executor that fails on a plan leaves no converted output. -/
def FailsCleanly (e : Executor) (plan : Plan) : Prop :=
  ∀ file, file.path = plan.file.path → ∀ disk disk' results,
    e.exec { plan with file } disk = some (disk', results) →
    (EventResult.fromPlanExecution e.name results).executionError ≠ none →
    ∀ target, conversionTarget plan = some target → target ≠ plan.file.path →
      disk' target = disk target ∨ disk' target = none

/-- The conditions on the state a plan starts in and on what the system answers
to it. -/
structure PlanOk (env : PipelineEnv) (st : PipelineState) (plan : Plan) : Prop where
  present : (st.disk st.currentFile.path).isSome = true
  /-- No record for the path is older than the file. -/
  noStaleRecord : ∀ r, st.manager.records st.currentFile.path = some r →
    st.disk r.backupPath = st.disk st.currentFile.path
  backup : st.manager.hasBackup st.currentFile.path = true ∨
    BackupPasses (env.io plan.id) st.manager st.currentFile.path
  restore : ∀ src dst, (env.io plan.id).copy src dst = .ok ()
  metadataOk : (env.output plan.id).metadataOk = true
  hashOk : (env.output plan.id).hashOk = true
  removeOk : (env.output plan.id).removeOk = true
  cleanly : ∀ e ∈ env.executors, FailsCleanly e plan

def PhaseOk (env : PipelineEnv) (st : PipelineState) (phase : String) : Prop :=
  ∀ plan, env.evaluate phase st.currentFile st.phaseOutcomes = .ok (some plan) →
    PlanOk env st plan

/-- What every phase of such a run starts from. -/
structure Settled (env : PipelineEnv) (st : PipelineState) : Prop where
  inSync : st.stopped = none → InSync env.hash st.currentFile st.disk
  wellKept : st.manager.WellKept

variable {env : PipelineEnv} {st : PipelineState} {plan : Plan}

/-! ## Failing a plan -/

theorem dispatchFailed_world (event : PlanFailedEvent) :
    (dispatchFailed env event st).bus.world =
      ⟨(onPlanFailed (env.io event.planId) event.path st.manager st.disk).1,
       (onPlanFailed (env.io event.planId) event.path st.manager st.disk).2.1, ()⟩ :=
  publish_manager (.planFailed event) rfl st.bus

@[simp] theorem dispatchFailed_currentFile (event : PlanFailedEvent) :
    (dispatchFailed env event st).currentFile = st.currentFile := rfl

@[simp] theorem dispatchFailed_transitions (event : PlanFailedEvent) :
    (dispatchFailed env event st).transitions = st.transitions := rfl

/-- A state in the middle of a phase that began in `st`: if there is a record
for the file it holds the content the file had then, and otherwise the file
itself does. -/
structure Restorable (st mid : PipelineState) : Prop where
  path : mid.currentFile.path = st.currentFile.path
  size : mid.currentFile.size = st.currentFile.size
  contentHash : mid.currentFile.contentHash = st.currentFile.contentHash
  transitions : mid.transitions = st.transitions
  wellKept : mid.manager.WellKept
  held : ∀ r, mid.manager.records st.currentFile.path = some r →
    mid.disk r.backupPath = st.disk st.currentFile.path
  unrecorded : mid.manager.records st.currentFile.path = none →
    mid.disk st.currentFile.path = st.disk st.currentFile.path

/-- Failing the plan from there leaves the file as found, if the conversion
target is clean. -/
theorem Restorable.leftAsFound {mid : PipelineState} (h : Restorable st mid)
    (hsync : InSync env.hash st.currentFile st.disk) (event : PlanFailedEvent)
    (hpath : event.path = st.currentFile.path)
    (hcopy : ∀ src dst, (env.io event.planId).copy src dst = .ok ())
    (hclean : ∀ target, conversionTarget plan = some target → target ≠ st.currentFile.path →
      mid.disk target = st.disk target ∨ mid.disk target = none)
    {st' : PipelineState} (hbus : st'.bus.world = (dispatchFailed env event mid).bus.world)
    (hfile : st'.currentFile = mid.currentFile)
    (htrans : ∀ t ∈ st'.transitions.drop st.transitions.length,
      t.path = st.currentFile.path ∧ t.toSize = st.currentFile.size ∧
        t.toHash = st.currentFile.contentHash.getD "") :
    LeftAsFound env plan st st' ∧ st'.manager.WellKept := by
  rw [dispatchFailed_world, hpath] at hbus
  have hdisk : st'.disk = (onPlanFailed (env.io event.planId) st.currentFile.path mid.manager
      mid.disk).2.1 := congrArg World.disk hbus
  have hcontent : st'.disk st.currentFile.path = st.disk st.currentFile.path := by
    rw [hdisk]
    cases hr : mid.manager.records st.currentFile.path with
    | none =>
      simp only [onPlanFailed, hr]
      exact h.unrecorded hr
    | some r => exact (onPlanFailed_restores h.wellKept hcopy hr).trans (h.held r hr)
  refine ⟨⟨hcontent, ?_, hfile ▸ h.path, hfile ▸ h.size, hfile ▸ h.contentHash, ?_, htrans⟩, ?_⟩
  · intro target htarget hne
    rw [hdisk, onPlanFailed_disk h.wellKept hne]
    exact hclean target htarget hne
  · intro content hc
    rw [hfile, h.path, hcontent] at hc
    rw [hfile, h.size, h.contentHash]
    exact hsync content hc
  · have hmanager : st'.manager = (onPlanFailed (env.io event.planId) st.currentFile.path
        mid.manager mid.disk).1 := congrArg World.manager hbus
    rw [hmanager]
    exact h.wellKept.onPlanFailed

/-- Recording the failure adds at most the transition that shows the file. -/
theorem recordFailureTransition_spec (env : PipelineEnv) (plan : Plan) (executor message : String)
    (st : PipelineState) :
    (recordFailureTransition env plan executor message st).1.bus = st.bus ∧
      (recordFailureTransition env plan executor message st).1.currentFile = st.currentFile ∧
      ∀ t ∈ (recordFailureTransition env plan executor message st).1.transitions.drop
        st.transitions.length,
        t.path = st.currentFile.path ∧ t.toSize = st.currentFile.size ∧
          t.toHash = st.currentFile.contentHash.getD "" := by
  unfold recordFailureTransition
  split
  · simp
  · simp [failureTransition]

/-! ## Safeguards -/

theorem Restorable.refl (h : Settled env st) (hok : PlanOk env st plan) : Restorable st st where
  path := rfl
  size := rfl
  contentHash := rfl
  transitions := rfl
  wellKept := h.wellKept
  held := hok.noStaleRecord
  unrecorded := fun _ => rfl

theorem recordSafeguardFailure_leftAsFound {mid : PipelineState} (h : Restorable st mid)
    (hsync : InSync env.hash st.currentFile st.disk) (hok : PlanOk env st plan) (message : String)
    (hclean : ∀ target, conversionTarget plan = some target → target ≠ st.currentFile.path →
      mid.disk target = st.disk target ∨ mid.disk target = none) :
    LeftAsFound env plan st (recordSafeguardFailure env plan message mid) ∧
      (recordSafeguardFailure env plan message mid).manager.WellKept := by
  let event : PlanFailedEvent :=
    { planId := plan.id, path := mid.currentFile.path, phaseName := plan.phaseName,
      error := message }
  obtain ⟨hbus, hfile, htrans⟩ := recordFailureTransition_spec env plan "" message
    (dispatchFailed env event mid)
  refine h.leftAsFound hsync event h.path hok.restore hclean (congrArg BusState.world hbus)
    hfile ?_
  rw [dispatchFailed_transitions, dispatchFailed_currentFile, h.transitions, h.path, h.size,
    h.contentHash] at htrans
  exact htrans

/-- The output a safeguard looks at is the file or the target of the conversion. -/
theorem resolvePostExecutionPath_cases (disk : Disk) {file : MediaFile}
    (hfile : plan.file.path = file.path) :
    (resolvePostExecutionPath disk file [plan] = file.path ∧
      ∀ target, conversionTarget plan = some target → target ≠ file.path →
        disk target = none) ∨
    ∃ c : Container, resolvePostExecutionPath disk file [plan] = file.path.withExtension c.asStr ∧
      (disk (file.path.withExtension c.asStr)).isSome = true ∧
      conversionTarget plan = some (file.path.withExtension c.asStr) := by
  unfold resolvePostExecutionPath conversionTarget
  cases findLastContainerAction [plan] with
  | none => exact .inl ⟨rfl, by simp⟩
  | some c =>
    by_cases hsome : (disk (file.path.withExtension c.asStr)).isSome = true
    · exact .inr ⟨c, by simp [hsome], hsome, by simp [hfile]⟩
    · refine .inl ⟨by simp [hsome], ?_⟩
      intro target htarget _
      simp only [Option.map_some, hfile, Option.some.injEq] at htarget
      subst htarget
      simpa using hsome

/-- The duration safeguard looks at the same output. -/
theorem checkDurationShrinkBlocking_path {disk : Disk} {file : MediaFile} {checkPath : Path}
    {message : String}
    (h : checkDurationShrinkBlocking env plan disk file = some (checkPath, message)) :
    checkPath = resolvePostExecutionPath disk file [plan] := by
  unfold checkDurationShrinkBlocking at h
  dsimp only at h
  split at h
  · cases h
  · split at h
    · cases h
      rfl
    · split at h
      · cases h
      · cases h
        rfl

theorem removeOutput_spec (env : PipelineEnv) (plan : Plan) (path : Path) (st : PipelineState) :
    (removeOutput env plan path st).currentFile = st.currentFile ∧
      (removeOutput env plan path st).transitions = st.transitions ∧
      (removeOutput env plan path st).manager = st.manager ∧
      ∀ q, (removeOutput env plan path st).disk q =
        if path ≠ st.currentFile.path ∧ (env.output plan.id).removeOk = true then
          st.disk.remove path q
        else st.disk q := by
  unfold removeOutput
  split
  · exact ⟨rfl, rfl, rfl, fun q => rfl⟩
  · exact ⟨rfl, rfl, rfl, fun q => rfl⟩

/-- A safeguard that fires takes the converted output away and restores the file. -/
theorem safeguard_leftAsFound {mid : PipelineState} (h : Restorable st mid)
    (hsync : InSync env.hash st.currentFile st.disk) (hok : PlanOk env st plan)
    (hplan : plan.file.path = st.currentFile.path) (message : String) :
    let checkPath := resolvePostExecutionPath mid.disk mid.currentFile [plan]
    LeftAsFound env plan st
        (recordSafeguardFailure env plan message (removeOutput env plan checkPath mid)) ∧
      (recordSafeguardFailure env plan message
        (removeOutput env plan checkPath mid)).manager.WellKept := by
  intro checkPath
  obtain ⟨hfile, htrans, hmanager, hdisk⟩ :=
    removeOutput_spec env plan checkPath mid
  have hcases := resolvePostExecutionPath_cases mid.disk (hplan.trans h.path.symm)
  -- The removal touches neither the file nor its backup.
  have hkeep : ∀ q, (q = st.currentFile.path ∨ ∃ r,
      mid.manager.records st.currentFile.path = some r ∧ q = r.backupPath) →
      (removeOutput env plan checkPath mid).disk q = mid.disk q := by
    intro q hq
    rw [hdisk]
    split
    · rename_i hremove
      refine Disk.remove_of_ne ?_
      rcases hcases with ⟨hpath, -⟩ | ⟨c, hpath, -, -⟩
      · exact absurd hpath hremove.1
      · rcases hq with rfl | ⟨r, hr, rfl⟩
        · exact h.path ▸ hremove.1.symm
        · have hne := (h.wellKept.backup_ne hr).2 c
          rw [← h.path] at hne
          exact fun heq => hne (heq.trans hpath)
    · rfl
  have hrest : Restorable st (removeOutput env plan checkPath mid) :=
    { path := hfile ▸ h.path, size := hfile ▸ h.size, contentHash := hfile ▸ h.contentHash
      transitions := htrans.trans h.transitions
      wellKept := hmanager ▸ h.wellKept
      held := by
        intro r hr
        rw [hmanager] at hr
        rw [hkeep _ (.inr ⟨r, hr, rfl⟩)]
        exact h.held r hr
      unrecorded := by
        intro hr
        rw [hmanager] at hr
        rw [hkeep _ (.inl rfl)]
        exact h.unrecorded hr }
  refine recordSafeguardFailure_leftAsFound hrest hsync hok message fun target htarget hne => .inr ?_
  rcases hcases with ⟨hpath, hnone⟩ | ⟨c, hpath, -, hc⟩
  · rw [hdisk, if_neg (fun hcon => hcon.1 hpath)]
    exact hnone target htarget (h.path ▸ hne)
  · rw [htarget] at hc
    cases hc
    have hcheck : checkPath = mid.currentFile.path.withExtension c.asStr := hpath
    rw [hdisk, hcheck, if_pos ⟨h.path ▸ hne, hok.removeOk⟩, Disk.remove_same]

/-! ## Executing a plan -/

/-- The world once `PlanExecuting` is through. -/
def executingWorld (env : PipelineEnv) (plan : Plan) (st : PipelineState) : World Unit :=
  ⟨(onPlanExecuting (env.io plan.id) st.currentFile.path st.manager st.disk).1,
   (onPlanExecuting (env.io plan.id) st.currentFile.path st.manager st.disk).2.1, ()⟩

/-- The state `execute_single_plan` returns in. -/
def executedState (env : PipelineEnv) (plan : Plan) (st : PipelineState) : PipelineState :=
  { st with bus := (executeSinglePlan env.subs plan st.currentFile st.bus).1 }

theorem executeSinglePlan_round (env : PipelineEnv) (plan : Plan) (st : PipelineState) :
    ∃ results, CreatedRound env plan (executingWorld env plan st)
        (executedState env plan st).bus.world results ∧
      (executeSinglePlan env.subs plan st.currentFile st.bus).2 =
        PlanOutcome.fromEventResult results plan st.currentFile := by
  let bus := (publish env.subs (PlanDispatcher.executingEvent plan st.currentFile) st.bus).1
  have hworld : bus.world = executingWorld env plan st :=
    publish_manager (PlanDispatcher.executingEvent plan st.currentFile) rfl st.bus
  have hround : CreatedRound env plan bus.world
      (publish env.subs (.planCreated plan) bus).1.world
      (publish env.subs (.planCreated plan) bus).2 := publish_created plan bus
  rw [hworld] at hround
  exact ⟨_, hround, rfl⟩

/-- After `PlanExecuting` a record holds the content of the file, and nothing
else has changed on disk. -/
theorem executingWorld_spec (h : Settled env st) (hok : PlanOk env st plan) :
    ∃ r, (executingWorld env plan st).manager.records st.currentFile.path = some r ∧
      (executingWorld env plan st).manager.WellKept ∧
      (executingWorld env plan st).disk r.backupPath = st.disk st.currentFile.path ∧
      ∀ q, q ≠ r.backupPath → (executingWorld env plan st).disk q = st.disk q := by
  have hkept : (executingWorld env plan st).manager.WellKept :=
    h.wellKept.onPlanExecuting hok.backup
  rcases onPlanExecuting_cases hok.backup st.disk with ⟨r, hr, heq⟩ | ⟨r, horig, hpath, heq⟩
  · refine ⟨r, ?_, hkept, ?_, ?_⟩
    · simp only [executingWorld, heq, hr]
    · simp only [executingWorld, heq]
      exact hok.noStaleRecord r hr
    · intro q _
      simp only [executingWorld, heq]
  · refine ⟨r, ?_, hkept, ?_, ?_⟩
    · simp only [executingWorld, heq, Manager.insertRecord_records_same]
    · simp only [executingWorld, heq, Disk.copy_dst]
    · intro q hq
      simp only [executingWorld, heq]
      exact Disk.copy_of_ne hq

/-- Whatever the executors did, the file can be restored. -/
theorem executedState_restorable (h : Settled env st) (hok : PlanOk env st plan)
    (hplan : plan.file.path = st.currentFile.path) : Restorable st (executedState env plan st) := by
  obtain ⟨r, hr, hkept, hheld, -⟩ := executingWorld_spec h hok
  obtain ⟨results, hround, -⟩ := executeSinglePlan_round env plan st
  have hmanager : (executedState env plan st).manager = (executingWorld env plan st).manager := by
    rcases hround with ⟨hw, -⟩ | ⟨e, -, disk, out, -, hw, -⟩
    · exact congrArg World.manager hw
    · rw [PipelineState.manager, hw]
  have hbackup : (executedState env plan st).disk r.backupPath =
      (executingWorld env plan st).disk r.backupPath := by
    rcases hround with ⟨hw, -⟩ | ⟨e, -, disk, out, hexec, hw, -⟩
    · exact congrFun (congrArg World.disk hw) _
    · have hne := hkept.backup_ne hr
      refine (congrFun (congrArg World.disk hw) _).trans ?_
      refine e.touches plan _ disk out _ hexec (hplan ▸ hne.1) ?_ (hheld ▸ hok.present)
      intro target htarget
      obtain ⟨c, -, rfl⟩ := Option.map_eq_some_iff.mp htarget
      exact hplan ▸ hne.2 c
  exact
    { path := rfl, size := rfl, contentHash := rfl, transitions := rfl
      wellKept := hmanager ▸ hkept
      held := by
        intro r' hr'
        rw [hmanager, hr] at hr'
        cases hr'
        exact hbackup.trans hheld
      unrecorded := by
        intro hnone
        rw [hmanager, hr] at hnone
        cases hnone }

/-- An execution that fails has left no converted output. -/
theorem executedState_clean (h : Settled env st) (hok : PlanOk env st plan)
    (hplan : plan.file.path = st.currentFile.path) {event : PlanFailedEvent}
    (hfailed : (executeSinglePlan env.subs plan st.currentFile st.bus).2 = .failed event) :
    ∀ target, conversionTarget plan = some target → target ≠ st.currentFile.path →
      (executedState env plan st).disk target = st.disk target ∨
        (executedState env plan st).disk target = none := by
  intro target htarget hne
  obtain ⟨r, hr, hkept, -, hother⟩ := executingWorld_spec h hok
  obtain ⟨results, hround, houtcome⟩ := executeSinglePlan_round env plan st
  have hbackup : target ≠ r.backupPath := by
    obtain ⟨c, -, rfl⟩ := Option.map_eq_some_iff.mp htarget
    exact hplan ▸ ((hkept.backup_ne hr).2 c).symm
  have htarget' := hother target hbackup
  rcases hround with ⟨hw, -⟩ | ⟨e, he, disk, out, hexec, hw, hresults⟩
  · left
    exact (congrFun (congrArg World.disk hw) _).trans htarget'
  · have herror : (EventResult.fromPlanExecution e.name out).executionError ≠ none := by
      intro hnone
      have hsuccess : ∃ executor,
          PlanOutcome.fromEventResult results plan st.currentFile = .success executor := by
        rw [PlanOutcome.fromEventResult_success_iff, hresults]
        simp [hnone]
      obtain ⟨executor, hsuccess⟩ := hsuccess
      rw [houtcome, hsuccess] at hfailed
      cases hfailed
    have hdisk : (executedState env plan st).disk target = disk target :=
      congrFun (congrArg World.disk hw) _
    rw [hdisk, ← htarget']
    exact hok.cleanly e he plan.file rfl _ disk out hexec herror target htarget (hplan ▸ hne)

/-! ## A phase -/

/-- The outcome of a phase that began in `st`: the state is settled again, and
the file is left as found if the phase failed. -/
structure PhaseResult (env : PipelineEnv) (plan : Plan) (st : PipelineState)
    (result : PipelineState × Option EvaluationOutcome) : Prop where
  settled : Settled env result.1
  law : ∀ outcome, result.2 = some outcome → outcome.isFailure = true →
    LeftAsFound env plan st result.1

/-- Only the disk, the file and the transitions matter to the law. -/
theorem LeftAsFound.congr {st' st'' : PipelineState} (h : LeftAsFound env plan st st')
    (hbus : st''.bus = st'.bus) (hfile : st''.currentFile = st'.currentFile)
    (htrans : st''.transitions = st'.transitions) : LeftAsFound env plan st st'' := by
  have hdisk : st''.disk = st'.disk := by rw [PipelineState.disk, hbus, PipelineState.disk]
  exact
    { content := hdisk ▸ h.content, noOutput := hdisk ▸ h.noOutput
      path := hfile ▸ h.path, size := hfile ▸ h.size, contentHash := hfile ▸ h.contentHash
      inSync := by rw [hdisk, hfile]; exact h.inSync
      recorded := htrans ▸ h.recorded }

theorem PhaseResult.of_leftAsFound {st' : PipelineState} {outcome : Option EvaluationOutcome}
    (h : LeftAsFound env plan st st' ∧ st'.manager.WellKept) :
    PhaseResult env plan st (st', outcome) where
  settled := ⟨fun _ => h.1.inSync, h.2⟩
  law := fun _ _ _ => h.1

/-- A phase that does not fail only has to settle. -/
theorem PhaseResult.of_settled {st' : PipelineState} {outcome : Option EvaluationOutcome}
    (h : Settled env st') (hok : ∀ o, outcome = some o → o.isFailure = false) :
    PhaseResult env plan st (st', outcome) where
  settled := h
  law := by
    intro o ho hfail
    rw [hok o ho] at hfail
    cases hfail

/-- Read back from disk, the output is in sync. -/
theorem reintrospectFile_inSync {disk : Disk} {file : MediaFile}
    (hmeta : (env.output plan.id).metadataOk = true) (hhash : (env.output plan.id).hashOk = true)
    (hfile : plan.file.path = file.path) :
    InSync env.hash
      (reintrospectFile env plan disk file (resolvePostExecutionPath disk file [plan])) disk := by
  intro content hcontent
  unfold reintrospectFile at hcontent ⊢
  split
  · rename_i hnone
    simp only [hnone] at hcontent
    -- Without a file at the resolved path there is none at the old one either.
    rcases resolvePostExecutionPath_cases disk hfile with ⟨hpath, -⟩ | ⟨c, hpath, hsome, -⟩
    · rw [hpath] at hnone
      rw [hnone] at hcontent
      cases hcontent
    · rw [hpath] at hnone
      rw [hnone] at hsome
      cases hsome
  · rename_i content' hthere
    simp only [hthere] at hcontent
    cases hintro : (env.output plan.id).introspect (resolvePostExecutionPath disk file [plan]) with
    | ok found =>
      simp only [hintro] at hcontent
      rw [hthere] at hcontent
      cases hcontent
      simp [outputSize, hmeta, hhash, hthere]
    | error e =>
      simp only [hintro] at hcontent
      rw [hthere] at hcontent
      cases hcontent
      simp [outputSize, hmeta, hhash, hthere]

theorem handlePlanSuccess_settled (hkept : st.manager.WellKept)
    (hmeta : (env.output plan.id).metadataOk = true) (hhash : (env.output plan.id).hashOk = true)
    (hplan : plan.file.path = st.currentFile.path) (executor : String) :
    Settled env (handlePlanSuccess env plan executor st) := by
  let bus := PlanDispatcher.completed env.subs plan st.currentFile env.keepBackups st.bus
  have hworld : bus.world = ⟨(onPlanCompleted (env.io plan.id)
      ⟨plan.id, st.currentFile.path, plan.phaseName, plan.actions.length, env.keepBackups⟩
      st.manager st.disk).1, (onPlanCompleted (env.io plan.id)
      ⟨plan.id, st.currentFile.path, plan.phaseName, plan.actions.length, env.keepBackups⟩
      st.manager st.disk).2.1, ()⟩ :=
    publish_manager (PlanDispatcher.completedEvent plan st.currentFile env.keepBackups) rfl st.bus
  have hmanager : bus.world.manager.WellKept := by
    rw [hworld]
    exact hkept.onPlanCompleted
  have hsync : InSync env.hash (reintrospectFile env plan bus.world.disk st.currentFile
      (resolvePostExecutionPath bus.world.disk st.currentFile [plan])) bus.world.disk :=
    reintrospectFile_inSync hmeta hhash hplan
  unfold handlePlanSuccess
  dsimp only
  split
  · exact ⟨fun _ => hsync, hmanager⟩
  · split
    · exact ⟨fun _ => hsync, hmanager⟩
    · exact ⟨(fun hstop => nomatch hstop), hmanager⟩

theorem executePhase_result (h : Settled env st) (hrunning : st.stopped = none)
    (hok : PlanOk env st plan) (hplan : plan.file.path = st.currentFile.path) :
    PhaseResult env plan st (executePhase env plan st) := by
  have hsync := h.inSync hrunning
  have hrest := executedState_restorable h hok hplan
  unfold executePhase
  cases hexec : executeSinglePlan env.subs plan st.currentFile st.bus with
  | mk bus outcome =>
    have hstate : executedState env plan st = { st with bus } := by
      simp only [executedState, hexec]
    rw [hstate] at hrest
    cases outcome with
    | success executor =>
      dsimp only
      cases hsize : checkSizeIncrease env plan { st with bus } with
      | some st' =>
        dsimp only
        unfold checkSizeIncrease at hsize
        split at hsize
        · dsimp only at hsize
          split at hsize
          · cases hsize
          · split at hsize
            · cases hsize
            · cases hsize
              obtain ⟨hleft, hkept⟩ := safeguard_leftAsFound hrest hsync hok hplan _
              exact .of_leftAsFound ⟨hleft.congr rfl rfl rfl, hkept⟩
        · cases hsize
      | none =>
        dsimp only
        cases hduration : checkDurationShrink env plan { st with bus } with
        | some st' =>
          dsimp only
          unfold checkDurationShrink at hduration
          split at hduration
          · split at hduration
            · cases hduration
            · rename_i checkPath message hcheck
              cases hduration
              have hpath : checkPath = resolvePostExecutionPath bus.world.disk st.currentFile
                  [plan] := checkDurationShrinkBlocking_path hcheck
              obtain ⟨hleft, hkept⟩ := safeguard_leftAsFound hrest hsync hok hplan message
              subst hpath
              exact .of_leftAsFound ⟨hleft.congr rfl rfl rfl, hkept⟩
          · cases hduration
        | none =>
          dsimp only
          refine .of_settled ?_ (by simp [EvaluationOutcome.isFailure])
          have hkept : ({ st with bus, anyExecuted := true } : PipelineState).manager.WellKept :=
            hrest.wellKept
          exact handlePlanSuccess_settled hkept hok.metadataOk hok.hashOk hplan executor
    | failed event =>
      dsimp only
      have hfailed : (executeSinglePlan env.subs plan st.currentFile st.bus).2 = .failed event := by
        rw [hexec]
      have hclean := executedState_clean h hok hplan hfailed
      rw [hstate] at hclean
      obtain ⟨hid, hpath, -⟩ := PlanOutcome.fromEventResult_failed
        (show PlanOutcome.fromEventResult _ plan st.currentFile = .failed event from
          congrArg Prod.snd hexec)
      obtain ⟨hbus, hfile, htrans⟩ := recordFailureTransition_spec env plan
        (event.pluginName.getD "") event.error (dispatchFailed env event { st with bus })
      have hresult := hrest.leftAsFound hsync event hpath (hid ▸ hok.restore) hclean
        (congrArg BusState.world hbus) hfile htrans
      cases hrecord : recordFailureTransition env plan (event.pluginName.getD "") event.error
          (dispatchFailed env event { st with bus }) with
      | mk st' recorded =>
        rw [hrecord] at hresult
        obtain ⟨hleft, hkept⟩ := hresult
        cases recorded with
        | error e => exact .of_leftAsFound ⟨hleft.congr rfl rfl rfl, hkept⟩
        | ok _ => exact .of_leftAsFound ⟨hleft.congr rfl rfl rfl, hkept⟩

theorem startPhase_result (h : Settled env st) (hrunning : st.stopped = none)
    (hok : PlanOk env st plan) (hplan : plan.file.path = st.currentFile.path) (hasSlot : Bool) :
    PhaseResult env plan st (startPhase env plan hasSlot st) := by
  unfold startPhase
  cases hspace : checkDiskSpace env plan st with
  | some st' =>
    dsimp only
    unfold checkDiskSpace at hspace
    split at hspace
    · cases hspace
    · dsimp only at hspace
      split at hspace
      · cases hspace
      · cases hspace
        obtain ⟨hleft, hkept⟩ := recordSafeguardFailure_leftAsFound (Restorable.refl h hok)
          (h.inSync hrunning) hok _ fun target _ _ => .inl rfl
        exact .of_leftAsFound ⟨hleft.congr rfl rfl rfl, hkept⟩
  | none =>
    dsimp only
    split
    · exact .of_settled ⟨fun _ => h.inSync hrunning, h.wellKept⟩ (by simp)
    · exact executePhase_result h hrunning hok hplan

/-! ## Crop detection -/

/-- Crop detection changes nothing but the crop of the file. -/
theorem applyAutoCropDetection_spec {file file' : MediaFile} {plan' : Plan}
    (hfile : plan.file = file) (h : applyAutoCropDetection env plan file = .ok (plan', file')) :
    plan' = { plan with file := plan'.file } ∧ plan'.file.path = file.path ∧
      file'.path = file.path ∧ file'.size = file.size ∧ file'.contentHash = file.contentHash := by
  subst hfile
  unfold applyAutoCropDetection at h
  split at h
  · cases h
    exact ⟨rfl, rfl, rfl, rfl, rfl⟩
  · dsimp only at h
    split at h
    · cases h
      exact ⟨rfl, rfl, rfl, rfl, rfl⟩
    · split at h
      · cases h
      · split at h
        · cases h
          exact ⟨rfl, rfl, rfl, rfl, rfl⟩
        · split at h
          · cases h
          · cases h
            exact ⟨rfl, rfl, rfl, rfl, rfl⟩

/-- The conversion target does not depend on the rest of the file. -/
theorem conversionTarget_withFile {file : MediaFile} (h : file.path = plan.file.path) :
    conversionTarget { plan with file } = conversionTarget plan := by
  have haction : findLastContainerAction [{ plan with file }] = findLastContainerAction [plan] := by
    simp only [findLastContainerAction, List.reverse_singleton, List.filter_cons, List.filter_nil,
      Plan.isSkipped, Plan.isEmpty]
    split <;> rfl
  simp only [conversionTarget, h, haction]

theorem PlanOk.withFile {file file' : MediaFile} (hok : PlanOk env st plan)
    (hpath : file.path = plan.file.path)
    (hpath' : file'.path = st.currentFile.path) :
    PlanOk env { st with currentFile := file' } { plan with file } where
  present := by
    show (st.disk file'.path).isSome = true
    rw [hpath']
    exact hok.present
  noStaleRecord := by
    show ∀ r, st.manager.records file'.path = some r → st.disk r.backupPath = st.disk file'.path
    rw [hpath']
    exact hok.noStaleRecord
  backup := by
    show st.manager.hasBackup file'.path = true ∨
      BackupPasses (env.io plan.id) st.manager file'.path
    rw [hpath']
    exact hok.backup
  restore := hok.restore
  metadataOk := hok.metadataOk
  hashOk := hok.hashOk
  removeOk := hok.removeOk
  cleanly := by
    intro e he file'' hfile'' disk disk' results hexec herror target htarget hne
    rw [conversionTarget_withFile hpath] at htarget
    exact hok.cleanly e he file'' (hfile''.trans hpath) disk disk' results hexec herror target
      htarget (hpath ▸ hne)

/-- A file left as the phase found it after crop detection is left as found. -/
theorem LeftAsFound.withFile {plan' : Plan} {file' : MediaFile} {st' : PipelineState}
    (hplan : plan' = { plan with file := plan'.file }) (hpath : plan'.file.path = plan.file.path)
    (hpath' : file'.path = st.currentFile.path) (hsize : file'.size = st.currentFile.size)
    (hhash : file'.contentHash = st.currentFile.contentHash)
    (h : LeftAsFound env plan' { st with currentFile := file' } st') :
    LeftAsFound env plan st st' where
  content := hpath' ▸ h.content
  noOutput := by
    intro target htarget hne
    rw [← conversionTarget_withFile hpath, ← hplan] at htarget
    exact h.noOutput target htarget (hpath' ▸ hne)
  path := h.path.trans hpath'
  size := h.size.trans hsize
  contentHash := h.contentHash.trans hhash
  inSync := h.inSync
  recorded := by
    intro t ht
    obtain ⟨h1, h2, h3⟩ := h.recorded t ht
    exact ⟨h1.trans hpath', h2.trans hsize, by rw [h3, ← hhash]⟩

theorem runPlan_result (h : Settled env st) (hrunning : st.stopped = none)
    (hok : PlanOk env st plan) (hplan : plan.file = st.currentFile) :
    PhaseResult env plan st (runPlan env plan st) := by
  have hpath : plan.file.path = st.currentFile.path := congrArg MediaFile.path hplan
  have hstopped : Settled env { st with stopped := some none } :=
    ⟨fun _ => h.inSync hrunning, h.wellKept⟩
  unfold runPlan
  split
  · exact .of_settled h (by simp [EvaluationOutcome.isFailure])
  split
  · -- A skipped plan reaches no executor and changes nothing.
    rename_i reason hskip
    refine .of_settled ?_ (by simp [EvaluationOutcome.isFailure])
    have hworld : (PlanDispatcher.skipped env.subs plan st.currentFile reason
        (PlanDispatcher.created env.subs plan st.bus)).world = st.bus.world := by
      rw [PlanDispatcher.skipped, publish_skipped]
      exact publish_created_skipped (by simp [Plan.isSkipped, hskip]) st.bus
    refine ⟨fun _ => ?_, ?_⟩
    · show InSync env.hash st.currentFile (World.disk _)
      rw [hworld]
      exact h.inSync hrunning
    · show (World.manager _).WellKept
      rw [hworld]
      exact h.wellKept
  split
  · exact .of_settled h (by simp [EvaluationOutcome.isFailure])
  split
  · split
    · exact .of_settled hstopped (by simp)
    · split
      · rename_i error hcrop
        have hclean : ∀ target, conversionTarget plan = some target →
            target ≠ st.currentFile.path → st.disk target = st.disk target ∨ st.disk target = none :=
          fun target _ _ => .inl rfl
        obtain ⟨hleft, hkept⟩ := (Restorable.refl h hok).leftAsFound (h.inSync hrunning)
          { planId := plan.id, path := st.currentFile.path, phaseName := plan.phaseName, error,
            pluginName := some "ffmpeg-executor" } rfl hok.restore hclean rfl rfl (by simp)
        exact .of_leftAsFound ⟨hleft.congr rfl rfl rfl, hkept⟩
      · rename_i plan' file' hcrop
        obtain ⟨hplan', hpath', hfile', hsize', hhash'⟩ := applyAutoCropDetection_spec hplan hcrop
        have hpp : plan'.file.path = plan.file.path := hpath'.trans hpath.symm
        have hsettled : Settled env { st with currentFile := file' } := by
          refine ⟨fun _ content hc => ?_, h.wellKept⟩
          simp only [hsize', hhash']
          exact h.inSync hrunning content (hfile' ▸ hc)
        have hok' : PlanOk env { st with currentFile := file' } plan' := by
          rw [hplan']
          exact hok.withFile hpp hfile'
        have hresult := startPhase_result hsettled hrunning hok' (hpath'.trans hfile'.symm) true
        refine ⟨hresult.settled, fun o ho hfail => ?_⟩
        exact (hresult.law o ho hfail).withFile hplan' hpp hfile' hsize' hhash'
  · exact startPhase_result h hrunning hok hpath false

/-! ## Runs -/

/-- Step: a phase under the conditions settles, and keeps the law. -/
theorem pipelineStep_result (h : Settled env st) {phase : String} (hok : PhaseOk env st phase) :
    Settled env (pipelineStep env st phase) ∧ FailedAsFound env st phase := by
  by_cases hrunning : st.stopped = none
  · have hresult : ∀ plan, env.evaluate phase st.currentFile st.phaseOutcomes = .ok (some plan) →
        PhaseResult env plan st (runPlan env plan st) := fun plan hplan =>
      runPlan_result h hrunning (hok plan hplan) (env.evaluate_file _ _ _ _ hplan)
    have hstopped : ∀ reason, Settled env { st with stopped := reason } :=
      fun _ => ⟨fun _ => h.inSync hrunning, h.wellKept⟩
    refine ⟨?_, fun _ outcome houtcome hfail plan hplan => ?_⟩
    · have hsettled : Settled env (processPhase env st phase).1 := by
        unfold processPhase
        split
        · exact hstopped _
        · split
          · exact hstopped _
          · exact h
          · rename_i plan hplan
            exact (hresult plan hplan).settled
      unfold pipelineStep
      rw [if_neg (by simp [hrunning])]
      split
      · rename_i st' heq
        rw [heq] at hsettled
        exact hsettled
      · rename_i st' outcome heq
        rw [heq] at hsettled
        exact ⟨hsettled.inSync, hsettled.wellKept⟩
    · have hphase : processPhase env st phase = runPlan env plan st := by
        unfold processPhase at houtcome ⊢
        split
        · rename_i hcancelled
          simp [hcancelled] at houtcome
        · rw [hplan]
      rw [hphase] at houtcome
      have hleft := (hresult plan hplan).law outcome houtcome hfail
      unfold pipelineStep
      rw [if_neg (by simp [hrunning]), hphase]
      split
      · rename_i st' heq
        rw [heq] at hleft
        exact hleft
      · rename_i st' outcome' heq
        rw [heq] at hleft
        exact hleft.congr rfl rfl rfl
  · refine ⟨?_, fun hnone => absurd hnone hrunning⟩
    have hsome : st.stopped.isSome = true := Option.isSome_iff_ne_none.mpr hrunning
    rw [pipelineStep, if_pos hsome]
    exact h

/-- In every run of phases that all meet the conditions, each failed phase
leaves the file as it found it. -/
theorem failed_phases_leave_file_as_found (env : PipelineEnv) (st : PipelineState)
    (phases : List String) (hstart : Settled env st)
    (hrun : Along (pipelineStep env) (PhaseOk env) st phases) :
    Along (pipelineStep env) (FailedAsFound env) st phases :=
  hrun.of_invariant (fun _ _ h hok => (pipelineStep_result h hok).1)
    (fun _ _ h hok => (pipelineStep_result h hok).2) hstart

/-! ## Two phases on one file -/

namespace TwoPhases

def path : Path := ⟨["m", "a.mkv"]⟩

/-- A system on which every call succeeds. -/
def workingIo (id : Uuid) : BackupIo where
  symlinkMetadata _ := .ok false
  metadata _ := .ok 1
  availableSpace _ := .ok (2 ^ 40)
  createDirAll _ := .ok ()
  copy _ _ := .ok ()
  removeFile _ := .ok ()
  uploadRemote _ := .ok ⟨true⟩
  sha256 _ := .ok ""
  appendInventory _ := .ok ()
  uniqueId := id
  timestamp := .zero
  now := id

/-- An executor that rewrites the file for the first plan and fails on every
other. -/
def executor : Executor where
  name := "mkvtoolnix-executor"
  priority := 39
  exec plan disk :=
    if plan.isEmpty = true ∨ plan.isSkipped = true then none
    else if plan.id = 1 then
      some (Function.update disk plan.file.path (some [2]),
        .ok [ActionResult.succeeded .setTitle "Set title"])
    else some (disk, .error (.toolExecution "mkvpropedit" "exit status 2"))
  notManager := mkvtoolnix_notManager
  declines := by
    intro plan disk h
    rw [if_pos h]
  touches := by
    intro plan disk disk' results q hexec hne _ _
    split at hexec
    · cases hexec
    · split at hexec
      · cases hexec
        exact Function.update_of_ne hne _ _
      · cases hexec
        rfl

/-- A policy of two metadata phases. -/
def policyEnv (keepBackups : Bool) : PipelineEnv where
  keepBackups
  flagSizeIncrease := false
  flagDurationShrink := false
  executors := [executor]
  io := workingIo
  output _ :=
    { probeDuration := fun _ => .ok (.finite 0), introspect := fun _ => .ok ⟨.mkv, .finite 0, []⟩ }
  hash content := String.ofList (content.map fun b => Char.ofNat (65 + b.toNat))
  evaluate phase file _ := .ok (some
    { id := if phase = "first" then 1 else 2, file, policyName := "p", phaseName := phase,
      actions := [⟨.setTitle, none, .title "A", "Set title", rfl⟩] })
  evaluate_file := by
    intro phase file outcomes plan h
    cases h
    rfl
  cancelled _ := false
  cancelledWaiting _ := false
  cancelledAfter _ := false
  savingsBelowThreshold _ := false
  detectCrop _ _ := .ok none
  cropSettingsFingerprint _ := ""
  upsertFile _ := .ok ()
  availableSpace _ := .ok (2 ^ 40)
  recordTransition _ := .ok ()

def start : PipelineState where
  bus := ⟨⟨⟨{}, fun _ => none, true⟩, Function.update (fun _ => none) path (some [1]), ()⟩, []⟩
  currentFile := { id := 7, path, size := 1, contentHash := some "B", container := .mkv }

theorem backupPasses (id : Uuid) {m : Manager} (hconfig : m.config = {}) (p : Path) :
    BackupPasses (workingIo id) m p := by
  refine ⟨1, ⟨rfl, rfl, ⟨2 ^ 40, rfl, by rw [hconfig]; decide⟩, rfl, rfl⟩, [], ?_, ?_⟩
  · rw [hconfig]
    rfl
  · intro _ remote hmem
    cases hmem

theorem planOk {st : PipelineState} {plan : Plan} (keepBackups : Bool)
    (hpresent : (st.disk st.currentFile.path).isSome = true)
    (hrecords : st.manager.records st.currentFile.path = none)
    (hconfig : st.manager.config = {}) (hplan : conversionTarget plan = none) :
    PlanOk (policyEnv keepBackups) st plan where
  present := hpresent
  noStaleRecord := by
    intro r hr
    rw [hrecords] at hr
    cases hr
  backup := .inr (backupPasses plan.id hconfig _)
  restore := fun _ _ => rfl
  metadataOk := rfl
  hashOk := rfl
  removeOk := rfl
  cleanly := by
    intro e he file hfile disk disk' results hexec herror target htarget
    rw [hplan] at htarget
    cases htarget

end TwoPhases

/-- Without retained backups, the failing second phase leaves the result of the
first alone. -/
theorem removed_backup_keeps_first_phase :
    Along (pipelineStep (TwoPhases.policyEnv false)) (FailedAsFound (TwoPhases.policyEnv false))
      TwoPhases.start ["first", "second"] := by
  refine failed_phases_leave_file_as_found _ _ _ ⟨fun _ content hc => ?_, fun p r hr => ?_⟩
    ⟨fun plan hplan => ?_, fun plan hplan => ?_, trivial⟩
  · cases hc
    decide
  · cases hr
  · cases hplan
    exact TwoPhases.planOk false (by decide) (by decide) (by decide)
      (by decide)
  · cases hplan
    exact TwoPhases.planOk false (by decide) (by decide) (by decide)
      (by decide)

/-- With retained backups, the failure of the second phase brings back the file
as it was before the first. -/
theorem retained_backup_undoes_first_phase :
    ¬ Along (pipelineStep (TwoPhases.policyEnv true)) (FailedAsFound (TwoPhases.policyEnv true))
        TwoPhases.start ["first", "second"] := by
  intro hrun
  have hlaw := hrun.2.1 (by decide) .executionFailed (by decide) rfl _ rfl
  have hbefore : (pipelineStep (TwoPhases.policyEnv true) TwoPhases.start "first").disk
      TwoPhases.path = some [2] := by decide
  have hafter : (pipelineStep (TwoPhases.policyEnv true)
      (pipelineStep (TwoPhases.policyEnv true) TwoPhases.start "first") "second").disk
      TwoPhases.path = some [1] := by decide
  have hpath : (pipelineStep (TwoPhases.policyEnv true) TwoPhases.start "first").currentFile.path =
      TwoPhases.path := by decide
  have hcontent := hlaw.content
  rw [hpath, hbefore, hafter] at hcontent
  cases hcontent

end Voom.Process
