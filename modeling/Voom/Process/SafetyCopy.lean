-- SUMMARY: A plan's executors and the backup made for it, over whole runs of `execute_single_plan`.
import Voom.BackupManager.Plugin
import Voom.Process.Dispatch

/-!
# Safety copies

One run of `execute_single_plan` composes the dispatcher, the bus and the
backup manager with any other plugins. The other plugins are arbitrary, up to
the lifecycle contract of the dispatcher: claiming is the answer of an executor
to `PlanCreated`, and a plan is closed by the dispatcher alone.
-/

namespace Voom.Process

open Kernel BackupManager

/-- The state of a run: the backup manager's, the disk, and that of all others. -/
structure World (τ : Type) where
  manager : Manager
  disk : Disk
  rest : τ

variable {τ : Type}

/-- The plan an event of the lifecycle is about. -/
def planIdOf : Event → Uuid
  | .planCreated plan => plan.id
  | .planExecuting evt => evt.planId
  | .planCompleted evt => evt.planId
  | .planSkipped evt => evt.planId
  | .planFailed evt => evt.planId
  | _ => 0

/-- The backup manager on the bus. Each plan has its own answers of the
operating system. -/
def managerSubscriber (io : Uuid → BackupIo) : Subscriber (World τ) where
  pluginName := "backup-manager"
  priority := 30
  handles := BackupManager.handles
  onEvent event w :=
    let (manager, disk, result) := BackupManager.onEvent (io (planIdOf event)) event w.manager w.disk
    ({ w with manager, disk }, result)

/-- `PlanCompleted` and `PlanFailed` close a plan. -/
def closesPlan : Event → Bool
  | .planCompleted _ | .planFailed _ => true
  | _ => false

/-- Any other plugin. It acts on the disk and on its own state, does not claim
`PlanExecuting` and leaves the closing of plans to the dispatcher. -/
structure Plugin (τ : Type) where
  name : String
  priority : Int
  executor : Bool
  handles : EventType → Bool
  onEvent : Event → Disk × τ → (Disk × τ) × HandlerResult
  notManager : name ≠ "backup-manager"
  unclaimed : ∀ evt w r, (onEvent (.planExecuting evt) w).2 = .ok (some r) → r.claimed = false
  closesNothing : ∀ event w r, (onEvent event w).2 = .ok (some r) →
    ∀ produced ∈ r.producedEvents, closesPlan produced = false

def Plugin.subscriber (p : Plugin τ) : Subscriber (World τ) where
  pluginName := p.name
  priority := p.priority
  handles := p.handles
  onEvent event w :=
    let ((disk, rest), result) := p.onEvent event (w.disk, w.rest)
    ({ w with disk, rest }, result)

/-- The subscribers of a run: the backup manager and the others, registered
before or after it. -/
def subscribers (io : Uuid → BackupIo) (before after : List (Plugin τ)) :
    List (Subscriber (World τ)) :=
  subscribeAll (before.map (·.subscriber) ++ managerSubscriber io :: after.map (·.subscriber))

/-- Whether a delivery hands the plan to an executor. -/
def runsPlan (plugins : List (Plugin τ)) (plan : Plan) (d : Delivery (World τ)) : Prop :=
  d.event = .planCreated plan ∧ ∃ p ∈ plugins, p.executor = true ∧ p.name = d.pluginName

/-- What holds of the invocations of a run: an executor is handed the plan only
with a backup record for the file in place, and not at all if the backup
manager answered the plan's `PlanExecuting` with an error. -/
structure CopiedFirst (plugins : List (Plugin τ)) (plan : Plan) (file : MediaFile)
    (log : List (Delivery (World τ))) : Prop where
  recorded : ∀ d ∈ log, runsPlan plugins plan d → d.before.manager.hasBackup file.path = true
  stopped : (∃ d ∈ log, d.pluginName = "backup-manager" ∧
      d.event = PlanDispatcher.executingEvent plan file ∧ ∃ e, d.result = .err e) →
    ∀ d ∈ log, ¬ runsPlan plugins plan d

/-- `CopiedFirst` in every run of `execute_single_plan` that starts with the
given manager, over any set of other plugins. -/
def SafetyCopy (io : Uuid → BackupIo) (m : Manager) (plan : Plan) (file : MediaFile) : Prop :=
  ∀ (τ : Type) (before after : List (Plugin τ)) (disk : Disk) (rest : τ),
    CopiedFirst (before ++ after) plan file
      (executeSinglePlan (subscribers io before after) plan file
        ⟨⟨m, disk, rest⟩, []⟩).1.log

/-! ## What the plugins of a run answer -/

theorem mem_subscribers {io : Uuid → BackupIo} {before after : List (Plugin τ)}
    {s : Subscriber (World τ)} :
    s ∈ subscribers io before after ↔
      s = managerSubscriber io ∨ ∃ p ∈ before ++ after, s = p.subscriber := by
  simp only [subscribers, mem_subscribeAll, List.mem_append, List.mem_map, List.mem_cons]
  constructor
  · rintro (⟨p, hp, rfl⟩ | rfl | ⟨p, hp, rfl⟩)
    · exact .inr ⟨p, .inl hp, rfl⟩
    · exact .inl rfl
    · exact .inr ⟨p, .inr hp, rfl⟩
  · rintro (rfl | ⟨p, hp | hp, rfl⟩)
    · exact .inr (.inl rfl)
    · exact .inl ⟨p, hp, rfl⟩
    · exact .inr (.inr ⟨p, hp, rfl⟩)

/-- No plugin of a run closes a plan. -/
theorem produced_not_closing {io : Uuid → BackupIo} {before after : List (Plugin τ)}
    {s : Subscriber (World τ)} (hs : s ∈ subscribers io before after) {event : Event}
    {w : World τ} {r : EventResult}
    (hr : ((s.onEvent event w).2).toResult s.pluginName event.eventType = some r) :
    ∀ produced ∈ r.producedEvents, closesPlan produced = false := by
  intro produced hmem
  rcases HandlerResult.toResult_some hr with hres | ⟨text, rfl⟩
  · rcases mem_subscribers.mp hs with rfl | ⟨p, -, rfl⟩
    · rw [onEvent_result hres] at hmem
      cases hmem
    · exact p.closesNothing event (w.disk, w.rest) r hres produced hmem
  · rw [List.mem_singleton.mp hmem]
    rfl

/-- No plugin of a run claims `PlanExecuting`. -/
theorem executing_unclaimed {io : Uuid → BackupIo} {before after : List (Plugin τ)}
    {s : Subscriber (World τ)} (hs : s ∈ subscribers io before after) {evt : PlanExecutingEvent}
    {w : World τ} {r : EventResult}
    (hr : ((s.onEvent (.planExecuting evt) w).2).toResult s.pluginName
      (Event.planExecuting evt).eventType = some r) : r.claimed = false := by
  rcases HandlerResult.toResult_some hr with hres | ⟨text, rfl⟩
  · rcases mem_subscribers.mp hs with rfl | ⟨p, -, rfl⟩
    · have hmanager : (BackupManager.onEvent (io evt.planId) (.planExecuting evt) w.manager
          w.disk).2.2 = .ok (some r) := hres
      rw [onEvent_result hmanager]
      rfl
    · exact p.unclaimed evt (w.disk, w.rest) r hres
  · rfl

/-! ## Runs with a backup in place -/

/-- The state between two invocations once the backup step is through: there is
a record for the file, and so far the log is as it should be. -/
structure Backed (plugins : List (Plugin τ)) (plan : Plan) (file : MediaFile)
    (st : BusState (World τ)) : Prop where
  record : st.world.manager.hasBackup file.path = true
  recorded : ∀ d ∈ st.log, runsPlan plugins plan d → d.before.manager.hasBackup file.path = true
  answered : ∀ d ∈ st.log, d.pluginName = "backup-manager" →
    d.event = PlanDispatcher.executingEvent plan file → ∀ e, d.result ≠ .err e

theorem Backed.copiedFirst {plugins : List (Plugin τ)} {plan : Plan} {file : MediaFile}
    {st : BusState (World τ)} (h : Backed plugins plan file st) :
    CopiedFirst plugins plan file st.log where
  recorded := h.recorded
  stopped := by
    rintro ⟨d, hd, hname, hevent, e, he⟩
    exact absurd he (h.answered d hd hname hevent e)

/-- What an invocation adds to a good log. -/
theorem Backed.invoke {plugins : List (Plugin τ)} {plan : Plan} {file : MediaFile}
    {s : Subscriber (World τ)} {event : Event} {st : BusState (World τ)}
    (h : Backed plugins plan file st)
    (hrecord : (s.onEvent event st.world).1.manager.hasBackup file.path = true)
    (hanswer : s.pluginName = "backup-manager" →
      event = PlanDispatcher.executingEvent plan file →
      ∀ e, (s.onEvent event st.world).2 ≠ .err e) :
    Backed plugins plan file (Kernel.invoke s event st).1 where
  record := hrecord
  recorded := by
    intro d hd hruns
    simp only [Kernel.invoke, List.mem_append, List.mem_singleton] at hd
    rcases hd with hd | rfl
    · exact h.recorded d hd hruns
    · exact h.record
  answered := by
    intro d hd hname hevent
    simp only [Kernel.invoke, List.mem_append, List.mem_singleton] at hd
    rcases hd with hd | rfl
    · exact h.answered d hd hname hevent
    · exact hanswer hname hevent

/-- Step: an invocation on an event that closes no plan keeps the record. -/
theorem backed_invoke {io : Uuid → BackupIo} {before after : List (Plugin τ)} {plan : Plan}
    {file : MediaFile} {s : Subscriber (World τ)} (hs : s ∈ subscribers io before after)
    {event : Event} (hopen : closesPlan event = false) {st : BusState (World τ)}
    (h : Backed (before ++ after) plan file st) :
    Backed (before ++ after) plan file (Kernel.invoke s event st).1 := by
  rcases mem_subscribers.mp hs with rfl | ⟨p, -, rfl⟩
  · cases event with
    | planExecuting evt =>
      refine h.invoke (onPlanExecuting_hasBackup h.record) fun _ hevent => ?_
      cases hevent
      exact (onPlanExecuting_of_passes (.inl h.record) _).2
    | planCompleted evt => cases hopen
    | planFailed evt => cases hopen
    | _ => exact h.invoke h.record fun _ _ e he => by cases he
  · exact h.invoke h.record fun hname => absurd hname p.notManager

/-- The state before the backup manager is reached in the round of
`PlanExecuting`. -/
structure Opening (m : Manager) (plan : Plan) (file : MediaFile) (st : BusState (World τ)) :
    Prop where
  manager : st.world.manager = m
  log : ∀ d ∈ st.log, d.event = PlanDispatcher.executingEvent plan file ∧
    d.pluginName ≠ "backup-manager"

theorem Opening.invoke {m : Manager} {plan : Plan} {file : MediaFile} {p : Plugin τ}
    {st : BusState (World τ)} (h : Opening m plan file st) :
    Opening m plan file
      (Kernel.invoke p.subscriber (PlanDispatcher.executingEvent plan file) st).1 where
  manager := h.manager
  log := by
    intro d hd
    simp only [Kernel.invoke, List.mem_append, List.mem_singleton] at hd
    rcases hd with hd | rfl
    · exact h.log d hd
    · exact ⟨rfl, p.notManager⟩

/-- The backup manager's own turn establishes `Backed`. -/
theorem Opening.backed {io : Uuid → BackupIo} {plugins : List (Plugin τ)} {m : Manager}
    {plan : Plan} {file : MediaFile}
    (hpass : m.hasBackup file.path = true ∨ BackupPasses (io plan.id) m file.path)
    {st : BusState (World τ)} (h : Opening m plan file st) :
    Backed plugins plan file
      (Kernel.invoke (managerSubscriber io) (PlanDispatcher.executingEvent plan file) st).1 := by
  obtain ⟨hrecord, hanswer⟩ := onPlanExecuting_of_passes (h.manager ▸ hpass) st.world.disk
  refine ⟨hrecord, fun d hd hruns => ?_, fun d hd hname _ => ?_⟩
  · simp only [Kernel.invoke, List.mem_append, List.mem_singleton] at hd
    rcases hd with hd | rfl
    · have hevent := (h.log d hd).1.symm.trans hruns.1
      cases hevent
    · cases hruns.1
  · simp only [Kernel.invoke, List.mem_append, List.mem_singleton] at hd
    rcases hd with hd | rfl
    · exact absurd hname (h.log d hd).2
    · exact hanswer

/-- The round of `PlanExecuting` ends with a record if the backup step passes. -/
theorem executing_round {io : Uuid → BackupIo} {before after : List (Plugin τ)} {m : Manager}
    {plan : Plan} {file : MediaFile}
    (hpass : m.hasBackup file.path = true ∨ BackupPasses (io plan.id) m file.path)
    {st : BusState (World τ)} (h : Opening m plan file st) :
    Backed (before ++ after) plan file
      (dispatchHandlers (PlanDispatcher.executingEvent plan file)
        ((subscribers io before after).filter
          (·.handles (PlanDispatcher.executingEvent plan file).eventType)) st).1 := by
  have hmem : managerSubscriber io ∈ (subscribers io before after).filter
      (·.handles (PlanDispatcher.executingEvent plan file).eventType) :=
    List.mem_filter.mpr ⟨mem_subscribers.mpr (.inl rfl), rfl⟩
  have hall : ∀ s ∈ (subscribers io before after).filter
      (·.handles (PlanDispatcher.executingEvent plan file).eventType),
      s ∈ subscribers io before after := fun s hs => (List.mem_filter.mp hs).1
  -- Split the round at the first turn of the backup manager.
  obtain ⟨front, back, hsplit, hfront⟩ := List.eq_append_cons_of_mem hmem
  rw [hsplit] at hall ⊢
  have hplugins : ∀ s ∈ front, ∃ p : Plugin τ, s = p.subscriber := by
    intro s hs
    rcases mem_subscribers.mp (hall s (List.mem_append_left _ hs)) with rfl | ⟨p, -, hp⟩
    · exact absurd hs hfront
    · exact ⟨p, hp⟩
  have hopening : Opening m plan file
      (dispatchHandlers (PlanDispatcher.executingEvent plan file) front st).1 := by
    refine dispatchHandlers_preserves (fun s hs st h => ?_) h
    obtain ⟨p, rfl⟩ := hplugins s hs
    exact h.invoke
  rw [← List.singleton_append, ← List.append_assoc, dispatchHandlers_append, dispatchHandlers_append]
  · refine dispatchHandlers_preserves (fun s hs st h => ?_) ?_
    · exact backed_invoke (hall s (by simp [hs])) rfl h
    · exact dispatchHandlers_singleton ▸ hopening.backed hpass
  · intro s hs w r hr
    exact executing_unclaimed (hall s (List.mem_append_left _ hs)) hr
  · intro s hs w r hr
    rw [List.mem_append, List.mem_singleton] at hs
    refine executing_unclaimed (hall s ?_) hr
    rcases hs with hs | rfl
    · exact List.mem_append_left _ hs
    · exact List.mem_append_right _ List.mem_cons_self

/-- Run: with a passing backup step, a whole run has its copy first. -/
theorem executeSinglePlan_backed {io : Uuid → BackupIo} {before after : List (Plugin τ)}
    {m : Manager} {plan : Plan} {file : MediaFile}
    (hpass : m.hasBackup file.path = true ∨ BackupPasses (io plan.id) m file.path)
    (disk : Disk) (rest : τ) :
    Backed (before ++ after) plan file
      (executeSinglePlan (subscribers io before after) plan file ⟨⟨m, disk, rest⟩, []⟩).1 := by
  have hinv : ∀ s ∈ subscribers io before after, ∀ event, closesPlan event = false →
      s.handles event.eventType = true → ∀ st, Backed (before ++ after) plan file st →
      Backed (before ++ after) plan file (invoke s event st).1 :=
    fun s hs event hopen _ st h => backed_invoke hs hopen h
  have hclosed : ∀ s ∈ subscribers io before after, ∀ event, closesPlan event = false →
      s.handles event.eventType = true → ∀ w r,
      ((s.onEvent event w).2).toResult s.pluginName event.eventType = some r →
      ∀ produced ∈ r.producedEvents, closesPlan produced = false :=
    fun s hs event _ _ w r hr => produced_not_closing hs hr
  have hexecuting : Backed (before ++ after) plan file (publish (subscribers io before after)
      (PlanDispatcher.executingEvent plan file) ⟨⟨m, disk, rest⟩, []⟩).1 := by
    refine publishRecursive_of_round hinv hclosed (executing_round hpass ⟨rfl, by simp⟩) ?_
    intro produced hmem
    obtain ⟨s, hs, w, r, hr, hmem⟩ := mem_produced_of_dispatchHandlers hmem
    exact produced_not_closing (List.mem_filter.mp hs).1 hr produced hmem
  have hcreated : closesPlan (.planCreated plan) = false := rfl
  simp only [executeSinglePlan, PlanDispatcher.begin, publish]
  exact publishRecursive_preserves hinv hclosed hcreated hexecuting

/-! ## A run without a backup -/

theorem mkvtoolnix_notManager : "mkvtoolnix-executor" ≠ "backup-manager" := by decide

/-- An executor that claims every plan it is handed. -/
def claimingExecutor : Plugin Unit where
  name := "mkvtoolnix-executor"
  priority := 39
  executor := true
  handles := (· = .planCreated)
  onEvent event w :=
    match event with
    | .planCreated _ => (w, .ok (some (EventResult.planSucceeded "mkvtoolnix-executor")))
    | _ => (w, .ok none)
  notManager := mkvtoolnix_notManager
  unclaimed := by
    intro evt w r h
    cases h
  closesNothing := by
    intro event w r h produced hmem
    cases event <;> cases h
    cases hmem

/-- The error of the backup manager is turned into a result and a `PluginError`
event that nobody handles, and the executor is handed the plan all the same. -/
theorem executeSinglePlan_log_of_not_passes {io : Uuid → BackupIo} {m : Manager} {plan : Plan}
    {file : MediaFile} (disk : Disk)
    (h : ¬ (m.hasBackup file.path = true ∨ BackupPasses (io plan.id) m file.path)) :
    ∃ e w result,
      (executeSinglePlan (subscribers io [] [claimingExecutor]) plan file
        ⟨⟨m, disk, ()⟩, []⟩).1.log =
      [⟨"backup-manager", PlanDispatcher.executingEvent plan file, ⟨m, disk, ()⟩, .err e⟩,
       ⟨"mkvtoolnix-executor", .planCreated plan, w, result⟩] := by
  obtain ⟨e, he⟩ := onPlanExecuting_of_not_passes h disk
  have hsubs : subscribers io [] [claimingExecutor] =
      [managerSubscriber io, claimingExecutor.subscriber] := by
    simp [subscribers, subscribeAll, subscribePlugin, managerSubscriber, Plugin.subscriber,
      claimingExecutor]
  rw [hsubs]
  simp only [executeSinglePlan, PlanDispatcher.begin, publish]
  rw [publishRecursive_single (s := claimingExecutor.subscriber) rfl,
    publishRecursive_single (s := managerSubscriber io) rfl]
  · have hanswer : ((managerSubscriber io).onEvent (PlanDispatcher.executingEvent plan file)
        (World.mk m disk ())).2 = .err e := he
    refine ⟨e, (invoke (managerSubscriber io) (PlanDispatcher.executingEvent plan file)
      ⟨⟨m, disk, ()⟩, []⟩).1.world, .ok (some (EventResult.planSucceeded "mkvtoolnix-executor")), ?_⟩
    simp only [invoke, hanswer]
    rfl
  · intro r hr produced hmem
    have hanswer : ((managerSubscriber io).onEvent (PlanDispatcher.executingEvent plan file)
        (World.mk m disk ())).2 = .err e := he
    rw [hanswer] at hr
    cases hr
    simp only [makeErrorResult, List.mem_singleton] at hmem
    subst hmem
    simp [managerSubscriber, Plugin.subscriber, claimingExecutor, BackupManager.handles,
      Event.eventType]
  · intro r hr produced hmem
    cases hr
    cases hmem

theorem not_safetyCopy_of_not_passes {io : Uuid → BackupIo} {m : Manager} {plan : Plan}
    {file : MediaFile}
    (h : ¬ (m.hasBackup file.path = true ∨ BackupPasses (io plan.id) m file.path)) :
    ¬ SafetyCopy io m plan file := by
  intro hsafe
  obtain ⟨e, w, result, hlog⟩ := executeSinglePlan_log_of_not_passes (fun _ => none) h
  have hfirst := hsafe Unit [] [claimingExecutor] (fun _ => none) ()
  rw [hlog] at hfirst
  refine hfirst.stopped ⟨_, List.mem_cons_self, rfl, rfl, e, rfl⟩
    ⟨"mkvtoolnix-executor", .planCreated plan, w, result⟩ (by simp) ?_
  exact ⟨rfl, claimingExecutor, by simp, rfl, rfl⟩

/-- A file is safe in every run of its plan exactly when a record is already
active for its path or the whole backup step goes through. No other outcome of
the backup step keeps executors from the plan. -/
theorem safetyCopy_iff (io : Uuid → BackupIo) (m : Manager) (plan : Plan) (file : MediaFile) :
    SafetyCopy io m plan file ↔
      (m.hasBackup file.path = true ∨ BackupPasses (io plan.id) m file.path) := by
  constructor
  · intro hsafe
    by_contra h
    exact not_safetyCopy_of_not_passes h hsafe
  · intro hpass τ before after disk rest
    exact (executeSinglePlan_backed hpass disk rest).copiedFirst

/-- A system on which the file is a symlink and every other call succeeds. -/
def symlinkIo : BackupIo where
  symlinkMetadata _ := .ok true
  metadata _ := .ok 0
  availableSpace _ := .ok (2 ^ 40)
  createDirAll _ := .ok ()
  copy _ _ := .ok ()
  removeFile _ := .ok ()
  uploadRemote _ := .ok ⟨true⟩
  sha256 _ := .ok ""
  appendInventory _ := .ok ()
  uniqueId := 0
  timestamp := .zero
  now := 0

/-- The refused backup of a symlink does not stop the plan. -/
theorem symlink_plan_runs_unprotected :
    ¬ SafetyCopy (fun _ => symlinkIo) ⟨{}, fun _ => none, true⟩
      { id := 1, file := { id := 1, path := ⟨["m", "a.mkv"]⟩ }, policyName := "p",
        phaseName := "normalize" }
      { id := 1, path := ⟨["m", "a.mkv"]⟩ } := by
  refine not_safetyCopy_of_not_passes ?_
  rintro (hrec | ⟨size, hcopy, -⟩)
  · cases hrec
  · cases hcopy.noSymlink

end Voom.Process
