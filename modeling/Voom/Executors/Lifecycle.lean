-- SUMMARY: Plans that executors start by themselves, and what is left of them at the next start-up recovery.
import Voom.Executors.Ffmpeg
import Voom.Lib.Outcome
import Voom.Recovery.History

/-!
# Open plans

`PlanExecuting` makes the backup manager keep a record and the store a pending operation,
and `PlanCompleted` or `PlanFailed` clears both. The pipeline closes the plans it starts.
The executors start a plan of their own for a generated subtitle, and nobody closes that.
-/

namespace Voom.Lifecycle

open Kernel BackupManager Recovery Executors

/-! ## The store -/

inductive PlanStatus where
  | pending | completed | skipped | failed
  deriving DecidableEq, Repr

/-- The books that lifecycle events are entered in, the disk, and the state of all others. -/
structure World (τ : Type) where
  manager : Manager
  disk : Disk
  pending : List PendingOperation := []
  plans : Uuid → Option PlanStatus := fun _ => none
  /-- How many subtitles have drawn identifiers for a plan. -/
  drawn : Nat := 0
  rest : τ

/-- The answers of the database and of the clock. -/
structure StoreIo where
  now : Uuid → Time
  insertPendingOp : Uuid → Bool
  deletePendingOp : Uuid → Bool
  savePlan : Plan → Except VoomError Unit
  updatePlanStatus : Uuid → PlanStatus → Except VoomError Unit
  updatePlanError : PlanFailedEvent → Except VoomError Unit
  other : Event → Except VoomError Unit

/-- `update_plan_status`: without a row for the plan nothing is updated. -/
def updatePlanStatus (id : Uuid) (status : PlanStatus) (plans : Uuid → Option PlanStatus) :
    Uuid → Option PlanStatus :=
  Function.update plans id ((plans id).map fun _ => status)

variable {τ : Type}

namespace Store

/-- `handle_plan_executing`: a failure is only logged. -/
def handlePlanExecuting (io : StoreIo) (evt : PlanExecutingEvent) (w : World τ) :
    World τ × HandlerResult :=
  let pending :=
    if io.insertPendingOp evt.planId then
      insertPendingOp ⟨evt.planId, evt.path, evt.phaseName, io.now evt.planId⟩ w.pending
    else w.pending
  ({ w with pending }, .ok none)

def handlePlanCreated (io : StoreIo) (plan : Plan) (w : World τ) : World τ × HandlerResult :=
  match io.savePlan plan with
  | .error e => (w, .err e)
  | .ok _ => ({ w with plans := Function.update w.plans plan.id (some .pending) }, .ok none)

/-- The pending operation goes last; a failure to delete it is only logged. -/
def clearPendingOp (io : StoreIo) (id : Uuid) (w : World τ) : World τ :=
  { w with pending := if io.deletePendingOp id then deletePendingOp id w.pending else w.pending }

def handlePlanCompleted (io : StoreIo) (evt : PlanCompletedEvent) (w : World τ) :
    World τ × HandlerResult :=
  match io.updatePlanStatus evt.planId .completed with
  | .error e => (w, .err e)
  | .ok _ =>
    (clearPendingOp io evt.planId
      { w with plans := updatePlanStatus evt.planId .completed w.plans }, .ok none)

def handlePlanSkipped (io : StoreIo) (evt : PlanSkippedEvent) (w : World τ) :
    World τ × HandlerResult :=
  match io.updatePlanStatus evt.planId .skipped with
  | .error e => (w, .err e)
  | .ok _ => ({ w with plans := updatePlanStatus evt.planId .skipped w.plans }, .ok none)

def handlePlanFailed (io : StoreIo) (evt : PlanFailedEvent) (w : World τ) :
    World τ × HandlerResult :=
  match io.updatePlanStatus evt.planId .failed with
  | .error e => (w, .err e)
  | .ok _ =>
    let w := { w with plans := updatePlanStatus evt.planId .failed w.plans }
    match io.updatePlanError evt with
    | .error e => (w, .err e)
    | .ok _ => (clearPendingOp io evt.planId w, .ok none)

def pluginName : String := "sqlite-store"

def onEvent (io : StoreIo) (event : Event) (w : World τ) : World τ × HandlerResult :=
  match event with
  | .planExecuting evt => handlePlanExecuting io evt w
  | .planCreated plan => handlePlanCreated io plan w
  | .planCompleted evt => handlePlanCompleted io evt w
  | .planSkipped evt => handlePlanSkipped io evt w
  | .planFailed evt => handlePlanFailed io evt w
  | event =>
    -- the other kinds are stored or only logged
    match io.other event with
    | .error e => (w, .err e)
    | .ok _ => (w, .ok none)

end Store

/-! ## The kernel -/

/-- What the plugins meet: answers of the operating system, the database and the tools. -/
structure Settings where
  backup : Event → BackupIo
  store : StoreIo
  mkvtoolnixAvailable : Bool
  mkvtoolnix : Plan → Mkvtoolnix.Env
  ffmpegConfig : Ffmpeg.Config
  ffmpeg : Plan → Except VoomError (List ActionResult)
  /-- What the tools of an executor do to the disk when it is handed a plan. -/
  writes : Plan → Disk → Disk
  /-- The identifiers for the file and the plan of a subtitle. -/
  newIds : Nat → Uuid × Uuid

section

variable (settings : Settings)

def managerPlugin : Subscriber (World τ) where
  pluginName := "backup-manager"
  priority := 30
  handles := BackupManager.handles
  onEvent event w :=
    let (manager, disk, result) :=
      BackupManager.onEvent (settings.backup event) event w.manager w.disk
    ({ w with manager, disk }, result)

def storePlugin : Subscriber (World τ) where
  pluginName := Store.pluginName
  priority := 38
  handles := fun _ => true
  onEvent := Store.onEvent settings.store

def handlesPlans : EventType → Bool
  | .planCreated | .subtitleGenerated => true
  | _ => false

/-- What the two executors share: answers to a plan, with its effect on the disk, and to a
subtitle, with identifiers drawn for its plan. -/
def executorOnEvent (plan : Plan → Option EventResult)
    (subtitle : SubtitleGeneratedEvent → Uuid → Uuid → Except VoomError (Option EventResult))
    (event : Event) (w : World τ) : World τ × HandlerResult :=
  match event with
  | .planCreated p =>
    let result := plan p
    ({ w with disk := if result.isSome then settings.writes p w.disk else w.disk }, .ok result)
  | .subtitleGenerated evt =>
    let (fileId, planId) := settings.newIds w.drawn
    let w := { w with drawn := w.drawn + 1 }
    match subtitle evt fileId planId with
    | .ok result => (w, .ok result)
    | .error e => (w, .err e)
  | _ => (w, .ok none)

def mkvtoolnixPlugin : Subscriber (World τ) where
  pluginName := Mkvtoolnix.pluginName
  priority := 39
  handles := handlesPlans
  onEvent := executorOnEvent settings
    (fun plan => (Mkvtoolnix.handlePlanCreated settings.mkvtoolnixAvailable
      (settings.mkvtoolnix plan) plan).1)
    (Mkvtoolnix.handleSubtitleGenerated settings.mkvtoolnixAvailable)

def ffmpegPlugin : Subscriber (World τ) where
  pluginName := Ffmpeg.pluginName
  priority := 40
  handles := handlesPlans
  onEvent := executorOnEvent settings
    (Ffmpeg.handlePlanCreated settings.ffmpegConfig settings.ffmpeg)
    (Ffmpeg.handleSubtitleGenerated settings.ffmpegConfig)

end

/-- The start of a plan. -/
def startOf : Event → Option (Uuid × Path)
  | .planExecuting evt => some (evt.planId, evt.path)
  | _ => none

/-- The end of a plan. -/
def closingOf : Event → Option (Uuid × Path)
  | .planCompleted evt => some (evt.planId, evt.path)
  | .planFailed evt => some (evt.planId, evt.path)
  | _ => none

/-- The events that are entered in the books. -/
def isTracked (event : Event) : Bool := (startOf event).isSome || (closingOf event).isSome

/-- Any other plugin: it keeps out of the books and lets events about plans and subtitles
pass. -/
structure Bystander (s : Subscriber (World τ)) : Prop where
  name : s.pluginName ≠ Store.pluginName
  books : ∀ event w, (s.onEvent event w).1.manager = w.manager ∧
    (s.onEvent event w).1.pending = w.pending
  unclaimed : ∀ event w r, isTracked event = true ∨ (∃ evt, event = .subtitleGenerated evt) →
    (s.onEvent event w).2.toResult s.pluginName event.eventType = some r → r.claimed = false

/-- The four plugins in the order of their priorities, with bystanders around them. -/
structure Plugins (τ : Type) where
  settings : Settings
  first : List (Subscriber (World τ))
  second : List (Subscriber (World τ))
  third : List (Subscriber (World τ))
  fourth : List (Subscriber (World τ))
  last : List (Subscriber (World τ))
  bystanders : ∀ s ∈ first ++ second ++ third ++ fourth ++ last, Bystander s

namespace Plugins

variable (k : Plugins τ)

def others : List (Subscriber (World τ)) :=
  k.first ++ k.second ++ k.third ++ k.fourth ++ k.last

def subs : List (Subscriber (World τ)) :=
  k.first ++ managerPlugin k.settings :: (k.second ++ storePlugin k.settings ::
    (k.third ++ mkvtoolnixPlugin k.settings :: (k.fourth ++ ffmpegPlugin k.settings :: k.last)))

/-- Publishing one event after the other. -/
def run (events : List Event) (st : BusState (World τ)) : BusState (World τ) :=
  events.foldl (fun st event => (publish k.subs event st).1) st

end Plugins

/-! ## What is owed -/

/-- The ends of plans among the events. -/
def closings (events : List Event) : List (Uuid × Path) := events.filterMap closingOf

def starts (events : List Event) : List (Uuid × Path) := events.filterMap startOf

/-- Every plan that is started is closed exactly once afterwards, for the same path. -/
def EachClosed : List Event → Prop
  | [] => True
  | event :: rest =>
    (∀ plan, startOf event = some plan → (closings rest).filter (·.1 = plan.1) = [plan]) ∧
      EachClosed rest

/-- The starts and ends of plans that reached the store, in order. -/
def heard (st : BusState (World τ)) : List Event :=
  st.log.filterMap fun d =>
    if d.pluginName = Store.pluginName ∧ isTracked d.event then some d.event else none

/-- What holds when a run that began in `w` is over. -/
structure Settled (w : World τ) (st : BusState (World τ)) : Prop where
  closed : EachClosed (heard st)
  pending : ∀ op ∈ st.world.pending, op ∈ w.pending ∧ ∀ plan ∈ starts (heard st), plan.1 ≠ op.id
  records : ∀ p r, st.world.manager.records p = some r → r.retained = false →
    ∀ plan ∈ starts (heard st), plan.2 ≠ p
  recovery : ∀ normalizePath io mode scanDirs globalDir,
    ∀ r ∈ (checkAndRecoverUnder normalizePath io mode scanDirs globalDir
      { disk := st.world.disk, pending := st.world.pending }).1.restored,
    ∃ op ∈ w.pending, op.filePath = r.2 ∧ ∀ plan ∈ starts (heard st), plan.1 ≠ op.id

/-- The texts of a subtitle pass the checks of the executors. -/
def validTexts (evt : SubtitleGeneratedEvent) : Bool :=
  (Executors.validateMetadataValue evt.language).isOk &&
    evt.title.all fun title => (Executors.validateMetadataValue title).isOk

/-- An executor starts a plan for the subtitle. -/
def Settings.muxes (settings : Settings) (evt : SubtitleGeneratedEvent) : Bool :=
  (if Mkvtoolnix.containerOf evt.path = .mkv then settings.mkvtoolnixAvailable
    else settings.ffmpegConfig.available) && validTexts evt

/-- An event whose publication starts and closes no plan. -/
def Settings.Quiet (settings : Settings) (event : Event) : Prop :=
  isTracked event = false ∧ ∀ evt, event = .subtitleGenerated evt → settings.muxes evt = false

/-- The other plugins answer with quiet events only. -/
def Plugins.Quiet (k : Plugins τ) : Prop :=
  ∀ s ∈ k.others, ∀ event w r,
    (s.onEvent event w).2.toResult s.pluginName event.eventType = some r →
      ∀ produced ∈ r.producedEvents, k.settings.Quiet produced

/-- Closing a plan goes through: the backup is removed or restored, the rows of the plan
are updated, and its pending operation is deleted. -/
structure Settings.Reliable (settings : Settings) : Prop where
  removeFile : ∀ event p, (settings.backup event).removeFile p = .ok ()
  copy : ∀ event src dst, (settings.backup event).copy src dst = .ok ()
  updatePlanStatus : ∀ id status, settings.store.updatePlanStatus id status = .ok ()
  updatePlanError : ∀ evt, settings.store.updatePlanError evt = .ok ()
  deletePendingOp : ∀ id, settings.store.deletePendingOp id = true

/-! ## Starts and ends -/

theorem startOf_eq_none {event : Event} (h : isTracked event = false) : startOf event = none := by
  simp only [isTracked, Bool.or_eq_false_iff, Option.isSome_eq_false_iff, Option.isNone_iff_eq_none] at h
  exact h.1

theorem closingOf_eq_none {event : Event} (h : isTracked event = false) : closingOf event = none := by
  simp only [isTracked, Bool.or_eq_false_iff, Option.isSome_eq_false_iff, Option.isNone_iff_eq_none] at h
  exact h.2

/-- Only the starts and ends of plans matter. -/
theorem closings_filter (events : List Event) :
    closings (events.filter isTracked) = closings events := by
  induction events with
  | nil => rfl
  | cons event events ih =>
    cases h : isTracked event with
    | true =>
      rw [List.filter_cons_of_pos h, closings, closings, List.filterMap_cons, List.filterMap_cons]
      simp only [closings] at ih
      rw [ih]
    | false =>
      rw [List.filter_cons_of_neg (by simp [h]), ih, closings, closings,
        List.filterMap_cons_none (closingOf_eq_none h)]

theorem eachClosed_filter {events : List Event} :
    EachClosed (events.filter isTracked) ↔ EachClosed events := by
  induction events with
  | nil => rfl
  | cons event events ih =>
    cases h : isTracked event with
    | true => simp [h, EachClosed, ih, closings_filter]
    | false => simp [h, EachClosed, ih, startOf_eq_none h]

/-- A plan that is started is closed later. -/
theorem EachClosed.closed_of_start {events : List Event} (h : EachClosed events)
    {plan : Uuid × Path} (hplan : plan ∈ starts events) : plan ∈ closings events := by
  induction events with
  | nil => cases hplan
  | cons event events ih =>
    obtain ⟨hevent, hrest⟩ := h
    rw [starts, List.filterMap_cons] at hplan
    have hlater : plan ∈ closings events := by
      cases hstart : startOf event with
      | none =>
        rw [hstart] at hplan
        exact ih hrest hplan
      | some first =>
        rw [hstart] at hplan
        rcases List.mem_cons.mp hplan with rfl | hplan
        · have hmem : plan ∈ (closings events).filter (·.1 = plan.1) := by
            rw [hevent plan hstart]
            exact List.mem_singleton_self plan
          exact (List.mem_filter.mp hmem).1
        · exact ih hrest hplan
    rw [closings, List.filterMap_cons]
    split
    · exact hlater
    · exact List.mem_cons_of_mem _ hlater

/-! ## What the handlers enter in the books -/

/-- The manager, the pending operations, and what the store has heard. -/
structure Books where
  manager : Manager
  pending : List PendingOperation
  heard : List Event

def books (st : BusState (World τ)) : Books := ⟨st.world.manager, st.world.pending, heard st⟩

theorem heard_invoke (s : Subscriber (World τ)) (event : Event) (st : BusState (World τ)) :
    heard (invoke s event st).1 =
      heard st ++ if s.pluginName = Store.pluginName ∧ isTracked event then [event] else [] := by
  simp only [heard, invoke, List.filterMap_append]
  split <;> simp_all

/-- An invocation that leaves the books as they are. -/
theorem books_invoke {s : Subscriber (World τ)} {event : Event} {st : BusState (World τ)}
    (hmanager : (s.onEvent event st.world).1.manager = st.world.manager)
    (hpending : (s.onEvent event st.world).1.pending = st.world.pending)
    (hname : s.pluginName = Store.pluginName → isTracked event = false) :
    books (invoke s event st).1 = books st := by
  have hheard : heard (invoke s event st).1 = heard st := by
    rw [heard_invoke, if_neg, List.append_nil]
    rintro ⟨hstore, htracked⟩
    rw [hname hstore] at htracked
    cases htracked
  exact Books.mk.injEq .. ▸ ⟨hmanager, hpending, hheard⟩

theorem Bystander.keeps_books {s : Subscriber (World τ)} (h : Bystander s) (event : Event)
    (st : BusState (World τ)) : Lifecycle.books (invoke s event st).1 = Lifecycle.books st :=
  books_invoke (h.books event st.world).1 (h.books event st.world).2
    fun hname => absurd hname h.name

section

variable (settings : Settings)

theorem executorOnEvent_books (plan : Plan → Option EventResult)
    (subtitle : SubtitleGeneratedEvent → Uuid → Uuid → Except VoomError (Option EventResult))
    (event : Event) (w : World τ) :
    (executorOnEvent settings plan subtitle event w).1.manager = w.manager ∧
      (executorOnEvent settings plan subtitle event w).1.pending = w.pending := by
  unfold executorOnEvent
  split
  · exact ⟨rfl, rfl⟩
  · dsimp only
    split <;> exact ⟨rfl, rfl⟩
  · exact ⟨rfl, rfl⟩

/-- The store enters nothing for an event that is not tracked. -/
theorem Store.onEvent_books (io : StoreIo) {event : Event} (h : isTracked event = false)
    (w : World τ) :
    (Store.onEvent io event w).1.manager = w.manager ∧
      (Store.onEvent io event w).1.pending = w.pending := by
  unfold Store.onEvent
  split
  · cases h
  · unfold handlePlanCreated
    split <;> exact ⟨rfl, rfl⟩
  · cases h
  · unfold handlePlanSkipped
    split <;> exact ⟨rfl, rfl⟩
  · cases h
  · split <;> exact ⟨rfl, rfl⟩

theorem Manager.onEvent_untracked {io : BackupIo} {event : Event} (h : isTracked event = false)
    (m : Manager) (disk : Disk) : BackupManager.onEvent io event m disk = (m, disk, .ok none) := by
  unfold BackupManager.onEvent
  split
  · cases h
  · cases h
  · cases h
  · rfl

theorem Store.onEvent_manager (io : StoreIo) (event : Event) (w : World τ) :
    (Store.onEvent io event w).1.manager = w.manager := by
  unfold Store.onEvent
  split
  · rfl
  · unfold handlePlanCreated
    split <;> rfl
  · unfold handlePlanCompleted
    split <;> rfl
  · unfold handlePlanSkipped
    split <;> rfl
  · unfold handlePlanFailed
    split
    · rfl
    · dsimp only
      split <;> rfl
  · split <;> rfl

/-- The store answers with nothing but errors. -/
theorem Store.onEvent_silent (io : StoreIo) (event : Event) (w : World τ) (r : EventResult) :
    (Store.onEvent io event w).2 ≠ .ok (some r) := by
  unfold Store.onEvent
  split
  · exact fun h => by cases h
  · unfold handlePlanCreated
    split <;> exact fun h => by cases h
  · unfold handlePlanCompleted
    split <;> exact fun h => by cases h
  · unfold handlePlanSkipped
    split <;> exact fun h => by cases h
  · unfold handlePlanFailed
    split
    · exact fun h => by cases h
    · dsimp only
      split <;> exact fun h => by cases h
  · split <;> exact fun h => by cases h

/-- A start or an end of a plan is entered once by the manager and once by the store. -/
def Entered (event : Event) (b b' : Books) : Prop :=
  ∃ (τ : Type) (w : World τ) (disk : Disk), w.pending = b.pending ∧
    b' = ⟨(BackupManager.onEvent (settings.backup event) event b.manager disk).1,
      (Store.onEvent settings.store event w).1.pending, b.heard ++ [event]⟩

end

/-! ## Quiet events -/

/-- An answer of the bus for a failed handler is quiet, so the handler's own answers decide. -/
theorem Settings.quiet_toResult {settings : Settings} {answer : HandlerResult} {name : String}
    {kind : EventType} {r : EventResult}
    (hok : ∀ r, answer = .ok (some r) → ∀ produced ∈ r.producedEvents, settings.Quiet produced)
    (hr : answer.toResult name kind = some r) :
    ∀ produced ∈ r.producedEvents, settings.Quiet produced := by
  rcases HandlerResult.toResult_some hr with hres | ⟨text, rfl⟩
  · exact hok r hres
  · intro produced hmem
    rw [List.mem_singleton.mp hmem]
    exact ⟨rfl, fun evt h => by cases h⟩

/-- What an executor answers is quiet if its answers to plans and to the subtitle are. -/
theorem executor_answers_quiet {settings : Settings} {plan : Plan → Option EventResult}
    {subtitle : SubtitleGeneratedEvent → Uuid → Uuid → Except VoomError (Option EventResult)}
    (hplan : ∀ p r, plan p = some r → r.producedEvents = [])
    {event : Event} (hsubtitle : ∀ evt, event = .subtitleGenerated evt → ∀ fileId planId r,
      subtitle evt fileId planId ≠ .ok (some r))
    {w : World τ} {r : EventResult}
    (h : (executorOnEvent settings plan subtitle event w).2 = .ok (some r)) :
    ∀ produced ∈ r.producedEvents, settings.Quiet produced := by
  unfold executorOnEvent at h
  split at h
  · rw [hplan _ r (HandlerResult.ok.inj h)]
    intro produced hmem
    cases hmem
  · rename_i evt
    dsimp only at h
    split at h
    · rename_i hok
      rw [HandlerResult.ok.inj h] at hok
      exact absurd hok (hsubtitle evt rfl _ _ r)
    · cases h
  · cases h

theorem mkvtoolnix_plan_quiet {available : Bool} {env : Mkvtoolnix.Env} {plan : Plan}
    {r : EventResult} (h : (Mkvtoolnix.handlePlanCreated available env plan).1 = some r) :
    r.producedEvents = [] := by
  unfold Mkvtoolnix.handlePlanCreated at h
  split at h
  · cases h
  · obtain rfl := Option.some.inj h
    simp

theorem ffmpeg_plan_quiet {config : Ffmpeg.Config} {plan : Plan} {r : EventResult}
    {execute : Plan → Except VoomError (List ActionResult)}
    (h : Ffmpeg.handlePlanCreated config execute plan = some r) : r.producedEvents = [] := by
  unfold Ffmpeg.handlePlanCreated at h
  split at h
  · cases h
  · obtain rfl := Option.some.inj h
    simp

/-- The texts of a subtitle decide about its check. -/
theorem checkSubtitle_iff (error : String → VoomError) (evt : SubtitleGeneratedEvent) :
    Lib.Succeeds (Mkvtoolnix.checkSubtitle error evt) ↔ validTexts evt = true := by
  unfold Mkvtoolnix.checkSubtitle validTexts
  cases Executors.validateMetadataValue evt.language with
  | error e => exact iff_of_false (Lib.Succeeds.not_error _) Bool.false_ne_true
  | ok _ =>
    cases evt.title with
    | none => exact iff_of_true (Lib.Succeeds.ok _) rfl
    | some title =>
      cases htitle : Executors.validateMetadataValue title with
      | error e => simp [Except.isOk, Except.toBool, htitle, Lib.Succeeds]
      | ok _ => simp [Except.isOk, Except.toBool, htitle, Lib.Succeeds.pure]

/-- The MKVToolNix executor takes the subtitles of MKV files. -/
theorem mkvtoolnix_subtitle_iff {available : Bool} {evt : SubtitleGeneratedEvent}
    {fileId planId : Uuid} {r : EventResult} :
    Mkvtoolnix.handleSubtitleGenerated available evt fileId planId = .ok (some r) ↔
      (available = true ∧ Mkvtoolnix.containerOf evt.path = .mkv ∧ validTexts evt = true) ∧
        r = Mkvtoolnix.startMux Mkvtoolnix.pluginName .mkv evt fileId planId := by
  rw [← checkSubtitle_iff (Mkvtoolnix.toolError "mkvmerge")]
  unfold Mkvtoolnix.handleSubtitleGenerated
  cases available <;> by_cases hmkv : Mkvtoolnix.containerOf evt.path = .mkv <;>
    simp [hmkv, Lib.bind_eq_ok, Lib.Succeeds, pure, Except.pure, @eq_comm _ r]

/-- The FFmpeg executor takes those of the others. -/
theorem ffmpeg_subtitle_iff {config : Ffmpeg.Config} {evt : SubtitleGeneratedEvent}
    {fileId planId : Uuid} {r : EventResult} :
    Ffmpeg.handleSubtitleGenerated config evt fileId planId = .ok (some r) ↔
      (config.available = true ∧ Mkvtoolnix.containerOf evt.path ≠ .mkv ∧ validTexts evt = true) ∧
        r = Mkvtoolnix.startMux Ffmpeg.pluginName (Mkvtoolnix.containerOf evt.path) evt fileId
          planId := by
  rw [← checkSubtitle_iff (.plugin Ffmpeg.pluginName)]
  unfold Ffmpeg.handleSubtitleGenerated
  cases config.available <;> by_cases hmkv : Mkvtoolnix.containerOf evt.path = .mkv <;>
    simp [hmkv, Lib.bind_eq_ok, Lib.Succeeds, pure, Except.pure, @eq_comm _ r]

namespace Plugins

variable (k : Plugins τ)

theorem mem_subs {s : Subscriber (World τ)} :
    s ∈ k.subs ↔ s ∈ k.others ∨ s = managerPlugin k.settings ∨ s = storePlugin k.settings ∨
      s = mkvtoolnixPlugin k.settings ∨ s = ffmpegPlugin k.settings := by
  simp only [subs, others, List.mem_append, List.mem_cons]
  tauto

/-- An event that is not tracked leaves the books alone. -/
theorem keeps_books {event : Event} (h : isTracked event = false) {s : Subscriber (World τ)}
    (hs : s ∈ k.subs) (st : BusState (World τ)) : books (invoke s event st).1 = books st := by
  rcases k.mem_subs.mp hs with hs | rfl | rfl | rfl | rfl
  · exact (k.bystanders s hs).keeps_books event st
  · refine books_invoke ?_ rfl fun _ => h
    change (BackupManager.onEvent _ event st.world.manager st.world.disk).1 = _
    rw [Manager.onEvent_untracked h]
  · have hbooks := Store.onEvent_books k.settings.store h st.world
    exact books_invoke hbooks.1 hbooks.2 fun _ => h
  · exact books_invoke (executorOnEvent_books k.settings _ _ event st.world).1
      (executorOnEvent_books k.settings _ _ event st.world).2 fun _ => h
  · exact books_invoke (executorOnEvent_books k.settings _ _ event st.world).1
      (executorOnEvent_books k.settings _ _ event st.world).2 fun _ => h

/-- To an event that makes no executor start a plan, everyone answers with quiet events. -/
theorem answers_quiet (hquiet : k.Quiet) {event : Event}
    (h : ∀ evt, event = .subtitleGenerated evt → k.settings.muxes evt = false)
    {s : Subscriber (World τ)} (hs : s ∈ k.subs) {w : World τ} {r : EventResult}
    (hr : (s.onEvent event w).2.toResult s.pluginName event.eventType = some r) :
    ∀ produced ∈ r.producedEvents, k.settings.Quiet produced := by
  rcases k.mem_subs.mp hs with hs | rfl | rfl | rfl | rfl
  · exact hquiet s hs event w r hr
  · refine Settings.quiet_toResult (fun r hok => ?_) hr
    rw [onEvent_result hok]
    intro produced hmem
    cases hmem
  · refine Settings.quiet_toResult (fun r hok => ?_) hr
    exact absurd hok (Store.onEvent_silent _ _ _ r)
  · refine Settings.quiet_toResult (fun r hok => ?_) hr
    refine executor_answers_quiet (fun p r => mkvtoolnix_plan_quiet) ?_ hok
    intro evt hevt fileId planId r hsome
    obtain ⟨⟨havailable, hmkv, htexts⟩, -⟩ := mkvtoolnix_subtitle_iff.mp hsome
    have hmux := h evt hevt
    simp [Settings.muxes, hmkv, havailable, htexts] at hmux
  · refine Settings.quiet_toResult (fun r hok => ?_) hr
    refine executor_answers_quiet (fun p r => ffmpeg_plan_quiet) ?_ hok
    intro evt hevt fileId planId r hsome
    obtain ⟨⟨havailable, hmkv, htexts⟩, -⟩ := ffmpeg_subtitle_iff.mp hsome
    have hmux := h evt hevt
    simp [Settings.muxes, hmkv, havailable, htexts] at hmux

/-- Publishing a quiet event leaves the books as they are. -/
theorem publish_quiet (hquiet : k.Quiet) {event : Event} (h : k.settings.Quiet event)
    (remaining : Nat) (st : BusState (World τ)) :
    books (publishRecursive k.subs remaining event st).1 = books st := by
  refine publishRecursive_preserves (C := k.settings.Quiet) (P := fun st' => books st' = books st)
    ?_ ?_ h rfl
  · intro s hs event hevent _ st' hst'
    rw [k.keeps_books hevent.1 hs, hst']
  · intro s hs event hevent _ w r hr
    exact k.answers_quiet hquiet hevent.2 hs hr

/-! ## Starts and ends on the bus -/

end Plugins

theorem unclaimed_toResult {answer : HandlerResult} {name : String} {kind : EventType}
    {r : EventResult} (hok : ∀ r, answer = .ok (some r) → r.claimed = false)
    (hr : answer.toResult name kind = some r) : r.claimed = false := by
  rcases HandlerResult.toResult_some hr with hres | ⟨text, rfl⟩
  · exact hok r hres
  · rfl

theorem manager_unclaimed {settings : Settings} {event : Event} {w : World τ} {r : EventResult}
    (hr : ((managerPlugin settings).onEvent event w).2.toResult
      (managerPlugin settings : Subscriber (World τ)).pluginName event.eventType = some r) :
    r.claimed = false := by
  refine unclaimed_toResult (fun r hok => ?_) hr
  rw [onEvent_result hok]
  rfl

theorem store_unclaimed {settings : Settings} {event : Event} {w : World τ} {r : EventResult}
    (hr : ((storePlugin settings).onEvent event w).2.toResult
      (storePlugin settings : Subscriber (World τ)).pluginName event.eventType = some r) :
    r.claimed = false :=
  unclaimed_toResult (fun r hok => absurd hok (Store.onEvent_silent _ _ _ r)) hr

/-- One handler that does not claim, then the others. -/
theorem dispatchHandlers_unclaimed {event : Event} {s : Subscriber (World τ)}
    {rest : List (Subscriber (World τ))}
    (h : ∀ w r, (s.onEvent event w).2.toResult s.pluginName event.eventType = some r →
      r.claimed = false) (st : BusState (World τ)) :
    (dispatchHandlers event (s :: rest) st).1 =
      (dispatchHandlers event rest (invoke s event st).1).1 := by
  rw [← List.singleton_append, dispatchHandlers_append, dispatchHandlers_singleton]
  intro s' hs'
  rw [List.mem_singleton.mp hs']
  exact h

theorem books_bystanders {subs : List (Subscriber (World τ))} (h : ∀ s ∈ subs, Bystander s)
    (event : Event) (st : BusState (World τ)) :
    books (dispatchHandlers event subs st).1 = books st :=
  dispatchHandlers_preserves (P := fun st' => books st' = books st)
    (fun s hs st' hst' => ((h s hs).keeps_books event st').trans hst') rfl

/-- The manager and the store make their entries one after the other. -/
theorem entered {settings : Settings} {event : Event} (h : isTracked event = true)
    {st st₁ st₂ : BusState (World τ)} (hst₁ : books st₁ = books st)
    (hst₂ : books st₂ = books (invoke (managerPlugin settings) event st₁).1) :
    Entered settings event (books st) (books (invoke (storePlugin settings) event st₂).1) := by
  have hmanager : heard (invoke (managerPlugin settings) event st₁).1 = heard st₁ := by
    rw [heard_invoke, if_neg, List.append_nil]
    rintro ⟨hname, -⟩
    exact absurd hname (by decide : "backup-manager" ≠ Store.pluginName)
  have hstore : heard (invoke (storePlugin settings) event st₂).1 = heard st₂ ++ [event] := by
    rw [heard_invoke, if_pos ⟨rfl, h⟩]
  refine ⟨τ, st₂.world, st₁.world.disk, ?_, ?_⟩
  · have hpending : st₁.world.pending = st.world.pending := congrArg Books.pending hst₁
    exact (congrArg Books.pending hst₂).trans hpending
  · rw [← hst₁]
    refine Books.mk.injEq .. ▸ ⟨?_, rfl, ?_⟩
    · exact (Store.onEvent_manager _ event st₂.world).trans (congrArg Books.manager hst₂)
    · rw [hstore]
      exact congrArg (· ++ [event]) ((congrArg Books.heard hst₂).trans hmanager)

namespace Plugins

variable (k : Plugins τ)

theorem tracked_handles {event : Event} (h : isTracked event = true) :
    BackupManager.handles event.eventType = true ∧ handlesPlans event.eventType = false := by
  cases event <;> first | exact ⟨rfl, rfl⟩ | cases h

/-- Those that handle an event are bystanders or among the four. -/
theorem filter_bystanders (subs : List (Subscriber (World τ))) (h : ∀ s ∈ subs, s ∈ k.others)
    (event : Event) : ∀ s ∈ subs.filter (·.handles event.eventType), Bystander s :=
  fun s hs => k.bystanders s (h s (List.mem_filter.mp hs).1)

theorem publish_tracked (hquiet : k.Quiet) {event : Event} (h : isTracked event = true)
    (remaining : Nat) (st : BusState (World τ)) :
    Entered k.settings event (books st) (books (publishRecursive k.subs remaining event st).1) := by
  have hevent : ∀ evt, event = .subtitleGenerated evt → k.settings.muxes evt = false := by
    rintro evt rfl
    cases h
  refine publishRecursive_of_round (C := k.settings.Quiet)
    (P := fun st' => Entered k.settings event (books st) (books st')) ?_ ?_ ?_ ?_
  · intro s hs quiet hq _ st' hst'
    rw [k.keeps_books hq.1 hs]
    exact hst'
  · intro s hs quiet hq _ w r hr
    exact k.answers_quiet hquiet hq.2 hs hr
  · obtain ⟨hmanager, hexecutors⟩ := tracked_handles h
    have hfirst := k.filter_bystanders k.first (by simp +contextual [others]) event
    have hsecond := k.filter_bystanders k.second (by simp +contextual [others]) event
    have hlast := k.filter_bystanders (k.third ++ (k.fourth ++ k.last))
      (by simp +contextual [others]) event
    have hround : k.subs.filter (·.handles event.eventType) =
        k.first.filter (·.handles event.eventType) ++ managerPlugin k.settings ::
          (k.second.filter (·.handles event.eventType) ++ storePlugin k.settings ::
            (k.third ++ (k.fourth ++ k.last)).filter (·.handles event.eventType)) := by
      simp [subs, managerPlugin, storePlugin, mkvtoolnixPlugin, ffmpegPlugin,
        hmanager, hexecutors]
    rw [hround, dispatchHandlers_append fun s hs w r => (hfirst s hs).unclaimed event w r (.inl h),
      dispatchHandlers_unclaimed (fun w r => manager_unclaimed),
      dispatchHandlers_append fun s hs w r => (hsecond s hs).unclaimed event w r (.inl h),
      dispatchHandlers_unclaimed (fun w r => store_unclaimed), books_bystanders hlast]
    exact entered h (books_bystanders hfirst event st) (books_bystanders hsecond event _)
  · intro produced hproduced
    obtain ⟨s, hs, w, r, hr, hmem⟩ := mem_produced_of_dispatchHandlers hproduced
    exact k.answers_quiet hquiet hevent (List.mem_filter.mp hs).1 hr produced hmem

/-- A cascade of quiet events leaves the books as they are. -/
theorem cascade_quiet (hquiet : k.Quiet) (remaining : Nat) {events : List Event}
    (h : ∀ event ∈ events, k.settings.Quiet event) (st : BusState (World τ)) :
    books (events.foldl (fun st cascaded => (publishRecursive k.subs remaining cascaded st).1) st) =
      books st := by
  induction events generalizing st with
  | nil => rfl
  | cons event events ih =>
    rw [List.forall_mem_cons] at h
    rw [List.foldl_cons, ih h.2, k.publish_quiet hquiet h.1]

/-- The start of a plan for a subtitle. -/
def muxStart (evt : SubtitleGeneratedEvent) (planId : Uuid) : Event :=
  .planExecuting ⟨planId, evt.path, "subtitle_mux", 1⟩

/-- A plugin that lets the subtitle pass. -/
def Passes (evt : SubtitleGeneratedEvent) (s : Subscriber (World τ)) : Prop :=
  ∀ w r, (s.onEvent (.subtitleGenerated evt) w).2.toResult s.pluginName .subtitleGenerated =
    some r → r.claimed = false ∧ ∀ produced ∈ r.producedEvents, k.settings.Quiet produced

/-- A round that ends with the start of a mux enters it in the books. -/
theorem publish_startMux (hquiet : k.Quiet) {evt : SubtitleGeneratedEvent}
    {front back : List (Subscriber (World τ))} {s : Subscriber (World τ)}
    (hround : k.subs.filter (·.handles .subtitleGenerated) = front ++ s :: back)
    (hfront : ∀ s ∈ front, k.Passes evt s)
    (hs : ∀ w, ∃ name container fileId n, (s.onEvent (.subtitleGenerated evt) w).2 = .ok (some
      (Mkvtoolnix.startMux name container evt fileId (k.settings.newIds n).2)))
    (remaining : Nat) (st : BusState (World τ)) :
    ∃ n, Entered k.settings (muxStart evt (k.settings.newIds n).2) (books st)
      (books (publishRecursive k.subs (remaining + 1) (.subtitleGenerated evt) st).1) := by
  have hmem : ∀ s' ∈ front ++ s :: back, s' ∈ k.subs := by
    rw [← hround]
    exact fun s' hs' => (List.mem_filter.mp hs').1
  let st₁ := (dispatchHandlers (.subtitleGenerated evt) front st).1
  have hst₁ : books st₁ = books st := by
    refine dispatchHandlers_preserves (P := fun st' => books st' = books st) ?_ rfl
    intro s' hs' st' hst'
    rw [k.keeps_books rfl (hmem s' (List.mem_append_left _ hs')), hst']
  obtain ⟨name, container, fileId, n, hanswer⟩ := hs st₁.world
  let r := Mkvtoolnix.startMux name container evt fileId (k.settings.newIds n).2
  -- the executor claims the subtitle, so the round ends with it
  have hclaim : dispatchHandlers (.subtitleGenerated evt) (s :: back) st₁ =
      ((invoke s (.subtitleGenerated evt) st₁).1, [r]) := by
    have hresult : (invoke s (.subtitleGenerated evt) st₁).2 = .ok (some r) := hanswer
    simp only [dispatchHandlers, hresult, HandlerResult.toResult]
    rfl
  have hunclaimed : ∀ s ∈ front, ∀ w r,
      (s.onEvent (.subtitleGenerated evt) w).2.toResult s.pluginName .subtitleGenerated = some r →
        r.claimed = false := fun s hs w r hr => (hfront s hs w r hr).1
  have hdispatch : dispatchHandlers (.subtitleGenerated evt)
      (k.subs.filter (·.handles .subtitleGenerated)) st =
      ((invoke s (.subtitleGenerated evt) st₁).1,
        (dispatchHandlers (.subtitleGenerated evt) front st).2 ++ [r]) := by
    rw [hround, dispatchHandlers_append hunclaimed]
    exact congrArg (fun round => (round.1, _ ++ round.2)) hclaim
  have hproduced : [r].flatMap (·.producedEvents) = [muxStart evt (k.settings.newIds n).2,
      .planCreated (Mkvtoolnix.muxPlan container evt fileId (k.settings.newIds n).2)] := rfl
  have hquietFront : ∀ e ∈ (dispatchHandlers (.subtitleGenerated evt) front st).2.flatMap
      (·.producedEvents), k.settings.Quiet e := by
    intro e he
    obtain ⟨s', hs', w, r, hr, he⟩ := mem_produced_of_dispatchHandlers he
    exact (hfront s' hs' w r hr).2 e he
  have hstart : books ((invoke s (.subtitleGenerated evt) st₁).1) = books st := by
    rw [k.keeps_books rfl (hmem s (by simp)), hst₁]
  refine ⟨n, ?_⟩
  rw [publishRecursive_succ_fst]
  dsimp only [Event.eventType]
  rw [hdispatch, List.flatMap_append, hproduced, List.foldl_append, List.foldl_cons,
    List.foldl_cons, List.foldl_nil, k.publish_quiet hquiet ⟨rfl, fun _ h => by cases h⟩]
  have hentered := @publish_tracked _ k hquiet (muxStart evt (k.settings.newIds n).2) rfl
    remaining (List.foldl (fun st cascaded => (publishRecursive k.subs remaining cascaded st).1)
      (invoke s (.subtitleGenerated evt) st₁).1 ((dispatchHandlers (.subtitleGenerated evt) front
        st).2.flatMap (·.producedEvents)))
  rw [k.cascade_quiet hquiet remaining hquietFront, hstart] at hentered
  exact hentered

theorem passes_others (hquiet : k.Quiet) (evt : SubtitleGeneratedEvent)
    {s : Subscriber (World τ)} (hs : s ∈ k.others) : k.Passes evt s :=
  fun w r hr => ⟨(k.bystanders s hs).unclaimed _ w r (.inr ⟨evt, rfl⟩) hr, hquiet s hs _ w r hr⟩

theorem passes_store (evt : SubtitleGeneratedEvent) : k.Passes evt (storePlugin k.settings) :=
  fun _ _ hr => ⟨store_unclaimed hr,
    Settings.quiet_toResult (fun r hok => absurd hok (Store.onEvent_silent _ _ _ r)) hr⟩

/-- The MKVToolNix executor passes on what is not MKV. -/
theorem passes_mkvtoolnix {evt : SubtitleGeneratedEvent}
    (h : Mkvtoolnix.containerOf evt.path ≠ .mkv) :
    k.Passes evt (mkvtoolnixPlugin k.settings) := by
  intro w r hr
  have hnone : ((mkvtoolnixPlugin k.settings).onEvent (.subtitleGenerated evt) w).2 = .ok none := by
    simp [mkvtoolnixPlugin, executorOnEvent, Mkvtoolnix.handleSubtitleGenerated, h]
  rw [hnone] at hr
  cases hr

/-- Publishing a subtitle that an executor takes enters a plan of its own in the books. -/
theorem publish_mux (hquiet : k.Quiet) {evt : SubtitleGeneratedEvent}
    (h : k.settings.muxes evt = true) (remaining : Nat) (st : BusState (World τ)) :
    ∃ n, Entered k.settings (muxStart evt (k.settings.newIds n).2) (books st)
      (books (publishRecursive k.subs (remaining + 1) (.subtitleGenerated evt) st).1) := by
  let handling := fun subs : List (Subscriber (World τ)) => subs.filter (·.handles .subtitleGenerated)
  have hround : k.subs.filter (·.handles .subtitleGenerated) =
      handling (k.first ++ k.second) ++ storePlugin k.settings :: (handling k.third ++
        mkvtoolnixPlugin k.settings :: (handling k.fourth ++ ffmpegPlugin k.settings ::
          handling k.last)) := by
    have hmanager : (managerPlugin k.settings : Subscriber (World τ)).handles .subtitleGenerated =
        false := rfl
    have hothers : ∀ s ∈ [storePlugin k.settings, mkvtoolnixPlugin k.settings,
        (ffmpegPlugin k.settings : Subscriber (World τ))], s.handles .subtitleGenerated = true := by
      simp [storePlugin, mkvtoolnixPlugin, ffmpegPlugin, handlesPlans]
    simp only [List.forall_mem_cons, List.not_mem_nil, false_imp_iff, implies_true, and_true]
      at hothers
    simp only [handling, subs, List.filter_append, List.filter_cons, hmanager, hothers, if_true,
      Bool.false_eq_true, if_false, List.append_assoc]
  have hpass : ∀ subs : List (Subscriber (World τ)), (∀ s ∈ subs, s ∈ k.others) →
      ∀ s ∈ handling subs, k.Passes evt s :=
    fun subs hsubs s hs => k.passes_others hquiet evt (hsubs s (List.mem_filter.mp hs).1)
  have hfront : ∀ s ∈ handling (k.first ++ k.second) ++ storePlugin k.settings :: handling k.third,
      k.Passes evt s := by
    rw [List.forall_mem_append, List.forall_mem_cons]
    exact ⟨hpass _ (by simp +contextual [others, or_imp]), k.passes_store evt,
      hpass _ (by simp +contextual [others])⟩
  simp only [Settings.muxes, Bool.and_eq_true] at h
  obtain ⟨havailable, htexts⟩ := h
  split at havailable
  · rename_i hmkv
    have hturn : k.subs.filter (·.handles .subtitleGenerated) =
        (handling (k.first ++ k.second) ++ storePlugin k.settings :: handling k.third) ++
          mkvtoolnixPlugin k.settings :: (handling k.fourth ++ ffmpegPlugin k.settings ::
            handling k.last) := by
      rw [hround, List.append_assoc, List.cons_append]
    refine k.publish_startMux hquiet hturn hfront (fun w => ?_) remaining st
    refine ⟨Mkvtoolnix.pluginName, .mkv, (k.settings.newIds w.drawn).1, w.drawn, ?_⟩
    have htaken := fun fileId planId => (@mkvtoolnix_subtitle_iff _ evt fileId planId _).mpr
      ⟨⟨havailable, hmkv, htexts⟩, rfl⟩
    simp only [mkvtoolnixPlugin, executorOnEvent, htaken]
  · rename_i hmkv
    have hturn : k.subs.filter (·.handles .subtitleGenerated) =
        ((handling (k.first ++ k.second) ++ storePlugin k.settings :: handling k.third) ++
          mkvtoolnixPlugin k.settings :: handling k.fourth) ++
            ffmpegPlugin k.settings :: handling k.last := by
      simp only [hround, List.append_assoc, List.cons_append]
    refine k.publish_startMux hquiet hturn ?_ (fun w => ?_) remaining st
    · rw [List.forall_mem_append, List.forall_mem_cons]
      exact ⟨hfront, k.passes_mkvtoolnix hmkv, hpass _ (by simp +contextual [others])⟩
    · refine ⟨Ffmpeg.pluginName, Mkvtoolnix.containerOf evt.path, (k.settings.newIds w.drawn).1,
        w.drawn, ?_⟩
      have htaken := fun fileId planId => (@ffmpeg_subtitle_iff _ evt fileId planId _).mpr
        ⟨⟨havailable, hmkv, htexts⟩, rfl⟩
      simp only [ffmpegPlugin, executorOnEvent, htaken]

end Plugins

/-! ## Keeping the books -/

/-- The manager enters a start or an end under the path of the plan. -/
theorem records_of_ne {io : BackupIo} {event : Event} {plan : Uuid × Path}
    (h : startOf event = some plan ∨ closingOf event = some plan) {p : Path} (hp : p ≠ plan.2)
    (m : Manager) (disk : Disk) :
    (BackupManager.onEvent io event m disk).1.records p = m.records p := by
  cases event with
  | planExecuting evt =>
    obtain rfl : (evt.planId, evt.path) = plan := by simpa [startOf, closingOf] using h
    rcases (onPlanExecuting_effect io evt.path m disk).2 with heq | ⟨r, heq, -⟩
    · exact congrArg (·.records p) heq
    · exact (congrArg (·.records p) heq).trans (Manager.insertRecord_records_ne hp)
  | planCompleted evt =>
    obtain rfl : (evt.planId, evt.path) = plan := by simpa [startOf, closingOf] using h
    simp only [BackupManager.onEvent, onPlanCompleted]
    split
    · split
      · exact Manager.insertRecord_records_ne hp
      · rfl
    · split
      · rfl
      · split
        · rfl
        · exact Manager.eraseRecord_records_ne hp
  | planFailed evt =>
    obtain rfl : (evt.planId, evt.path) = plan := by simpa [startOf, closingOf] using h
    simp only [BackupManager.onEvent, onPlanFailed]
    split
    · rfl
    · split
      · rfl
      · exact Manager.eraseRecord_records_ne hp
  | _ => simp [startOf, closingOf] at h

section

variable {settings : Settings}

/-- After the end of a plan only a retained record is left for its path. -/
theorem retained_of_closing (hreliable : settings.Reliable) {event : Event} {plan : Uuid × Path}
    (h : closingOf event = some plan) {m : Manager} {disk : Disk} {r : BackupRecord}
    (hr : (BackupManager.onEvent (settings.backup event) event m disk).1.records plan.2 = some r) :
    r.retained = true := by
  cases event with
  | planCompleted evt =>
    obtain rfl : (evt.planId, evt.path) = plan := by simpa [closingOf] using h
    simp only [BackupManager.onEvent, onPlanCompleted, removeBackup, hreliable.removeFile] at hr
    split at hr
    · split at hr
      · rw [Manager.insertRecord_records_same] at hr
        rw [← Option.some.inj hr]
      · simp_all
    · split at hr
      · simp_all
      · rw [Manager.eraseRecord_records_same] at hr
        cases hr
  | planFailed evt =>
    obtain rfl : (evt.planId, evt.path) = plan := by simpa [closingOf] using h
    simp only [BackupManager.onEvent, onPlanFailed, restoreFile, hreliable.copy] at hr
    split at hr
    · simp_all
    · rw [Manager.eraseRecord_records_same] at hr
      cases hr
  | _ => cases h

/-- A start adds at most the operation of its plan. -/
theorem pending_of_start {io : StoreIo} {event : Event} {plan : Uuid × Path}
    (h : startOf event = some plan) {w : World τ} {op : PendingOperation}
    (hop : op ∈ (Store.onEvent io event w).1.pending) : op.id = plan.1 ∨ op ∈ w.pending := by
  cases event with
  | planExecuting evt =>
    obtain rfl : (evt.planId, evt.path) = plan := by simpa [startOf] using h
    simp only [Store.onEvent, Store.handlePlanExecuting] at hop
    split at hop
    · rcases List.mem_append.mp hop with hop | hop
      · exact .inr (Lib.Table.mem_delete.mp hop).1
      · rw [List.mem_singleton.mp hop]
        exact .inl rfl
    · exact .inr hop
  | _ => cases h

/-- An end removes the operation of its plan. -/
theorem pending_of_closing (hreliable : settings.Reliable) {event : Event} {plan : Uuid × Path}
    (h : closingOf event = some plan) {w : World τ} {op : PendingOperation}
    (hop : op ∈ (Store.onEvent settings.store event w).1.pending) :
    op ∈ w.pending ∧ op.id ≠ plan.1 := by
  cases event with
  | planCompleted evt =>
    obtain rfl : (evt.planId, evt.path) = plan := by simpa [closingOf] using h
    simp only [Store.onEvent, Store.handlePlanCompleted, Store.clearPendingOp,
      hreliable.updatePlanStatus, hreliable.deletePendingOp, if_true] at hop
    exact Lib.Table.mem_delete.mp hop
  | planFailed evt =>
    obtain rfl : (evt.planId, evt.path) = plan := by simpa [closingOf] using h
    simp only [Store.onEvent, Store.handlePlanFailed, Store.clearPendingOp,
      hreliable.updatePlanStatus, hreliable.updatePlanError, hreliable.deletePendingOp,
      if_true] at hop
    exact Lib.Table.mem_delete.mp hop
  | _ => cases h

/-- In the middle of a script: whatever the events so far have left in the books is cleared by
an event still to come. -/
structure Kept (w : World τ) (done rest : List Event) (b : Books) : Prop where
  heard : b.heard = done.filter isTracked
  pending : ∀ op ∈ b.pending, (op ∈ w.pending ∧ ∀ plan ∈ starts done, plan.1 ≠ op.id) ∨
    ∃ plan ∈ closings rest, plan.1 = op.id
  records : ∀ p r, b.manager.records p = some r → r.retained = false →
    (∀ plan ∈ starts done, plan.2 ≠ p) ∨ ∃ plan ∈ closings rest, plan.2 = p

namespace Kept

variable {w : World τ} {done rest : List Event} {event : Event} {b b' : Books}

theorem start (w : World τ) (rest : List Event) : Kept w [] rest ⟨w.manager, w.pending, []⟩ where
  heard := rfl
  pending _ hop := .inl ⟨hop, fun _ h => by cases h⟩
  records _ _ _ _ := .inl fun _ h => by cases h

theorem quiet (h : Kept w done (event :: rest) b) (hevent : isTracked event = false) :
    Kept w (done ++ [event]) rest b := by
  have hstarts : starts (done ++ [event]) = starts done := by
    simp [starts, startOf_eq_none hevent]
  have hclosings : closings (event :: rest) = closings rest :=
    List.filterMap_cons_none (closingOf_eq_none hevent)
  refine ⟨?_, ?_, ?_⟩
  · rw [h.heard, List.filter_append, List.filter_singleton, hevent]
    simp
  · rw [hstarts, ← hclosings]
    exact h.pending
  · rw [hstarts, ← hclosings]
    exact h.records

/-- A start is cleared by the end it is promised. -/
theorem executing (h : Kept w done (event :: rest) b) {plan : Uuid × Path}
    (hstart : startOf event = some plan) (hclosed : plan ∈ closings rest)
    (hentered : Entered settings event b b') : Kept w (done ++ [event]) rest b' := by
  obtain ⟨τ', w', disk, hw', rfl⟩ := hentered
  have htracked : isTracked event = true := by simp [isTracked, hstart]
  have hstarts : starts (done ++ [event]) = starts done ++ [plan] := by simp [starts, hstart]
  have hclosings : closings (event :: rest) = closings rest := by
    refine List.filterMap_cons_none ?_
    cases event <;> first | rfl | cases hstart
  refine ⟨?_, fun op hop => ?_, fun p r hr hretained => ?_⟩
  · simp [h.heard, htracked]
  · rcases pending_of_start hstart hop with hid | hop
    · exact .inr ⟨plan, hclosed, hid.symm⟩
    · by_cases hid : plan.1 = op.id
      · exact .inr ⟨plan, hclosed, hid⟩
      rcases h.pending op (hw' ▸ hop) with ⟨hop, hdone⟩ | hlater
      · refine .inl ⟨hop, ?_⟩
        rw [hstarts, List.forall_mem_append, List.forall_mem_singleton]
        exact ⟨hdone, hid⟩
      · exact .inr (hclosings ▸ hlater)
  · by_cases hp : plan.2 = p
    · exact .inr ⟨plan, hclosed, hp⟩
    rw [records_of_ne (.inl hstart) (Ne.symm hp)] at hr
    rcases h.records p r hr hretained with hdone | hlater
    · refine .inl ?_
      rw [hstarts, List.forall_mem_append, List.forall_mem_singleton]
      exact ⟨hdone, hp⟩
    · exact .inr (hclosings ▸ hlater)

/-- An end clears what is in the books for its plan. -/
theorem closing (hreliable : settings.Reliable) (h : Kept w done (event :: rest) b)
    {plan : Uuid × Path} (hclosing : closingOf event = some plan)
    (hentered : Entered settings event b b') : Kept w (done ++ [event]) rest b' := by
  obtain ⟨τ', w', disk, hw', rfl⟩ := hentered
  have htracked : isTracked event = true := by simp [isTracked, hclosing]
  have hstarts : starts (done ++ [event]) = starts done := by
    have hnone : startOf event = none := by cases event <;> first | rfl | cases hclosing
    simp [starts, hnone]
  have hclosings : closings (event :: rest) = plan :: closings rest :=
    List.filterMap_cons_some hclosing
  refine ⟨?_, fun op hop => ?_, fun p r hr hretained => ?_⟩
  · simp [h.heard, htracked]
  · obtain ⟨hop, hid⟩ := pending_of_closing hreliable hclosing hop
    rw [hstarts]
    rcases h.pending op (hw' ▸ hop) with hdone | ⟨later, hlater, heq⟩
    · exact .inl hdone
    · rw [hclosings] at hlater
      rcases List.mem_cons.mp hlater with rfl | hlater
      · exact absurd heq.symm hid
      · exact .inr ⟨later, hlater, heq⟩
  · have hp : p ≠ plan.2 := by
      rintro rfl
      rw [retained_of_closing hreliable hclosing hr] at hretained
      cases hretained
    rw [records_of_ne (.inr hclosing) hp] at hr
    rw [hstarts]
    rcases h.records p r hr hretained with hdone | ⟨later, hlater, heq⟩
    · exact .inl hdone
    · rw [hclosings] at hlater
      rcases List.mem_cons.mp hlater with rfl | hlater
      · exact absurd heq.symm hp
      · exact .inr ⟨later, hlater, heq⟩

/-- Run: a script whose plans are closed, without a subtitle that an executor takes. -/
theorem run {k : Plugins τ} (hquiet : k.Quiet) (hreliable : k.settings.Reliable)
    {rest : List Event} (hclosed : EachClosed rest)
    (hmuxes : ∀ evt, .subtitleGenerated evt ∈ rest → k.settings.muxes evt = false)
    {st : BusState (World τ)} (h : Kept w done rest (books st)) :
    Kept w (done ++ rest) [] (books (k.run rest st)) := by
  induction rest generalizing done st with
  | nil => simpa [Plugins.run] using h
  | cons event rest ih =>
    obtain ⟨hevent, hclosed⟩ := hclosed
    have hrest : ∀ evt, .subtitleGenerated evt ∈ rest → k.settings.muxes evt = false :=
      fun evt hmem => hmuxes evt (List.mem_cons_of_mem _ hmem)
    have hstep : Kept w (done ++ [event]) rest (books (publish k.subs event st).1) := by
      cases htracked : isTracked event with
      | false =>
        have hpublished : books (publish k.subs event st).1 = books st := by
          refine k.publish_quiet hquiet ⟨htracked, ?_⟩ _ st
          rintro evt rfl
          exact hmuxes evt List.mem_cons_self
        rw [hpublished]
        exact h.quiet htracked
      | true =>
        have hentered := k.publish_tracked hquiet htracked maxCascadeDepth st
        cases hstart : startOf event with
        | some plan =>
          have hlater : plan ∈ (closings rest).filter (·.1 = plan.1) := by
            rw [hevent plan hstart]
            exact List.mem_singleton_self plan
          exact h.executing hstart (List.mem_filter.mp hlater).1 hentered
        | none =>
          have hsome : (closingOf event).isSome := by simpa [isTracked, hstart] using htracked
          obtain ⟨plan, hclosing⟩ := Option.isSome_iff_exists.mp hsome
          exact h.closing hreliable hclosing hentered
    have hrun := ih hclosed hrest hstep
    rw [List.append_assoc, List.singleton_append] at hrun
    exact hrun

end Kept

end

/-! ## Who closes what -/

section

variable {k : Plugins τ}

/-- Publishing adds the event itself, or the start of a mux. -/
theorem publish_heard (hquiet : k.Quiet) (event : Event) (st : BusState (World τ)) :
    ∃ added, heard (publish k.subs event st).1 = heard st ++ added ∧
      (∀ plan ∈ closings added, plan ∈ closings [event]) ∧
      ∀ evt, event = .subtitleGenerated evt → k.settings.muxes evt = true →
        ∃ n, ((k.settings.newIds n).2, evt.path) ∈ starts added := by
  cases htracked : isTracked event with
  | true =>
    obtain ⟨τ', w', disk, -, hbooks⟩ := k.publish_tracked hquiet htracked maxCascadeDepth st
    refine ⟨[event], congrArg Books.heard hbooks, fun _ h => h, ?_⟩
    rintro evt rfl
    cases htracked
  | false =>
    by_cases hmux : ∃ evt, event = .subtitleGenerated evt ∧ k.settings.muxes evt = true
    · obtain ⟨evt, rfl, hmuxes⟩ := hmux
      obtain ⟨n, τ', w', disk, -, hbooks⟩ := k.publish_mux hquiet hmuxes 7 st
      refine ⟨_, congrArg Books.heard hbooks, fun _ h => (by cases h), ?_⟩
      rintro evt' hevt' -
      obtain rfl := Event.subtitleGenerated.inj hevt'
      exact ⟨n, List.mem_singleton_self _⟩
    · have hbooks : books (publish k.subs event st).1 = books st := by
        refine k.publish_quiet hquiet ⟨htracked, fun evt hevt => ?_⟩ _ st
        exact Bool.eq_false_iff.mpr fun hmuxes => hmux ⟨evt, hevt, hmuxes⟩
      refine ⟨[], ?_, fun _ h => (by cases h), fun evt hevt hm => absurd ⟨evt, hevt, hm⟩ hmux⟩
      rw [List.append_nil]
      exact congrArg Books.heard hbooks

/-- A run closes no other plans than its script does, and starts one for each subtitle that an
executor takes. -/
theorem run_heard (hquiet : k.Quiet) (script : List Event) (st : BusState (World τ)) :
    ∃ added, heard (k.run script st) = heard st ++ added ∧
      (∀ plan ∈ closings added, plan ∈ closings script) ∧
      ∀ evt, .subtitleGenerated evt ∈ script → k.settings.muxes evt = true →
        ∃ n, ((k.settings.newIds n).2, evt.path) ∈ starts added := by
  induction script generalizing st with
  | nil => exact ⟨[], (List.append_nil _).symm, fun _ h => h, fun _ h => by cases h⟩
  | cons event script ih =>
    obtain ⟨first, hfirst, hclosing, hmux⟩ := publish_heard hquiet event st
    obtain ⟨later, hlater, hclosings, hmuxes⟩ := ih (publish k.subs event st).1
    have hsplit : closings (event :: script) = closings [event] ++ closings script := by
      rw [← List.singleton_append, closings, List.filterMap_append]
      rfl
    refine ⟨first ++ later, ?_, fun plan hplan => ?_, fun evt hmem hevt => ?_⟩
    · rw [← List.append_assoc, ← hfirst, ← hlater]
      rfl
    · rw [hsplit, List.mem_append]
      rw [closings, List.filterMap_append, List.mem_append] at hplan
      exact hplan.imp (hclosing plan) (hclosings plan)
    · simp only [starts, List.filterMap_append, List.mem_append]
      rcases List.mem_cons.mp hmem with heq | hmem
      · obtain ⟨n, hn⟩ := hmux evt heq.symm hevt
        exact ⟨n, .inl hn⟩
      · obtain ⟨n, hn⟩ := hmuxes evt hmem hevt
        exact ⟨n, .inr hn⟩

/-- What is kept to the end of a script is settled. -/
theorem settled_of_kept {script : List Event} (hclosed : EachClosed script) {w : World τ}
    {st : BusState (World τ)} (h : Kept w script [] (books st)) : Settled w st := by
  have hheard : heard st = script.filter isTracked := h.heard
  have hstarts : ∀ plan ∈ starts (heard st), plan ∈ starts script := by
    intro plan hplan
    rw [hheard] at hplan
    exact (List.filter_sublist.filterMap startOf).subset hplan
  have hpending : ∀ op ∈ st.world.pending,
      op ∈ w.pending ∧ ∀ plan ∈ starts (heard st), plan.1 ≠ op.id := by
    intro op hop
    obtain ⟨hop, hnot⟩ := (h.pending op hop).resolve_right (by rintro ⟨_, hnil, -⟩; cases hnil)
    exact ⟨hop, fun plan hplan => hnot plan (hstarts plan hplan)⟩
  refine ⟨?_, hpending, fun p r hr hretained plan hplan => ?_, ?_⟩
  · rw [hheard]
    exact eachClosed_filter.mpr hclosed
  · have hnot := (h.records p r hr hretained).resolve_right (by rintro ⟨_, hnil, -⟩; cases hnil)
    exact hnot plan (hstarts plan hplan)
  · intro normalizePath io mode scanDirs globalDir r hr
    obtain ⟨op, hop, hpath⟩ :=
      checkAndRecoverUnder_restored normalizePath io mode scanDirs globalDir rfl r hr
    exact ⟨op, (hpending op hop).1, hpath, (hpending op hop).2⟩

end

/-- Published events whose own plans are closed leave every plan closed and the books clear of
them exactly if no executor takes a subtitle among them: the plan it starts for the subtitle is
closed by nobody. -/
theorem started_plans_are_closed_iff (k : Plugins τ) (hquiet : k.Quiet)
    (hreliable : k.settings.Reliable) {script : List Event} (hcaller : EachClosed script)
    (hfresh : ∀ n, ∀ plan ∈ closings script, plan.1 ≠ (k.settings.newIds n).2) (w : World τ) :
    Settled w (k.run script ⟨w, []⟩) ↔
      ∀ evt, .subtitleGenerated evt ∈ script → k.settings.muxes evt = false := by
  constructor
  · intro h evt hevt
    refine Bool.eq_false_iff.mpr fun hmuxes => ?_
    obtain ⟨added, hheard, hclosings, hmux⟩ := run_heard hquiet script ⟨w, []⟩
    obtain ⟨n, hn⟩ := hmux evt hevt hmuxes
    have hclosed : EachClosed added := by
      have hadded : heard (k.run script ⟨w, []⟩) = added := hheard
      rw [← hadded]
      exact h.closed
    exact hfresh n _ (hclosings _ (hclosed.closed_of_start hn)) rfl
  · intro hmuxes
    have hkept : Kept w ([] ++ script) [] (books (k.run script ⟨w, []⟩)) :=
      Kept.run hquiet hreliable hcaller hmuxes (Kept.start w script)
    rw [List.nil_append] at hkept
    exact settled_of_kept hcaller hkept

/-! ## A plan and a subtitle -/

def goodRun : Mkvtoolnix.MergeRun where
  tempId := "a"
  outcome := .ok ⟨some 0, "exit status: 0", "", 1⟩
  rename := .ok ()

/-- Every operation succeeds, and a tool leaves its result in place of the file. -/
def steady : Settings where
  backup _ := steadyIo 1
  store :=
    { now := fun _ => 1, insertPendingOp := fun _ => true, deletePendingOp := fun _ => true
      savePlan := fun _ => .ok (), updatePlanStatus := fun _ _ => .ok ()
      updatePlanError := fun _ => .ok (), other := fun _ => .ok () }
  mkvtoolnixAvailable := true
  mkvtoolnix _ :=
    { fileExists := true, stillExists := true, storage := none, propedit := goodRun.outcome
      merge := goodRun, mux := fun _ => goodRun }
  ffmpegConfig := { available := true, encoders := none, decoders := none, formats := none }
  ffmpeg _ := .ok []
  writes plan disk := Function.update disk plan.file.path (some [2])
  newIds n := (2 * n + 100, 2 * n + 101)

def fourPlugins : Plugins Unit where
  settings := steady
  first := []
  second := []
  third := []
  fourth := []
  last := []
  bystanders _ hs := by cases hs

theorem fourPlugins_quiet : fourPlugins.Quiet := fun _ hs => by cases hs

theorem steady_reliable : steady.Reliable where
  removeFile _ _ := rfl
  copy _ _ _ := rfl
  updatePlanStatus _ _ := rfl
  updatePlanError _ := rfl
  deletePendingOp _ := rfl

/-- One film, nothing open. -/
def filmWorld : World Unit := { manager := library.manager, disk := library.disk, rest := () }

/-- The pipeline starts a plan for the film and completes it. -/
def pipelineScript : List Event :=
  [.planExecuting ⟨1, movie, "normalize", 1⟩, .planCompleted ⟨1, movie, "normalize", 1, false⟩]

theorem pipelineScript_settled :
    EachClosed pipelineScript ∧ Settled filmWorld (fourPlugins.run pipelineScript ⟨filmWorld, []⟩) := by
  have hclosed : EachClosed pipelineScript := by
    simp [pipelineScript, EachClosed, startOf, closingOf, closings]
  refine ⟨hclosed, (started_plans_are_closed_iff fourPlugins fourPlugins_quiet steady_reliable hclosed
    ?_ filmWorld).mpr ?_⟩
  · intro n plan hplan
    obtain rfl : (1, movie) = plan := by
      simpa [pipelineScript, closings, closingOf] using hplan
    change 1 ≠ 2 * n + 101
    omega
  · intro evt hevt
    simp [pipelineScript] at hevt

def subtitle : SubtitleGeneratedEvent where
  path := movie
  subtitlePath := media.join "movie.srt"
  language := "eng"
  forced := false

/-- A subtitle is muxed into the film. The plan for it stays open, and the next recovery puts
the film back as it was before. -/
theorem recovery_undoes_subtitle_mux :
    EachClosed [.subtitleGenerated subtitle] ∧
      ¬ Settled filmWorld (fourPlugins.run [.subtitleGenerated subtitle] ⟨filmWorld, []⟩) ∧
      (Mkvtoolnix.executePlan (steady.mkvtoolnix (Mkvtoolnix.muxPlan .mkv subtitle 100 101))
        (Mkvtoolnix.muxPlan .mkv subtitle 100 101)).deeds ≠ [] ∧
      (fourPlugins.run [.subtitleGenerated subtitle] ⟨filmWorld, []⟩).world.disk movie = some [2] ∧
      (checkAndRecoverUnder id (recoveryIo [1]) .alwaysRecover [media] none
        { disk := (fourPlugins.run [.subtitleGenerated subtitle] ⟨filmWorld, []⟩).world.disk
          pending := (fourPlugins.run [.subtitleGenerated subtitle]
            ⟨filmWorld, []⟩).world.pending }).1.disk movie = some [1] := by
  refine ⟨by simp [EachClosed, startOf], fun h => ?_, by decide +kernel, by decide +kernel,
    by decide +kernel⟩
  have hheard : heard (fourPlugins.run [.subtitleGenerated subtitle] ⟨filmWorld, []⟩) =
      [Plugins.muxStart subtitle 101] := by decide +kernel
  have hclosed := h.closed
  rw [hheard] at hclosed
  exact absurd (hclosed.1 (101, movie) rfl) (by decide)

end Voom.Lifecycle
