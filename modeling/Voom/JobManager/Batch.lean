-- SUMMARY: The batch pool: its main loop and tasks in any order, and the accounts of its jobs.
import Voom.JobManager.Worker

/-!
# process_batch

The pool enqueues every item, spawns a task for each job as permits come free,
cancels the jobs it did not start, and collects the results. A run is any order
of the steps of the main loop and of the tasks, with the token cancelled at any
moment.
-/

namespace Voom.JobManager

open Voom.Lib

/-- What a pool is given. -/
structure PoolConfig where
  workers : Nat
  strategy : JobErrorStrategy

/-- The points of `process_batch`, each with the jobs it has not started yet. -/
inductive BatchPoint where
  | enqueuing (items : List WorkItem) (ids : List Uuid)
  | dispatching (ids : List Uuid)
  | sweeping (ids : List Uuid)
  | sweepWrite (id : Uuid) (ids : List Uuid)
  | draining
  | returned

def BatchPoint.unstarted : BatchPoint → List Uuid
  | .enqueuing _ ids | .dispatching ids | .sweeping ids => ids
  | .sweepWrite id ids => id :: ids
  | .draining | .returned => []

/-- The pool: its main loop, the tasks it spawned, the jobs it enqueued, with the
rows that were inserted for them, and those that were cancelled as unstarted. -/
structure BatchState where
  shared : Shared
  main : BatchPoint
  tasks : List (Uuid × TaskPoint) := []
  enqueued : List Uuid := []
  stored : List Job := []
  swept : List Uuid := []

/-- What the world answers to a step of the main loop: the outcome of storing a
job, the identifier of a result without a job, the time, and which of two ready
branches is taken. -/
structure MainReply where
  stored : Except String Uuid
  failureId : Uuid
  now : String := ""
  cancelFirst : Bool := false

inductive BatchAct where
  | main (reply : MainReply)
  | task (id : Uuid) (reply : Reply)
  | cancel

namespace BatchState

/-- A result of the main loop itself. -/
def reject (s : BatchState) (id : Uuid) (error : String) : BatchState :=
  let shared := s.shared.count (.failure id error)
  { s with shared := { shared with received := shared.received ++ [.failure id error] } }

/-- The permits that are held. -/
def active (s : BatchState) : Nat := s.tasks.countP (!·.2.isFinished)

/-- The capacity of the result channel. -/
def capacity (s : BatchState) : Nat := max s.enqueued.length 1

def mainStep (config : PoolConfig) (s : BatchState) (reply : MainReply) : BatchState :=
  match s.main with
  | .enqueuing [] ids => { s with main := .dispatching ids }
  | .enqueuing (item :: items) ids =>
    match item.payload with
    | .error e =>
      { s.reject reply.failureId ("payload serialization failed: " ++ e) with
        main := .enqueuing items ids }
    | .ok _ =>
      match reply.stored with
      | .error e =>
        { s.reject reply.failureId ("enqueue failed: " ++ e) with main := .enqueuing items ids }
      | .ok id =>
        { s with
          shared := s.shared.call (.enqueue id item.priority reply.now)
          main := .enqueuing items (ids ++ [id])
          enqueued := s.enqueued ++ [id]
          stored := s.stored ++ [{ id, priority := item.priority, createdAt := reply.now }] }
  | .dispatching [] => { s with main := .draining }
  | .dispatching (id :: ids) =>
    let free := s.active < config.workers
    if s.shared.cancelled ∧ (reply.cancelFirst ∨ ¬ free) then { s with main := .sweeping (id :: ids) }
    else if free then { s with tasks := s.tasks ++ [(id, .start)], main := .dispatching ids }
    else s
  | .sweeping [] => { s with main := .draining }
  | .sweeping (id :: ids) =>
    if s.shared.queue.cancellable id then { s with main := .sweepWrite id ids }
    else { s with main := .sweeping ids }
  | .sweepWrite id ids =>
    { s with
      shared := s.shared.cancelJob id reply.now, main := .sweeping ids, swept := s.swept ++ [id] }
  | .draining =>
    match s.shared.channel with
    | _ :: _ => { s with shared := s.shared.receive }
    | [] => if s.active = 0 then { s with main := .returned } else s
  | .returned => s

def taskStep (config : PoolConfig) (s : BatchState) (id : Uuid) (reply : Reply) : BatchState :=
  match s.tasks.find? (·.1 = id) with
  | none => s
  | some (_, p) =>
    let (p', shared) := advance config.strategy s.capacity id reply s.shared p
    { s with shared, tasks := Table.modify Prod.fst id (fun _ => (id, p')) s.tasks }

def step (config : PoolConfig) (s : BatchState) : BatchAct → BatchState
  | .main reply => s.mainStep config reply
  | .task id reply => s.taskStep config id reply
  | .cancel => { s with shared := s.shared.cancel }

def run (config : PoolConfig) (s : BatchState) (acts : List BatchAct) : BatchState :=
  acts.foldl (step config) s

/-! ## Accounts of the jobs -/

/-- The identifiers that storage and the pool choose are new. -/
def FreshIds (s : BatchState) : BatchAct → Prop
  | .main reply => ∀ items ids, s.main = .enqueuing items ids →
    (∀ id, reply.stored = .ok id → s.shared.Fresh id) ∧ s.shared.Fresh reply.failureId
  | _ => True

/-- The pool stores all its jobs before it does anything else, and then chooses no
identifiers. -/
theorem fresh_of_enqueued {config : PoolConfig} {s : BatchState} {acts : List BatchAct}
    (h : ∀ items ids, s.main ≠ .enqueuing items ids) : Along (step config) FreshIds s acts := by
  have hstep (s : BatchState) (act : BatchAct) (hs : ∀ items ids, s.main ≠ .enqueuing items ids)
      (_ : True) : ∀ items ids, (s.step config act).main ≠ .enqueuing items ids := by
    cases act with
    | main reply =>
      simp only [step, mainStep]
      split
      case h_1 hmain => exact absurd hmain (hs _ _)
      case h_2 hmain => exact absurd hmain (hs _ _)
      all_goals (repeat' split) <;> first | exact hs | simp
    | task id reply =>
      simp only [step, taskStep]
      split <;> exact hs
    | cancel => exact hs
  refine Along.of_invariant hstep (fun s act hs _ => ?_) h (Along.of_forall_mem (fun _ _ _ => trivial) _)
  cases act with
  | main reply => exact fun items ids hmain => absurd hmain (hs items ids)
  | _ => trivial

/-- No task sees the token cancelled before its claim, and no claim fails. -/
structure Guarded (s : BatchState) (act : BatchAct) : Prop where
  start : ∀ id reply, act = .task id reply → (id, .start) ∈ s.tasks → s.shared.cancelled = false
  claim : ∀ id reply, act = .task id reply → (id, .claiming) ∈ s.tasks → reply.claimError = none

/-- Each job is in one place, with the account that goes with it. -/
structure Inv (start : Counters) (s : BatchState) : Prop where
  places : s.enqueued.Perm (s.tasks.map Prod.fst ++ s.swept ++ s.main.unstarted)
  nodup : s.enqueued.Nodup
  tasks : ∀ t ∈ s.tasks, t.2.Matches t.1 (s.shared.account t.1)
  swept : ∀ id ∈ s.swept, s.shared.account id = ⟨some .cancelled, [], []⟩
  unstarted : ∀ id ∈ s.main.unstarted, s.shared.account id = ⟨some .pending, [], []⟩
  strangers : ∀ id, id ∉ s.enqueued → (s.shared.account id).counted = (s.shared.account id).sent
  counters : start.Fit s.shared.counted s.shared.counters
  returned : s.main = .returned → s.shared.channel = [] ∧ ∀ t ∈ s.tasks, t.2.isFinished = true

variable {config : PoolConfig} {start : Counters} {s : BatchState}

theorem Inv.places_at (h : Inv start s) {p : BatchPoint} (hmain : s.main = p) :
    s.enqueued.Perm (s.tasks.map Prod.fst ++ s.swept ++ p.unstarted) :=
  hmain ▸ h.places

theorem Inv.unstarted_at (h : Inv start s) {p : BatchPoint} (hmain : s.main = p) :
    ∀ id ∈ p.unstarted, s.shared.account id = ⟨some .pending, [], []⟩ :=
  hmain ▸ h.unstarted

theorem Inv.mem_enqueued (h : Inv start s) {id : Uuid} :
    id ∈ s.enqueued ↔ id ∈ s.tasks.map Prod.fst ∨ id ∈ s.swept ∨ id ∈ s.main.unstarted := by
  rw [h.places.mem_iff, List.mem_append, List.mem_append, or_assoc]

/-- An enqueued job is in the table. -/
theorem Inv.status_isSome (h : Inv start s) {id : Uuid} (hid : id ∈ s.enqueued) :
    (s.shared.account id).status.isSome = true := by
  rcases h.mem_enqueued.mp hid with htask | hswept | hunstarted
  · obtain ⟨⟨id, p⟩, ht, rfl⟩ := List.mem_map.mp htask
    exact (h.tasks _ ht).status_isSome
  · rw [h.swept id hswept]
    rfl
  · rw [h.unstarted id hunstarted]
    rfl

theorem Inv.not_mem_of_fresh (h : Inv start s) {id : Uuid} (hfresh : s.shared.Fresh id) :
    id ∉ s.enqueued := by
  intro hid
  have hsome := h.status_isSome hid
  rw [hfresh] at hsome
  cases hsome

/-! ### One step -/

theorem account_reject_ne {id other : Uuid} (error : String) (h : id ≠ other) :
    (s.reject id error).shared.account other = s.shared.account other := by
  simp [reject, Shared.account, Shared.count, JobResult.failure, h]

/-- A result without a job is counted and given out at once. -/
theorem Inv.reject (h : Inv start s) {id : Uuid} (hfresh : s.shared.Fresh id) (error : String)
    {item : WorkItem} {items : List WorkItem} {ids : List Uuid}
    (hmain : s.main = .enqueuing (item :: items) ids) :
    Inv start { s.reject id error with main := .enqueuing items ids } := by
  have hnew := h.not_mem_of_fresh hfresh
  have hframe {other : Uuid} (hother : other ∈ s.enqueued) :
      (s.reject id error).shared.account other = s.shared.account other :=
    account_reject_ne error fun heq => hnew (heq ▸ hother)
  have hplaces : s.enqueued.Perm (s.tasks.map Prod.fst ++ s.swept ++ ids) :=
    h.places_at hmain
  refine ⟨hplaces, h.nodup, ?_, ?_, ?_, ?_, h.counters.add _, fun h => nomatch h⟩
  · intro t ht
    rw [hframe (h.mem_enqueued.mpr (.inl (List.mem_map_of_mem ht)))]
    exact h.tasks t ht
  · intro other hother
    rw [hframe (h.mem_enqueued.mpr (.inr (.inl hother)))]
    exact h.swept other hother
  · intro other hother
    have hunstarted : other ∈ s.main.unstarted := by rwa [hmain]
    rw [hframe (h.mem_enqueued.mpr (.inr (.inr hunstarted)))]
    exact h.unstarted other hunstarted
  · intro other hother
    by_cases heq : id = other
    · subst heq
      simp only [Shared.Fresh, Shared.account, Account.mk.injEq] at hfresh
      simp only [List.filter_append, List.append_eq_nil_iff] at hfresh
      simp [BatchState.reject, Shared.account, Shared.count, JobResult.failure, hfresh]
    · rw [account_reject_ne error heq]
      exact h.strangers other hother

theorem Inv.enqueue (h : Inv start s) {id : Uuid} (hfresh : s.shared.Fresh id) {now : String}
    {item : WorkItem} {items : List WorkItem} {ids : List Uuid}
    (hmain : s.main = .enqueuing (item :: items) ids) :
    Inv start
      { s with
        shared := s.shared.call (.enqueue id item.priority now)
        main := .enqueuing items (ids ++ [id])
        enqueued := s.enqueued ++ [id]
        stored := s.stored ++ [{ id, priority := item.priority, createdAt := now }] } := by
  have hnew := h.not_mem_of_fresh hfresh
  have hframe {other : Uuid} (hother : other ≠ id) :
      (s.shared.call (.enqueue id item.priority now)).account other = s.shared.account other :=
    Shared.account_call_ne (QueueState.statusOf_enqueue_ne _ hother _ _)
  have hold {other : Uuid} (hother : other ∈ s.enqueued) : other ≠ id :=
    fun heq => hnew (heq ▸ hother)
  have hself : (s.shared.call (.enqueue id item.priority now)).account id = ⟨some .pending, [], []⟩ :=
    Shared.account_status hfresh
      (QueueState.statusOf_enqueue_self (congrArg Account.status hfresh) _ _) rfl rfl rfl
  have hplaces : s.enqueued.Perm (s.tasks.map Prod.fst ++ s.swept ++ ids) :=
    h.places_at hmain
  refine ⟨?_, ?_, ?_, ?_, ?_, ?_, h.counters, fun h => nomatch h⟩
  · rw [BatchPoint.unstarted, ← List.append_assoc]
    exact hplaces.append_right [id]
  · exact List.Nodup.append h.nodup (List.nodup_singleton _) (by simpa using hnew)
  · intro t ht
    rw [hframe (hold (h.mem_enqueued.mpr (.inl (List.mem_map_of_mem ht))))]
    exact h.tasks t ht
  · intro other hother
    rw [hframe (hold (h.mem_enqueued.mpr (.inr (.inl hother))))]
    exact h.swept other hother
  · intro other hother
    rcases List.mem_append.mp hother with hother | hother
    · have hunstarted : other ∈ s.main.unstarted := by rwa [hmain]
      rw [hframe (hold (h.mem_enqueued.mpr (.inr (.inr hunstarted))))]
      exact h.unstarted other hunstarted
    · rw [List.mem_singleton.mp hother]
      exact hself
  · intro other hother
    rw [List.mem_append, not_or, List.mem_singleton] at hother
    rw [hframe hother.2]
    exact h.strangers other hother.1

theorem Inv.sweepWrite (h : Inv start s) {id : Uuid} {ids : List Uuid} (now : String)
    (hmain : s.main = .sweepWrite id ids) :
    Inv start
      { s with
        shared := s.shared.cancelJob id now, main := .sweeping ids, swept := s.swept ++ [id] } := by
  have hplaces : s.enqueued.Perm (s.tasks.map Prod.fst ++ s.swept ++ id :: ids) :=
    h.places_at hmain
  have hnodup : (s.tasks.map Prod.fst ++ s.swept ++ id :: ids).Nodup := hplaces.nodup_iff.mp h.nodup
  rw [List.nodup_middle, List.nodup_cons, List.mem_append, List.mem_append, not_or, not_or] at hnodup
  obtain ⟨⟨⟨htask, hswept⟩, hrest⟩, -⟩ := hnodup
  have hframe {other : Uuid} (hother : other ≠ id) :
      (s.shared.cancelJob id now).account other = s.shared.account other :=
    Shared.account_cancelJob_ne now hother
  have hpending := h.unstarted id (by rw [hmain]; exact List.mem_cons_self)
  have hself : (s.shared.cancelJob id now).account id = ⟨some .cancelled, [], []⟩ := by
    refine Shared.account_status hpending ?_ rfl rfl rfl
    have hstatus : s.shared.queue.statusOf id = some .pending := congrArg Account.status hpending
    simp [Shared.cancelJob, QueueState.statusOf_write_self, hstatus, JobCall.update]
  refine ⟨?_, h.nodup, ?_, ?_, ?_, ?_, h.counters, fun h => by cases h⟩
  · simpa [BatchPoint.unstarted] using hplaces
  · intro t ht
    rw [hframe fun heq => htask (heq ▸ List.mem_map_of_mem ht)]
    exact h.tasks t ht
  · intro other hother
    rcases List.mem_append.mp hother with hother | hother
    · rw [hframe fun heq => hswept (heq ▸ hother)]
      exact h.swept other hother
    · rw [List.mem_singleton.mp hother]
      exact hself
  · intro other hother
    rw [hframe fun heq => hrest (heq ▸ hother)]
    exact h.unstarted other (by rw [hmain]; exact List.mem_cons_of_mem _ hother)
  · intro other hother
    have hin : id ∈ s.enqueued := hplaces.mem_iff.mpr (by simp)
    rw [hframe fun heq => hother (heq ▸ hin)]
    exact h.strangers other hother

/-- The main loop goes on with the same jobs unstarted. -/
theorem Inv.move (h : Inv start s) {p : BatchPoint} (hunstarted : p.unstarted = s.main.unstarted)
    (hreturned : p = .returned →
      s.shared.channel = [] ∧ ∀ t ∈ s.tasks, t.2.isFinished = true) :
    Inv start { s with main := p } := by
  refine ⟨?_, h.nodup, h.tasks, h.swept, ?_, h.strangers, h.counters, hreturned⟩
  · rw [hunstarted]
    exact h.places
  · rw [hunstarted]
    exact h.unstarted

theorem Inv.spawn (h : Inv start s) {id : Uuid} {ids : List Uuid}
    (hmain : s.main = .dispatching (id :: ids)) :
    Inv start { s with tasks := s.tasks ++ [(id, .start)], main := .dispatching ids } := by
  have hplaces : s.enqueued.Perm (s.tasks.map Prod.fst ++ s.swept ++ id :: ids) :=
    h.places_at hmain
  refine ⟨?_, h.nodup, ?_, h.swept, ?_, h.strangers, h.counters, fun h => nomatch h⟩
  · refine hplaces.trans ?_
    simp only [List.map_append, List.map_singleton, BatchPoint.unstarted, List.append_assoc]
    exact List.Perm.append_left _ List.perm_middle
  · intro t ht
    rcases List.mem_append.mp ht with ht | ht
    · exact h.tasks t ht
    · rw [List.mem_singleton.mp ht]
      exact h.unstarted_at hmain id List.mem_cons_self
  · exact fun other hother => h.unstarted_at hmain other (List.mem_cons_of_mem _ hother)

theorem Inv.receive (h : Inv start s) (hmain : s.main = .draining) :
    Inv start { s with shared := s.shared.receive } := by
  have hcounters : start.Fit s.shared.receive.counted s.shared.receive.counters := by
    unfold Shared.receive
    split <;> exact h.counters
  refine ⟨h.places, h.nodup, ?_, ?_, ?_, ?_, hcounters, fun heq => ?_⟩
  · simpa using h.tasks
  · simpa using h.swept
  · simpa using h.unstarted
  · simpa using h.strangers
  · rw [hmain] at heq
    cases heq

theorem Inv.mainStep (h : Inv start s) {reply : MainReply} (hfresh : FreshIds s (.main reply)) :
    Inv start (s.mainStep config reply) := by
  unfold BatchState.mainStep
  split
  case h_1 ids hmain => exact h.move (by rw [hmain]; rfl) fun h => by cases h
  case h_2 item items ids hmain =>
    have hids := hfresh _ _ hmain
    split
    · exact h.reject hids.2 _ hmain
    · split
      · exact h.reject hids.2 _ hmain
      · exact h.enqueue (hids.1 _ ‹_›) hmain
  case h_3 hmain => exact h.move (by rw [hmain]; rfl) fun h => by cases h
  case h_4 id ids hmain =>
    simp only
    split
    · exact h.move (by rw [hmain]; rfl) fun h => by cases h
    · split
      · exact h.spawn hmain
      · exact h
  case h_5 hmain => exact h.move (by rw [hmain]; rfl) fun h => by cases h
  case h_6 id ids hmain =>
    -- An unstarted job is pending, so it can be cancelled.
    have hpending := h.unstarted_at hmain id List.mem_cons_self
    have hcancellable : s.shared.queue.cancellable id = true := by
      have hstatus : s.shared.queue.statusOf id = some .pending := congrArg Account.status hpending
      simp [QueueState.cancellable, hstatus, JobStatus.isTerminal]
    rw [if_pos hcancellable]
    exact h.move (by rw [hmain]; rfl) fun h => by cases h
  case h_7 id ids hmain => exact h.sweepWrite reply.now hmain
  case h_8 hmain =>
    split
    · exact h.receive hmain
    · split
      · rename_i hchannel hactive
        refine h.move (by rw [hmain]; rfl) fun _ => ⟨hchannel, ?_⟩
        simpa [active, List.countP_eq_zero] using hactive
      · exact h
  case h_9 => exact h

theorem Inv.taskStep (h : Inv start s) {id : Uuid} {reply : Reply}
    (hguard : Guarded s (.task id reply)) : Inv start (s.taskStep config id reply) := by
  unfold BatchState.taskStep
  split
  · exact h
  · rename_i other p hfind
    obtain rfl : other = id := by simpa using List.find?_some hfind
    have hmem : (other, p) ∈ s.tasks := List.mem_of_find?_eq_some hfind
    have hmatches := h.tasks _ hmem
    have hself := advance_matches config.strategy s.capacity
      (fun hp => hguard.start other reply rfl (hp ▸ hmem))
      (fun hp => hguard.claim other reply rfl (hp ▸ hmem)) hmatches
    have hframe {id : Uuid} (hne : id ≠ other) :=
      advance_frame config.strategy s.capacity reply hmatches hne
    have hnodup := h.places.nodup_iff.mp h.nodup
    rw [List.append_assoc, List.nodup_append] at hnodup
    obtain ⟨hkeys, -, hdisjoint⟩ := hnodup
    have hother {id : Uuid} (hid : id ∈ s.swept ++ s.main.unstarted) : id ≠ other :=
      fun heq => hdisjoint other (List.mem_map_of_mem hmem) id hid heq.symm
    refine ⟨?_, h.nodup, ?_, ?_, ?_, ?_, ?_, ?_⟩
    · simp only
      rw [Table.map_key_modify]
      · exact h.places
      · exact fun r _ hr => hr.symm
    · intro t ht
      obtain ⟨old, hold, rfl⟩ := Table.mem_modify.mp ht
      split
      · exact hself
      · rename_i hne
        rw [hframe hne]
        exact h.tasks old hold
    · intro id hid
      rw [hframe (hother (List.mem_append_left _ hid))]
      exact h.swept id hid
    · intro id hid
      rw [hframe (hother (List.mem_append_right _ hid))]
      exact h.unstarted id hid
    · intro id hid
      have hin : other ∈ s.enqueued := h.mem_enqueued.mpr (.inl (List.mem_map_of_mem hmem))
      have hne : id ≠ other := fun heq => hid (heq ▸ hin)
      rw [hframe hne]
      exact h.strangers id hid
    · exact advance_counters config.strategy s.capacity other reply p h.counters
    · -- A pool that returned has no task that could take a step.
      intro hmain
      obtain ⟨hchannel, hfinished⟩ := h.returned hmain
      obtain rfl : p = .finished := by
        have hp := hfinished _ hmem
        cases p <;> first | rfl | cases hp
      refine ⟨hchannel, fun t ht => ?_⟩
      obtain ⟨old, hold, rfl⟩ := Table.mem_modify.mp ht
      split
      · rfl
      · exact hfinished old hold

theorem Inv.step (h : Inv start s) {act : BatchAct} (hfresh : FreshIds s act)
    (hguard : Guarded s act) : Inv start (s.step config act) := by
  cases act with
  | main reply => exact h.mainStep hfresh
  | task id reply => exact h.taskStep hguard
  | cancel => exact ⟨h.places, h.nodup, h.tasks, h.swept, h.unstarted, h.strangers, h.counters, h.returned⟩

/-! ### Whole runs -/

/-- The pool as `process_batch` starts it. -/
def initial (items : List WorkItem) (queue : QueueState) (counters : Counters) (cancelled : Bool) :
    BatchState where
  shared := { queue, counters, cancelled }
  main := .enqueuing items []

theorem initial_inv (items : List WorkItem) (queue : QueueState) (counters : Counters)
    (cancelled : Bool) : Inv counters (initial items queue counters cancelled) := by
  refine ⟨.nil, .nil, ?_, ?_, ?_, fun _ _ => rfl, ⟨rfl, rfl, rfl⟩, fun h => nomatch h⟩
  · exact fun _ h => nomatch h
  · exact fun _ h => nomatch h
  · exact fun _ h => nomatch h

theorem Inv.accounted (h : Inv start s) (hreturned : s.main = .returned) :
    Accounted start s.shared.queue s.enqueued s.swept s.shared.received s.shared.counters := by
  obtain ⟨hchannel, hfinished⟩ := h.returned hreturned
  have hplace {id : Uuid} (hid : id ∈ s.enqueued) : (s.shared.account id).Closed id ∨
      id ∈ s.swept ∧ s.shared.account id = ⟨some .cancelled, [], []⟩ := by
    rcases h.mem_enqueued.mp hid with htask | hswept | hunstarted
    · obtain ⟨⟨id, p⟩, ht, rfl⟩ := List.mem_map.mp htask
      have hp := hfinished _ ht
      have hmatches := h.tasks _ ht
      cases p with
      | finished => exact .inl hmatches
      | _ => cases hp
    · exact .inr ⟨hswept, h.swept id hswept⟩
    · rw [hreturned] at hunstarted
      cases hunstarted
  exact accounted_of_accounts hchannel hplace h.strangers h.counters

/-- A cancelled token stays cancelled. -/
theorem cancelled_step (act : BatchAct) (h : s.shared.cancelled = true) :
    (s.step config act).shared.cancelled = true := by
  cases act with
  | main reply =>
    simp only [step, mainStep, Shared.receive]
    (repeat' split) <;> exact h
  | task id reply =>
    simp only [step, BatchState.taskStep]
    split
    · exact h
    · exact advance_cancelled _ _ _ _ _ h
  | cancel => rfl

end BatchState

end Voom.JobManager
