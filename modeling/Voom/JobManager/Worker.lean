-- SUMMARY: The tasks of the worker pool, step by step, and what each step does to the account of a job.
import Voom.JobManager.Queue

/-!
# Worker tasks

A task of the pool carries one job from its claim to its result. It shares the
queue, the cancellation token, the counters and the result channel with the
other tasks, and stops between any two of its storage calls, counter updates
and channel sends. `advance` is one such step. The account of a job is its
status in the table with the results that were counted and sent for it;
`TaskPoint.Matches` says what it is at each point of the task.
-/

namespace Voom.JobManager

open Voom.Lib

/-! ## Results -/

inductive JobOutcome where
  | success
  | failure (error : String)
  | alreadyClaimed
  deriving DecidableEq, Repr

structure JobResult where
  jobId : Uuid
  outcome : JobOutcome
  deriving DecidableEq, Repr

namespace JobResult

def success (id : Uuid) : JobResult := ⟨id, .success⟩

def failure (id : Uuid) (error : String) : JobResult := ⟨id, .failure error⟩

def alreadyClaimed (id : Uuid) : JobResult := ⟨id, .alreadyClaimed⟩

def isSuccess (r : JobResult) : Bool := r.outcome = .success

def isFailure (r : JobResult) : Bool :=
  match r.outcome with
  | .failure _ => true
  | _ => false

def isAlreadyClaimed (r : JobResult) : Bool := r.outcome = .alreadyClaimed

end JobResult

inductive JobErrorStrategy where
  | fail | skip | continue
  deriving DecidableEq, Repr

/-- `WorkItem`, with what serialising its payload gives. -/
structure WorkItem where
  priority : Int := 100
  payload : Except String (Option Json) := .ok none

/-- The counters of the pool. -/
structure Counters where
  completed : Nat := 0
  failed : Nat := 0
  alreadyClaimed : Nat := 0
  deriving DecidableEq, Repr

def Counters.add (c : Counters) (r : JobResult) : Counters :=
  match r.outcome with
  | .success => { c with completed := c.completed + 1 }
  | .failure _ => { c with failed := c.failed + 1 }
  | .alreadyClaimed => { c with alreadyClaimed := c.alreadyClaimed + 1 }

/-- The counters that go with some results, from those at the start. -/
def Counters.Fit (start : Counters) (results : List JobResult) (c : Counters) : Prop :=
  c.completed = start.completed + results.countP (·.isSuccess) ∧
    c.failed = start.failed + results.countP (·.isFailure) ∧
    c.alreadyClaimed = start.alreadyClaimed + results.countP (·.isAlreadyClaimed)

theorem Counters.Fit.add {start c : Counters} {results : List JobResult}
    (h : start.Fit results c) (r : JobResult) : start.Fit (results ++ [r]) (c.add r) := by
  obtain ⟨id, outcome⟩ := r
  obtain ⟨hcompleted, hfailed, hclaimed⟩ := h
  cases outcome <;>
    simp [Fit, Counters.add, JobResult.isSuccess, JobResult.isFailure,
      JobResult.isAlreadyClaimed, hcompleted, hfailed, hclaimed, Nat.add_assoc]

theorem Counters.Fit.of_perm {start c : Counters} {results results' : List JobResult}
    (h : start.Fit results c) (hperm : results.Perm results') : start.Fit results' c := by
  unfold Fit at h ⊢
  rwa [hperm.countP_eq, hperm.countP_eq, hperm.countP_eq] at h

/-! ## Status of a job -/

namespace QueueState

def statusOf (s : QueueState) (id : Uuid) : Option JobStatus :=
  (s.jobs.find? (·.id = id)).map (·.status)

/-- The check of `cancel`. -/
def cancellable (s : QueueState) (id : Uuid) : Bool :=
  (s.statusOf id).any (!·.isTerminal)

theorem statusOf_write_self (s : QueueState) (id : Uuid) (u : JobUpdate) :
    (s.write id u).statusOf id = (s.statusOf id).map (u.status.getD ·) := by
  have hfind : (updateJob id u s.jobs).find? (·.id = id) = (s.jobs.find? (·.id = id)).map u.apply :=
    Table.find?_modify_self fun job => u.apply_id job
  simp only [statusOf, write, hfind, Option.map_map]
  rfl

theorem statusOf_write_ne (s : QueueState) {id other : Uuid} (u : JobUpdate) (h : other ≠ id) :
    (s.write id u).statusOf other = s.statusOf other := by
  have hfind : (updateJob id u s.jobs).find? (·.id = other) = s.jobs.find? (·.id = other) :=
    Table.find?_modify_ne (fun job => u.apply_id job) h
  simp only [statusOf, write, hfind]

theorem statusOf_enqueue_self {s : QueueState} {id : Uuid} (h : s.statusOf id = none)
    (priority : Int) (now : String) :
    (s.enqueue id priority now).statusOf id = some .pending := by
  have hfind : s.jobs.find? (·.id = id) = none := by simpa [statusOf] using h
  have hnew : s.jobs.any (·.id = id) = false := by
    rw [List.any_eq_false]
    exact List.find?_eq_none.mp hfind
  simp [enqueue, hnew, statusOf, List.find?_append, hfind]

theorem statusOf_enqueue_ne (s : QueueState) {id other : Uuid} (h : other ≠ id)
    (priority : Int) (now : String) :
    (s.enqueue id priority now).statusOf other = s.statusOf other := by
  unfold enqueue
  split
  · rfl
  · simp [statusOf, List.find?_append, h.symm]

/-- A pending job is there for a claim. -/
theorem claimJobById_of_pending {s : QueueState} {id : Uuid} (h : s.statusOf id = some .pending)
    (worker now : String) : ∃ job, job.id = id ∧
      claimJobById id worker now s.jobs =
        (some job, updateJob id (claimUpdate worker now) s.jobs) := by
  obtain ⟨job, hjob, hpending⟩ := Option.map_eq_some_iff.mp h
  have hid : job.id = id := by simpa using List.find?_some hjob
  obtain ⟨found, hfound⟩ : ∃ found, s.jobs.find?
      (fun job => job.id = id ∧ job.status = .pending) = some found := by
    rw [← Option.isSome_iff_exists, List.find?_isSome]
    exact ⟨job, List.mem_of_find?_eq_some hjob, by simp [hid, hpending]⟩
  have hfound_id : found.id = id ∧ found.status = .pending := by simpa using List.find?_some hfound
  exact ⟨(claimUpdate worker now).apply found, hfound_id.1, by simp only [claimJobById, hfound]⟩

theorem step_claimById_of_pending {s : QueueState} {id : Uuid} (h : s.statusOf id = some .pending)
    (worker now : String) :
    (s.step (.claimById id worker now)).statusOf id = some .running := by
  obtain ⟨job, -, hclaim⟩ := claimJobById_of_pending h worker now
  have hwrite := statusOf_write_self s id (claimUpdate worker now)
  simp only [step, claimWith, hclaim]
  rw [h] at hwrite
  exact hwrite

theorem claimed_step_claimById {s : QueueState} {id : Uuid} (h : s.statusOf id = some .pending)
    (worker now : String) : (s.step (.claimById id worker now)).claimed = s.claimed ++ [id] := by
  obtain ⟨job, hid, hclaim⟩ := claimJobById_of_pending h worker now
  simp only [step, claimWith, hclaim, hid]

theorem step_claimById_ne (s : QueueState) {id other : Uuid} (h : other ≠ id)
    (worker now : String) :
    (s.step (.claimById id worker now)).statusOf other = s.statusOf other := by
  rcases claimJobById_cases id worker now s.jobs with hnone | ⟨job, -, -, hid, hsome⟩
  · simp only [step, claimWith, hnone]
  · simp only [step, claimWith, hsome]
    rw [hid]
    exact statusOf_write_ne s _ h

end QueueState

/-! ## Shared state -/

/-- What the tasks of a pool share. The history `counted` has the results in the
order they were counted. -/
structure Shared where
  queue : QueueState := {}
  cancelled : Bool := false
  counters : Counters := {}
  channel : List JobResult := []
  received : List JobResult := []
  counted : List JobResult := []

namespace Shared

def call (s : Shared) (c : JobCall) : Shared := { s with queue := s.queue.step c }

def cancel (s : Shared) : Shared := { s with cancelled := true }

/-- The write of `cancel`. -/
def cancelJob (s : Shared) (id : Uuid) (now : String) : Shared :=
  { s with queue := s.queue.write id ((JobCall.cancelWrite id now).update.getD {}) }

def count (s : Shared) (r : JobResult) : Shared :=
  { s with counters := s.counters.add r, counted := s.counted ++ [r] }

def send (s : Shared) (r : JobResult) : Shared := { s with channel := s.channel ++ [r] }

/-- The receiver takes a result out of the channel. -/
def receive (s : Shared) : Shared :=
  match s.channel with
  | [] => s
  | r :: rest => { s with channel := rest, received := s.received ++ [r] }

end Shared

/-! ## Steps of a task -/

/-- How a claim fails. -/
inductive ClaimError where
  | storage (error : String)
  | join (error : String)

def ClaimError.message : ClaimError → String
  | .storage e => "failed to claim: " ++ e
  | .join e => "task join error: " ++ e

/-- What the world answers to a step: the time, the outcome of a claim and of the
processor, and the text of an error of `cancel`. -/
structure Reply where
  now : String := ""
  worker : String := ""
  claimError : Option ClaimError := none
  processed : Except String (Option Json) := .ok none
  cancelError : String := ""

/-- The points of `run_one_job` and `run_claimed_job`. A result that is `counting`
or `sending` with `stop` is followed by the cancellation of the pool. -/
inductive TaskPoint where
  | start
  | claiming
  | recheck
  | cancelRead
  | cancelWrite
  | processing
  | completing (output : Option Json)
  | failing (error : String)
  | counting (result : JobResult) (stop : Bool)
  | sending (result : JobResult) (stop : Bool)
  | stopping
  | finished

def TaskPoint.isFinished : TaskPoint → Bool
  | .finished => true
  | _ => false

/-- The points after the claim. -/
def TaskPoint.isClaimed : TaskPoint → Bool
  | .start | .claiming => false
  | _ => true

/-- One step of the task of a job. -/
def advance (strategy : JobErrorStrategy) (capacity : Nat) (id : Uuid) (reply : Reply)
    (s : Shared) : TaskPoint → TaskPoint × Shared
  | .start =>
    if s.cancelled then (.counting (.failure id "cancelled") false, s) else (.claiming, s)
  | .claiming =>
    match reply.claimError with
    | some e => (.counting (.failure id e.message) false, s)
    | none =>
      match (claimJobById id reply.worker reply.now s.queue.jobs).1 with
      | none => (.counting (.alreadyClaimed id) false, s)
      | some _ => (.recheck, s.call (.claimById id reply.worker reply.now))
  | .recheck => (if s.cancelled then .cancelRead else .processing, s)
  | .cancelRead =>
    if s.queue.cancellable id then (.cancelWrite, s)
    else (.counting (.failure id ("failed to mark job as cancelled: " ++ reply.cancelError)) false, s)
  | .cancelWrite => (.counting (.failure id "cancelled") false, s.cancelJob id reply.now)
  | .processing =>
    match reply.processed with
    | .ok output => (.completing output, s)
    | .error e => (.failing e, s)
  | .completing output => (.counting (.success id) false, s.call (.complete id output reply.now))
  | .failing error =>
    (.counting (.failure id error) (strategy = .fail), s.call (.fail id error reply.now))
  | .counting r stop => (.sending r stop, s.count r)
  | .sending r stop =>
    -- A full channel makes the sender wait.
    if s.channel.length < capacity then (if stop then .stopping else .finished, s.send r)
    else (.sending r stop, s)
  | .stopping => (.finished, s.cancel)
  | .finished => (.finished, s)

/-! ## Accounts -/

/-- What has happened to a job: its status, and the results that were counted and
sent for it. -/
structure Account where
  status : Option JobStatus
  counted : List JobResult
  sent : List JobResult
  deriving DecidableEq

def Shared.account (s : Shared) (id : Uuid) : Account where
  status := s.queue.statusOf id
  counted := s.counted.filter (·.jobId = id)
  sent := (s.received ++ s.channel).filter (·.jobId = id)

/-- A job that is settled and has a result. -/
def Account.Closed (id : Uuid) (a : Account) : Prop :=
  ∃ status r, status.isTerminal = true ∧ r.jobId = id ∧ a = ⟨some status, [r], [r]⟩

/-- No row and no result has the identifier. -/
def Shared.Fresh (s : Shared) (id : Uuid) : Prop := s.account id = ⟨none, [], []⟩

/-- A pool that returned leaves no job behind: each job it enqueued is settled,
each that was not cancelled as unstarted has one result, and the counters go with
the results. -/
structure Accounted (start : Counters) (queue : QueueState) (enqueued swept : List Uuid)
    (results : List JobResult) (counters : Counters) : Prop where
  settled : ∀ id ∈ enqueued, ∃ status, queue.statusOf id = some status ∧ status.isTerminal = true
  reported : ∀ id ∈ enqueued, id ∉ swept → (results.filter (·.jobId = id)).length = 1
  counters : start.Fit results counters

/-- Results that agree job by job are the same, up to their order. -/
theorem perm_of_filter_jobId {results results' : List JobResult}
    (h : ∀ id, results.filter (·.jobId = id) = results'.filter (·.jobId = id)) :
    results.Perm results' := by
  refine List.perm_iff_count.mpr fun r => ?_
  rw [← List.count_filter (p := (·.jobId = r.jobId)) (a := r) (l := results) (by simp),
    ← List.count_filter (p := (·.jobId = r.jobId)) (a := r) (l := results') (by simp), h]

/-- The account of a job whose task is at a point. -/
def TaskPoint.Matches (id : Uuid) (a : Account) : TaskPoint → Prop
  | .start | .claiming => a = ⟨some .pending, [], []⟩
  | .recheck | .cancelRead | .cancelWrite | .processing | .completing _ | .failing _ =>
    a = ⟨some .running, [], []⟩
  | .counting r _ => r.jobId = id ∧ ∃ status, status.isTerminal = true ∧ a = ⟨some status, [], []⟩
  | .sending r _ => r.jobId = id ∧ ∃ status, status.isTerminal = true ∧ a = ⟨some status, [r], []⟩
  | .stopping | .finished => a.Closed id

section

variable {s : Shared} {id other : Uuid}

theorem Shared.account_call_ne {c : JobCall} (h : (s.queue.step c).statusOf id = s.queue.statusOf id) :
    (s.call c).account id = s.account id := by
  simp only [Shared.account, Shared.call, h]

theorem Shared.account_count_ne {r : JobResult} (h : r.jobId ≠ id) :
    (s.count r).account id = s.account id := by
  simp [Shared.account, Shared.count, h]

theorem Shared.account_send_ne {r : JobResult} (h : r.jobId ≠ id) :
    (s.send r).account id = s.account id := by
  simp [Shared.account, Shared.send, h]

theorem Shared.account_cancelJob_ne (now : String) (h : other ≠ id) :
    (s.cancelJob id now).account other = s.account other := by
  simp only [Shared.account, Shared.cancelJob, QueueState.statusOf_write_ne _ _ h]

/-- Taking a result out of the channel changes no account. -/
@[simp] theorem Shared.account_receive : s.receive.account id = s.account id := by
  unfold Shared.receive
  split
  · rfl
  · rename_i r rest hchannel
    simp [Shared.account, hchannel]

/-- Give a job another status. -/
theorem Shared.account_status {s' : Shared} {old : Option JobStatus} {status : JobStatus}
    {counted sent : List JobResult} (h : s.account id = ⟨old, counted, sent⟩)
    (hstatus : s'.queue.statusOf id = some status)
    (hcounted : s'.counted = s.counted) (hreceived : s'.received = s.received)
    (hchannel : s'.channel = s.channel) : s'.account id = ⟨some status, counted, sent⟩ := by
  simp only [Shared.account, Account.mk.injEq] at h ⊢
  rw [hstatus, hcounted, hreceived, hchannel]
  exact ⟨rfl, h.2⟩

theorem TaskPoint.Matches.status_isSome {p : TaskPoint} {a : Account} (h : p.Matches id a) :
    a.status.isSome = true := by
  cases p with
  | counting r stop | sending r stop =>
    obtain ⟨-, status, -, rfl⟩ := h
    rfl
  | stopping | finished =>
    obtain ⟨status, r, -, -, rfl⟩ := h
    rfl
  | _ =>
    obtain rfl := h
    rfl

/-- A step of a job's task changes no other account. -/
theorem advance_frame (strategy : JobErrorStrategy) (capacity : Nat) (reply : Reply) {p : TaskPoint}
    (h : p.Matches id (s.account id)) (hne : other ≠ id) :
    (advance strategy capacity id reply s p).2.account other = s.account other := by
  cases p with
  | start =>
    simp only [advance]
    split <;> rfl
  | claiming =>
    simp only [advance]
    split
    · rfl
    · split
      · rfl
      · exact Shared.account_call_ne (QueueState.step_claimById_ne _ hne _ _)
  | cancelRead =>
    simp only [advance]
    split <;> rfl
  | cancelWrite => exact Shared.account_cancelJob_ne _ hne
  | processing =>
    simp only [advance]
    split <;> rfl
  | completing output => exact Shared.account_call_ne (QueueState.statusOf_write_ne _ _ hne)
  | failing error => exact Shared.account_call_ne (QueueState.statusOf_write_ne _ _ hne)
  | counting r stop =>
    obtain ⟨rfl, -⟩ := h
    exact Shared.account_count_ne hne.symm
  | sending r stop =>
    obtain ⟨rfl, -⟩ := h
    simp only [advance]
    split
    · exact Shared.account_send_ne hne.symm
    · rfl
  | recheck | stopping | finished => rfl

/-- A step of a job's task keeps its account right, unless it sees the token
cancelled before its claim, or the claim fails. -/
theorem advance_matches (strategy : JobErrorStrategy) (capacity : Nat) {reply : Reply}
    {p : TaskPoint} (hstart : p = .start → s.cancelled = false)
    (hclaim : p = .claiming → reply.claimError = none) (h : p.Matches id (s.account id)) :
    (advance strategy capacity id reply s p).1.Matches id
      ((advance strategy capacity id reply s p).2.account id) := by
  cases p with
  | start =>
    simp only [advance, hstart rfl]
    exact h
  | claiming =>
    have hpending : s.queue.statusOf id = some .pending := congrArg Account.status h
    obtain ⟨job, -, hclaimed⟩ :=
      QueueState.claimJobById_of_pending hpending reply.worker reply.now
    simp only [advance, hclaim rfl, hclaimed]
    exact Shared.account_status h (QueueState.step_claimById_of_pending hpending _ _) rfl rfl rfl
  | recheck =>
    simp only [advance]
    split <;> exact h
  | cancelRead =>
    have hrunning : s.queue.statusOf id = some .running := congrArg Account.status h
    have hcancellable : s.queue.cancellable id = true := by
      simp [QueueState.cancellable, hrunning, JobStatus.isTerminal]
    simp only [advance, hcancellable]
    exact h
  | cancelWrite =>
    have hwrite : (s.cancelJob id reply.now).queue.statusOf id = some .cancelled := by
      have hrunning : s.queue.statusOf id = some .running := congrArg Account.status h
      simp [Shared.cancelJob, QueueState.statusOf_write_self, hrunning, JobCall.update]
    exact ⟨rfl, .cancelled, rfl, Shared.account_status h hwrite rfl rfl rfl⟩
  | processing =>
    simp only [advance]
    split <;> exact h
  | completing output =>
    have hwrite : (s.call (.complete id output reply.now)).queue.statusOf id = some .completed := by
      have hrunning : s.queue.statusOf id = some .running := congrArg Account.status h
      simp [Shared.call, QueueState.step, QueueState.statusOf_write_self, hrunning, JobCall.update]
    exact ⟨rfl, .completed, rfl, Shared.account_status h hwrite rfl rfl rfl⟩
  | failing error =>
    have hwrite : (s.call (.fail id error reply.now)).queue.statusOf id = some .failed := by
      have hrunning : s.queue.statusOf id = some .running := congrArg Account.status h
      simp [Shared.call, QueueState.step, QueueState.statusOf_write_self, hrunning, JobCall.update]
    exact ⟨rfl, .failed, rfl, Shared.account_status h hwrite rfl rfl rfl⟩
  | counting r stop =>
    obtain ⟨rfl, status, hterminal, haccount⟩ := h
    refine ⟨rfl, status, hterminal, ?_⟩
    simp only [Shared.account, Account.mk.injEq] at haccount
    simp [advance, Shared.account, Shared.count, haccount]
  | sending r stop =>
    obtain ⟨rfl, status, hterminal, haccount⟩ := h
    simp only [advance]
    split
    · have hsent : (s.send r).account r.jobId = ⟨some status, [r], [r]⟩ := by
        simp only [Shared.account, Account.mk.injEq] at haccount
        simp only [List.filter_append, List.append_eq_nil_iff] at haccount
        simp [Shared.account, Shared.send, haccount]
      cases stop <;> exact ⟨status, r, hterminal, rfl, hsent⟩
    · exact ⟨rfl, status, hterminal, haccount⟩
  | stopping => exact h
  | finished => exact h

theorem advance_isClaimed (strategy : JobErrorStrategy) (capacity : Nat) (id : Uuid)
    (reply : Reply) {p : TaskPoint} (h : p.isClaimed = true) :
    (advance strategy capacity id reply s p).1.isClaimed = true := by
  cases p with
  | start | claiming => cases h
  | _ =>
    simp only [advance]
    (repeat' split) <;> rfl

/-- Only a claim adds to the claims. -/
theorem advance_claimed (strategy : JobErrorStrategy) (capacity : Nat) (id : Uuid)
    (reply : Reply) {p : TaskPoint} (h : p.isClaimed = true) :
    (advance strategy capacity id reply s p).2.queue.claimed = s.queue.claimed := by
  cases p with
  | start | claiming => cases h
  | cancelRead | processing | sending =>
    simp only [advance]
    split <;> rfl
  | _ => rfl

theorem advance_cancelled (strategy : JobErrorStrategy) (capacity : Nat) (id : Uuid)
    (reply : Reply) (p : TaskPoint) (h : s.cancelled = true) :
    (advance strategy capacity id reply s p).2.cancelled = true := by
  cases p <;> simp only [advance] <;> (repeat' split) <;> first | exact h | rfl

/-- The counters go with the results that were counted. -/
theorem advance_counters (strategy : JobErrorStrategy) (capacity : Nat) (id : Uuid)
    (reply : Reply) (p : TaskPoint) {start : Counters} (h : start.Fit s.counted s.counters) :
    start.Fit (advance strategy capacity id reply s p).2.counted
      (advance strategy capacity id reply s p).2.counters := by
  cases p with
  | counting r stop => exact h.add r
  | _ =>
    simp only [advance]
    (repeat' split) <;> exact h

/-- When the channel is empty, the accounts of all jobs make up the account of
the pool. -/
theorem accounted_of_accounts {start : Counters} {enqueued swept : List Uuid}
    (hchannel : s.channel = [])
    (hjobs : ∀ {id}, id ∈ enqueued → (s.account id).Closed id ∨
      id ∈ swept ∧ s.account id = ⟨some .cancelled, [], []⟩)
    (hstrangers : ∀ id, id ∉ enqueued → (s.account id).counted = (s.account id).sent)
    (hfit : start.Fit s.counted s.counters) :
    Accounted start s.queue enqueued swept s.received s.counters := by
  have hsent (id : Uuid) : (s.account id).sent = s.received.filter (·.jobId = id) := by
    simp [Shared.account, hchannel]
  have hbalanced (id : Uuid) : (s.account id).counted = (s.account id).sent := by
    by_cases hid : id ∈ enqueued
    · rcases hjobs hid with ⟨status, r, -, -, hclosed⟩ | ⟨-, hswept⟩
      · rw [hclosed]
      · rw [hswept]
    · exact hstrangers id hid
  refine ⟨fun id hid => ?_, fun id hid hunswept => ?_, ?_⟩
  · rcases hjobs hid with ⟨status, r, hterminal, -, hclosed⟩ | ⟨-, hswept⟩
    · exact ⟨status, congrArg Account.status hclosed, hterminal⟩
    · exact ⟨.cancelled, congrArg Account.status hswept, rfl⟩
  · rcases hjobs hid with ⟨status, r, -, -, hclosed⟩ | ⟨hswept, -⟩
    · rw [← hsent, hclosed]
      rfl
    · exact absurd hswept hunswept
  · refine hfit.of_perm (perm_of_filter_jobId fun id => ?_)
    rw [← hsent]
    exact hbalanced id

end

end Voom.JobManager
