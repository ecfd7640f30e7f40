-- SUMMARY: The job table and the queue calls on it, and when terminal states are final.
import Voom.Domain.Media
import Voom.Lib.Run
import Voom.Lib.Table

/-!
# The job queue

Workers and users share one table of jobs. Claims look at the status of the row
they change; completion and failure do not, and a cancellation looks at it in
one call and writes it in another. A run is any sequence of these calls by any
number of callers. Terminal states are final, and nothing unfinished is
deleted, exactly in the runs whose unguarded writes happen to meet a job that is
not yet settled.
-/

namespace Voom.JobManager

open Voom.Lib

/-! ## Jobs -/

inductive JobStatus where
  | pending | running | completed | failed | cancelled
  deriving DecidableEq, Repr, Inhabited

def JobStatus.isTerminal : JobStatus → Bool
  | .completed | .failed | .cancelled => true
  | .pending | .running => false

/-- A row of `jobs`, with its times as the texts they are stored as. -/
structure Job where
  id : Uuid
  status : JobStatus := .pending
  priority : Int := 100
  progress : F64 := .finite 0
  progressMessage : Option String := none
  output : Option Json := none
  error : Option String := none
  workerId : Option String := none
  createdAt : String
  startedAt : Option String := none
  completedAt : Option String := none

/-- `JobUpdate`: the columns to set. -/
structure JobUpdate where
  status : Option JobStatus := none
  progress : Option F64 := none
  progressMessage : Option (Option String) := none
  output : Option (Option Json) := none
  error : Option (Option String) := none
  workerId : Option (Option String) := none
  startedAt : Option (Option String) := none
  completedAt : Option (Option String) := none

def JobUpdate.apply (u : JobUpdate) (job : Job) : Job :=
  { job with
    status := u.status.getD job.status
    progress := u.progress.getD job.progress
    progressMessage := u.progressMessage.getD job.progressMessage
    output := u.output.getD job.output
    error := u.error.getD job.error
    workerId := u.workerId.getD job.workerId
    startedAt := u.startedAt.getD job.startedAt
    completedAt := u.completedAt.getD job.completedAt }

@[simp] theorem JobUpdate.apply_id (u : JobUpdate) (job : Job) : (u.apply job).id = job.id := rfl

@[simp] theorem JobUpdate.apply_status (u : JobUpdate) (job : Job) :
    (u.apply job).status = u.status.getD job.status := rfl

/-! ## Storage -/

/-- `UPDATE jobs SET .. WHERE id = ?` -/
def updateJob (id : Uuid) (u : JobUpdate) (jobs : List Job) : List Job :=
  Table.modify Job.id id u.apply jobs

/-- `ORDER BY priority ASC, created_at ASC` -/
def Job.le (a b : Job) : Bool :=
  a.priority < b.priority || a.priority = b.priority && a.createdAt ≤ b.createdAt

theorem Job.le_iff {a b : Job} : a.le b = true ↔
    a.priority < b.priority ∨ a.priority = b.priority ∧ a.createdAt ≤ b.createdAt := by
  simp [Job.le]

theorem Job.le_trans {a b c : Job} (hab : a.le b = true) (hbc : b.le c = true) :
    a.le c = true := by
  rw [le_iff] at hab hbc ⊢
  rcases hab with hab | ⟨hab, hab'⟩ <;> rcases hbc with hbc | ⟨hbc, hbc'⟩
  · exact .inl (hab.trans hbc)
  · exact .inl (hbc ▸ hab)
  · exact .inl (hab ▸ hbc)
  · exact .inr ⟨hab.trans hbc, String.le_trans hab' hbc'⟩

theorem Job.le_total (a b : Job) : (a.le b || b.le a) = true := by
  rw [Bool.or_eq_true, le_iff, le_iff]
  rcases lt_trichotomy a.priority b.priority with h | h | h
  · exact .inl (.inl h)
  · rcases String.le_total a.createdAt b.createdAt with ht | ht
    · exact .inl (.inr ⟨h, ht⟩)
    · exact .inr (.inr ⟨h.symm, ht⟩)
  · exact .inr (.inl h)

/-- The update of a claim. -/
def claimUpdate (worker now : String) : JobUpdate :=
  { status := some .running, workerId := some (some worker), startedAt := some (some now) }

/-- `claim_next_job`: the job that is claimed, and the table after it. -/
def claimNextJob (worker now : String) (jobs : List Job) : Option Job × List Job :=
  match ((jobs.filter (·.status = .pending)).mergeSort Job.le).head? with
  | none => (none, jobs)
  | some job =>
    (some ((claimUpdate worker now).apply job), updateJob job.id (claimUpdate worker now) jobs)

/-- `claim_job_by_id`: only a pending job is changed. -/
def claimJobById (id : Uuid) (worker now : String) (jobs : List Job) : Option Job × List Job :=
  match jobs.find? fun job => job.id = id ∧ job.status = .pending with
  | none => (none, jobs)
  | some job =>
    (some ((claimUpdate worker now).apply job), updateJob id (claimUpdate worker now) jobs)

/-- `delete_jobs`: the jobs with a status, or all that are settled. -/
def deleteJobs (status : Option JobStatus) (jobs : List Job) : List Job :=
  match status with
  | some s => jobs.filter (·.status ≠ s)
  | none => jobs.filter (!·.status.isTerminal)

structure RetentionPolicy where
  /-- The text of the oldest time that is kept. -/
  cutoff : Option String := none
  keepLast : Option Nat := none

def RetentionPolicy.isDisabled (policy : RetentionPolicy) : Bool :=
  policy.cutoff.isNone && policy.keepLast.isNone

/-- `keep_last_i64` -/
def RetentionPolicy.keepLastI64 (policy : RetentionPolicy) : Option Nat :=
  policy.keepLast.filter (· < 2 ^ 63)

/-- `COALESCE(completed_at, created_at)` -/
def Job.effectiveAt (job : Job) : String := job.completedAt.getD job.createdAt

/-- The settled jobs, the newest first. -/
def ranked (jobs : List Job) : List Job :=
  (jobs.filter (·.status.isTerminal)).mergeSort fun a b => b.effectiveAt ≤ a.effectiveAt

/-- `prune_old_jobs`: settled jobs that are too old, or too many. -/
def pruneOldJobs (policy : RetentionPolicy) (jobs : List Job) : List Job :=
  if policy.isDisabled then jobs
  else
    let doomed := (ranked jobs).zipIdx.filter fun (job, i) =>
      policy.cutoff.any (job.effectiveAt < ·) || policy.keepLastI64.any (· < i + 1)
    jobs.filter fun job => !(doomed.map (·.1.id)).contains job.id

/-! ## Calls on the queue -/

/-- The calls, with the times and identifiers they take. A cancellation is a read
and, if that finds an unsettled job, a later write of the same call. -/
inductive JobCall where
  | enqueue (id : Uuid) (priority : Int) (now : String)
  | claim (worker now : String)
  | claimById (id : Uuid) (worker now : String)
  | reportProgress (id : Uuid) (progress : F64) (message : Option String)
  | complete (id : Uuid) (output : Option Json) (now : String)
  | fail (id : Uuid) (error now : String)
  | cancelRead (call : Nat) (id : Uuid)
  | cancelWrite (call : Nat) (now : String)
  | deleteJobs (status : Option JobStatus)
  | pruneOldJobs (policy : RetentionPolicy)

/-- The table, the cancellations between their two calls, and the history: the
identifiers that were given out and the jobs that were claimed. -/
structure QueueState where
  jobs : List Job := []
  cancelling : List (Nat × Uuid) := []
  issued : List Uuid := []
  claimed : List Uuid := []

/-- `progress.clamp(0.0, 1.0)` -/
def clampProgress (x : F64) : F64 :=
  if x.lt (.finite 0) then .finite 0 else if F64.lt (.finite 1) x then .finite 1 else x

/-- The update of a call that writes to one job, if it is such a call. -/
def JobCall.update : JobCall → Option JobUpdate
  | .reportProgress _ progress message =>
    some { progress := some (clampProgress progress), progressMessage := some message }
  | .complete _ output now =>
    some {
      status := some .completed, progress := some (.finite 1), output := some output
      completedAt := some (some now) }
  | .fail _ error now =>
    some { status := some .failed, error := some (some error), completedAt := some (some now) }
  | .cancelWrite _ now => some { status := some .cancelled, completedAt := some (some now) }
  | _ => none

namespace QueueState

def enqueue (s : QueueState) (id : Uuid) (priority : Int) (now : String) : QueueState :=
  if s.jobs.any (·.id = id) then s
  else
    { s with
      jobs := s.jobs ++ [{ id, priority, createdAt := now }]
      issued := s.issued ++ [id] }

/-- The state after a claim. -/
def claimWith (s : QueueState) (result : Option Job × List Job) : QueueState :=
  match result.1 with
  | none => s
  | some job => { s with jobs := result.2, claimed := s.claimed ++ [job.id] }

/-- `update_job`, as the queue's methods call it. -/
def write (s : QueueState) (id : Uuid) (u : JobUpdate) : QueueState :=
  { s with jobs := updateJob id u s.jobs }

/-- The check of `cancel`: the job exists and is not settled. -/
def cancelRead (s : QueueState) (call : Nat) (id : Uuid) : QueueState :=
  match s.jobs.find? (·.id = id) with
  | none => s
  | some job =>
    if job.status.isTerminal then s else { s with cancelling := (call, id) :: s.cancelling }

/-- The job a cancellation goes on to write. -/
def cancelTarget (s : QueueState) (call : Nat) : Option Uuid :=
  (s.cancelling.find? (·.1 = call)).map (·.2)

def step (s : QueueState) : JobCall → QueueState
  | .enqueue id priority now => s.enqueue id priority now
  | .claim worker now => s.claimWith (claimNextJob worker now s.jobs)
  | .claimById id worker now => s.claimWith (claimJobById id worker now s.jobs)
  | c@(.reportProgress id _ _) | c@(.complete id _ _) | c@(.fail id _ _) =>
    s.write id (c.update.getD {})
  | .cancelRead call id => s.cancelRead call id
  | c@(.cancelWrite call _) =>
    match s.cancelTarget call with
    | none => s
    | some id =>
      { s.write id (c.update.getD {}) with cancelling := s.cancelling.filter (·.1 ≠ call) }
  | .deleteJobs status => { s with jobs := JobManager.deleteJobs status s.jobs }
  | .pruneOldJobs policy => { s with jobs := JobManager.pruneOldJobs policy s.jobs }

/-- The state after some calls. -/
def run (s : QueueState) (calls : List JobCall) : QueueState := calls.foldl step s

/-! ## What a call does to a job -/

/-- The job a call claims. -/
def claims (s : QueueState) : JobCall → Option Uuid
  | .claim worker now => (claimNextJob worker now s.jobs).1.map (·.id)
  | .claimById id worker now => (claimJobById id worker now s.jobs).1.map (·.id)
  | _ => none

/-- The job a call settles without looking at it, and how. -/
def settles (s : QueueState) : JobCall → Option (Uuid × JobStatus)
  | .complete id _ _ => some (id, .completed)
  | .fail id _ _ => some (id, .failed)
  | .cancelWrite call _ => (s.cancelTarget call).map (·, .cancelled)
  | _ => none

end QueueState

/-- A claim of the next job takes a pending one that comes first. -/
theorem claimNextJob_cases (worker now : String) (jobs : List Job) :
    claimNextJob worker now jobs = (none, jobs) ∨
      ∃ job ∈ jobs, job.status = .pending ∧
        (∀ other ∈ jobs, other.status = .pending → job.le other) ∧
        claimNextJob worker now jobs =
          (some ((claimUpdate worker now).apply job), updateJob job.id (claimUpdate worker now) jobs) := by
  unfold claimNextJob
  cases hhead : ((jobs.filter (·.status = .pending)).mergeSort Job.le).head? with
  | none => exact .inl rfl
  | some job =>
    have hmem : job ∈ jobs.filter (·.status = .pending) :=
      (List.mergeSort_perm _ _).mem_iff.mp (List.mem_of_mem_head? hhead)
    obtain ⟨hjob, hpending⟩ := List.mem_filter.mp hmem
    refine .inr ⟨job, hjob, of_decide_eq_true hpending, fun other hother hstatus => ?_, rfl⟩
    have hsorted : ((jobs.filter (·.status = .pending)).mergeSort Job.le).Pairwise
        fun a b => a.le b = true := by
      refine List.pairwise_mergeSort ?_ Job.le_total _
      intro a b c hab hbc
      exact Job.le_trans hab hbc
    have hin : other ∈ (jobs.filter (·.status = .pending)).mergeSort Job.le :=
      (List.mergeSort_perm _ _).mem_iff.mpr (List.mem_filter.mpr ⟨hother, decide_eq_true hstatus⟩)
    obtain ⟨rest, hrest⟩ := List.head?_eq_some_iff.mp hhead
    rw [hrest] at hsorted hin
    rcases List.mem_cons.mp hin with rfl | hin
    · simpa using Job.le_total other other
    · exact List.rel_of_pairwise_cons hsorted hin

theorem claimJobById_cases (id : Uuid) (worker now : String) (jobs : List Job) :
    claimJobById id worker now jobs = (none, jobs) ∨
      ∃ job ∈ jobs, job.status = .pending ∧ job.id = id ∧
        claimJobById id worker now jobs =
          (some ((claimUpdate worker now).apply job), updateJob job.id (claimUpdate worker now) jobs) := by
  unfold claimJobById
  split
  · exact .inl rfl
  · rename_i job hfind
    have hjob := List.find?_some hfind
    simp only [decide_eq_true_eq] at hjob
    exact .inr ⟨job, List.mem_of_find?_eq_some hfind, hjob.2, hjob.1, by rw [hjob.1]⟩

/-- Pruning takes settled jobs only. -/
theorem isTerminal_of_pruned {jobs : List Job} (hkeyed : Table.Keyed Job.id jobs)
    {policy : RetentionPolicy} {job : Job} (hjob : job ∈ jobs) (h : job ∉ pruneOldJobs policy jobs) : job.status.isTerminal = true := by
  unfold pruneOldJobs at h
  split at h
  · exact absurd hjob h
  · rw [List.mem_filter, not_and] at h
    have hdoomed := h hjob
    simp only [Bool.not_eq_true', Bool.not_eq_false, List.contains_iff_mem, List.mem_map] at hdoomed
    obtain ⟨⟨other, i⟩, hother, hid⟩ := hdoomed
    have hranked : other ∈ ranked jobs :=
      List.fst_mem_of_mem_zipIdx (List.mem_filter.mp hother).1
    obtain ⟨hmem, hterminal⟩ := List.mem_filter.mp ((List.mergeSort_perm _ _).mem_iff.mp hranked)
    rw [← hkeyed.eq_of_key hmem hjob hid]
    exact hterminal

namespace QueueState

/-- What a call can do: insert a pending job, claim one, write to one, or keep
some. -/
inductive Effect (s : QueueState) (c : JobCall) (s' : QueueState) : Prop
  | insert (id : Uuid) (priority : Int) (now : String)
      (call : c = .enqueue id priority now) (new : ∀ job ∈ s.jobs, job.id ≠ id)
      (jobs : s'.jobs = s.jobs ++ [{ id, priority, createdAt := now }])
      (issued : s'.issued = s.issued ++ [id]) (claimed : s'.claimed = s.claimed)
  | claim (job : Job) (worker now : String)
      (call : s.claims c = some job.id) (settles : s.settles c = none) (mem : job ∈ s.jobs)
      (pending : job.status = .pending)
      (jobs : s'.jobs = updateJob job.id (claimUpdate worker now) s.jobs)
      (issued : s'.issued = s.issued) (claimed : s'.claimed = s.claimed ++ [job.id])
  | write (id : Uuid) (u : JobUpdate)
      (call : s.claims c = none)
      (status : (s.settles c = none ∧ u.status = none) ∨
        ∃ status, s.settles c = some (id, status) ∧ u.status = some status)
      (jobs : s'.jobs = updateJob id u s.jobs)
      (issued : s'.issued = s.issued) (claimed : s'.claimed = s.claimed)
  | keep (call : s.claims c = none) (settles : s.settles c = none)
      (jobs : s'.jobs.Sublist s.jobs)
      (removed : ∀ job ∈ s.jobs, job ∉ s'.jobs →
        job.status.isTerminal = true ∨ c = .deleteJobs (some job.status))
      (issued : s'.issued = s.issued) (claimed : s'.claimed = s.claimed)

theorem Effect.idle {s : QueueState} {c : JobCall} {s' : QueueState} (hclaims : s.claims c = none)
    (hsettles : s.settles c = none) (hjobs : s'.jobs = s.jobs) (hissued : s'.issued = s.issued)
    (hclaimed : s'.claimed = s.claimed) : Effect s c s' := by
  refine .keep hclaims hsettles (hjobs ▸ List.Sublist.refl _) (fun job hjob hgone => ?_) hissued hclaimed
  rw [hjobs] at hgone
  exact absurd hjob hgone

/-- A claim that finds no job does nothing. -/
theorem effect_claimWith {s : QueueState} {c : JobCall} {result : Option Job × List Job}
    (worker now : String) (hclaims : s.claims c = result.1.map (·.id)) (hsettles : s.settles c = none)
    (hcases : result = (none, s.jobs) ∨ ∃ job ∈ s.jobs, job.status = .pending ∧
      result = (some ((claimUpdate worker now).apply job),
        updateJob job.id (claimUpdate worker now) s.jobs)) :
    Effect s c (s.claimWith result) := by
  rcases hcases with rfl | ⟨job, hjob, hpending, rfl⟩
  · exact .idle hclaims hsettles rfl rfl rfl
  · exact .claim job worker now hclaims hsettles hjob hpending rfl rfl rfl

theorem step_effect {s : QueueState} (hkeyed : Table.Keyed Job.id s.jobs) (c : JobCall) :
    Effect s c (s.step c) := by
  cases c with
  | enqueue id priority now =>
    change Effect s _ (s.enqueue id priority now)
    unfold enqueue
    split
    · exact .idle rfl rfl rfl rfl rfl
    · rename_i hnew
      refine .insert id priority now rfl (fun job hjob hid => hnew ?_) rfl rfl rfl
      exact List.any_eq_true.mpr ⟨job, hjob, decide_eq_true hid⟩
  | claim worker now =>
    refine effect_claimWith worker now rfl rfl ?_
    refine (claimNextJob_cases worker now s.jobs).imp_right ?_
    rintro ⟨job, hjob, hpending, -, hsome⟩
    exact ⟨job, hjob, hpending, hsome⟩
  | claimById id worker now =>
    refine effect_claimWith worker now rfl rfl ?_
    refine (claimJobById_cases id worker now s.jobs).imp_right ?_
    rintro ⟨job, hjob, hpending, -, hsome⟩
    exact ⟨job, hjob, hpending, hsome⟩
  | reportProgress id progress message => exact .write id _ rfl (.inl ⟨rfl, rfl⟩) rfl rfl rfl
  | complete id output now => exact .write id _ rfl (.inr ⟨_, rfl, rfl⟩) rfl rfl rfl
  | fail id error now => exact .write id _ rfl (.inr ⟨_, rfl, rfl⟩) rfl rfl rfl
  | cancelRead call id =>
    change Effect s _ (s.cancelRead call id)
    unfold cancelRead
    split
    · exact .idle rfl rfl rfl rfl rfl
    · split <;> exact .idle rfl rfl rfl rfl rfl
  | cancelWrite call now =>
    cases htarget : s.cancelTarget call with
    | none =>
      exact .idle rfl (by simp [settles, htarget]) (by simp [step, htarget]) (by simp [step, htarget])
        (by simp [step, htarget])
    | some id =>
      exact .write id _ rfl (.inr ⟨.cancelled, by simp [settles, htarget], rfl⟩)
        (by simp only [step, htarget]; rfl) (by simp [step, htarget, write])
        (by simp [step, htarget, write])
  | deleteJobs status =>
    refine .keep rfl rfl ?_ (fun job hjob hgone => ?_) rfl rfl
    · cases status with
      | none => exact List.filter_sublist
      | some status => exact List.filter_sublist
    · cases status with
      | none =>
        left
        by_contra hpending
        exact hgone (List.mem_filter.mpr ⟨hjob, by simpa using hpending⟩)
      | some status =>
        right
        by_contra hother
        refine hgone (List.mem_filter.mpr ⟨hjob, decide_eq_true fun hsame => hother ?_⟩)
        rw [hsame]
  | pruneOldJobs policy =>
    refine .keep rfl rfl ?_ (fun job hjob hgone => .inl (isTerminal_of_pruned hkeyed hjob hgone)) rfl rfl
    change (JobManager.pruneOldJobs policy s.jobs).Sublist s.jobs
    unfold JobManager.pruneOldJobs
    split
    · exact List.Sublist.refl _
    · exact List.filter_sublist

end QueueState

end Voom.JobManager
