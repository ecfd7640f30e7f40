-- SUMMARY: The files of a run in the streaming pool: a worker takes up the file of the job it runs.
import Voom.JobManager.DispatchOrder
import Voom.Process.EncoderOutcomes

/-!
# Files in the pool

The processor of the pool is the processing of a file. A worker that has found the
token running calls it, and goes on with its job when the file is done. So each
file in work has a worker, and what the files do is a run of files side by side.
-/

namespace Voom.JobManager

/-- The job whose processor a worker has called. -/
def WorkerPoint.calls? : WorkerPoint → Option Uuid
  | .running id _ .processing => some id
  | _ => none

namespace StreamState

/-- A step of a worker replaces its point. -/
theorem workers_workerStep (config : PoolConfig) (s : StreamState) (i : Nat) (reply : Reply) :
    ∃ w, (s.workerStep config i reply).workers = s.workers.set i w := by
  have hsame {w : WorkerPoint} (hi : s.workers[i]? = some w) :
      ∃ w', s.workers = s.workers.set i w' := by
    obtain ⟨hlt, rfl⟩ := List.getElem?_eq_some_iff.mp hi
    exact ⟨_, (List.set_getElem_self hlt).symm⟩
  unfold workerStep
  split
  case h_1 hnone =>
    have hle := List.getElem?_eq_none_iff.mp hnone
    exact ⟨.exited, (List.set_eq_of_length_le hle).symm⟩
  case h_3 hi =>
    split
    · exact ⟨_, rfl⟩
    · exact hsame hi
  case h_10 =>
    dsimp only
    split <;> exact ⟨_, rfl⟩
  case h_12 hi => exact hsame hi
  all_goals (repeat' split) <;> exact ⟨_, rfl⟩

/-- The other steps leave the workers alone, or wake them. -/
theorem workers_step {config : PoolConfig} {s : StreamState} {act : StreamAct}
    (hact : ∀ i reply, act ≠ .worker i reply) :
    (s.step config act).workers = s.workers ∨
      (s.step config act).workers = s.workers.map WorkerPoint.wake := by
  cases act with
  | worker i reply => exact absurd rfl (hact i reply)
  | notify => exact .inr rfl
  | produce item =>
    simp only [step]
    split <;> exact .inl rfl
  | enqueuer reply =>
    simp only [step, enqueuerStep]
    (repeat' split) <;> exact .inl rfl
  | main now =>
    simp only [step, mainStep]
    (repeat' split) <;> exact .inl rfl
  | _ => exact .inl rfl

/-- They leave a worker that has called a processor where it is. -/
theorem mem_workers_step {config : PoolConfig} {s : StreamState} {act : StreamAct}
    (hact : ∀ i reply, act ≠ .worker i reply) {w : WorkerPoint} (hw : w ∈ s.workers)
    (hcalls : w.calls? ≠ none) : w ∈ (s.step config act).workers := by
  rcases workers_step hact with hsame | hwoken
  · rwa [hsame]
  · rw [hwoken]
    refine List.mem_map.mpr ⟨w, hw, ?_⟩
    cases w with
    | waiting => exact absurd rfl hcalls
    | _ => rfl

end StreamState

end Voom.JobManager

namespace Voom.Process

open JobManager Lib

/-! ## The pool with its files -/

structure PooledState where
  pool : StreamState
  files : FilesState

inductive PooledAct where
  | pool (act : StreamAct)
  | file (i : Nat)

namespace PooledState

/-- What the processor returns for a file, once it does. -/
def returned? (files : FilesState) (i : Nat) : Option (Except String (Option Json)) :=
  match files.files[i]? with
  | some ⟨_, .done _ result⟩ => some result
  | _ => none

/-- The processor is called for a file. -/
def call (files : FilesState) (i : Nat) : FilesState :=
  match files.files[i]? with
  | some ⟨path, .queued changed rounds s⟩ =>
    files.takeUp i ⟨path, .queued changed rounds s⟩ changed rounds s
  | _ => files

/-- The pool goes on; the files have its token. -/
def goOn (s : PooledState) (pool : StreamState) : PooledState :=
  { pool, files := { s.files with cancelled := pool.shared.cancelled } }

variable (config : PoolConfig) (fileOf : Uuid → Nat)

/-- A worker goes on with its job, which is for the file `fileOf` says. -/
def workerStep (s : PooledState) (i : Nat) (reply : Reply) : PooledState :=
  match s.pool.workers[i]? with
  | some (.running id _ .recheck) =>
    let pool := s.pool.workerStep config i reply
    if s.pool.shared.cancelled then s.goOn pool else { pool, files := call s.files (fileOf id) }
  | some (.running id _ .processing) =>
    match returned? s.files (fileOf id) with
    | some processed => s.goOn (s.pool.workerStep config i { reply with processed })
    | none => s
  | _ => s.goOn (s.pool.workerStep config i reply)

/-- A file goes on by itself once it was taken up. -/
def fileStep (ctx : PhaseContext) (limiter : PlanExecutionLimiter) (s : PooledState) (i : Nat) :
    PooledState :=
  match s.files.files[i]? with
  | some task =>
    if task.point.isQueued then s
    else { s with files := s.files.stepFile ctx limiter config.workers i task }
  | none => s

def step (ctx : PhaseContext) (limiter : PlanExecutionLimiter) (s : PooledState) :
    PooledAct → PooledState
  | .pool (.worker i reply) => s.workerStep config fileOf i reply
  | .pool act => s.goOn (s.pool.step config act)
  | .file i => s.fileStep config ctx limiter i

def run (ctx : PhaseContext) (limiter : PlanExecutionLimiter) (s : PooledState)
    (acts : List PooledAct) : PooledState :=
  acts.foldl (step config fileOf ctx limiter) s

/-- Each file in work has a worker that has called the processor for it. -/
structure Staffed (s : PooledState) : Prop where
  token : s.files.cancelled = s.pool.shared.cancelled
  workers : s.pool.workers.length = config.workers
  staffed : ∀ (i : Nat) (task : FileTask), s.files.files[i]? = some task →
    task.point.isActive = true → ∃ w ∈ s.pool.workers, w.calls?.map fileOf = some i

end PooledState

/-! ## Steps -/

namespace FilesState

variable {ctx : PhaseContext} {limiter : PlanExecutionLimiter} {workers : Nat} {st : FilesState}
  {i : Nat} {task : FileTask}

/-- Only a cancellation changes the token. -/
theorem cancelled_stepFile : (st.stepFile ctx limiter workers i task).cancelled = st.cancelled := by
  have hdrop (slot : Option String) : (st.drop i slot).cancelled = st.cancelled := by
    cases slot <;> rfl
  simp only [stepFile, takeUp, ask]
  (repeat' split) <;> first | rfl | exact hdrop _

/-- A file in work after its step was in work before. -/
theorem active_of_stepFile (htask : st.files[i]? = some task)
    (hqueued : task.point.isQueued = false) {j : Nat} {task' : FileTask}
    (htask' : (st.stepFile ctx limiter workers i task).files[j]? = some task')
    (hactive : task'.point.isActive = true) :
    ∃ old, st.files[j]? = some old ∧ old.point.isActive = true := by
  cases hpoint : task.point with
  | queued =>
    rw [hpoint] at hqueued
    cases hqueued
  | done =>
    simp only [stepFile, hpoint] at htask'
    exact ⟨task', htask', hactive⟩
  | _ =>
    have hfollows : ∃ new, (st.stepFile ctx limiter workers i task).files = st.files.set i new ∧
        task.Follows ctx st.cancelled new := stepFile_follows htask id
    obtain ⟨new, hfiles, -⟩ := hfollows
    rw [hfiles] at htask'
    by_cases hij : i = j
    · subst hij
      exact ⟨task, htask, by rw [hpoint]; rfl⟩
    · rw [List.getElem?_set_ne hij] at htask'
      exact ⟨task', htask', hactive⟩

end FilesState

namespace PooledState.Staffed

variable {config : PoolConfig} {fileOf : Uuid → Nat} {ctx : PhaseContext}
  {limiter : PlanExecutionLimiter} {s : PooledState} {i : Nat} {old : WorkerPoint}

/-- A worker that has not called a processor is one more than the files in work. -/
theorem active_lt (h : Staffed config fileOf s) (hold : s.pool.workers[i]? = some old)
    (hcalls : old.calls? = none) :
    s.files.files.countP (·.point.isActive) < config.workers := by
  have hcover : s.files.files.countP (·.point.isActive) ≤
      s.pool.workers.countP (·.calls?.isSome) := by
    refine Slots.countP_le_of_cover (f := fun w => (w.calls?.map fileOf).getD 0)
      fun j task htask hactive => ?_
    obtain ⟨w, hw, hfile⟩ := h.staffed j task htask hactive
    refine ⟨w, hw, ?_, by rw [hfile]; rfl⟩
    cases hw' : w.calls? with
    | none =>
      rw [hw'] at hfile
      cases hfile
    | some id => rfl
  have hidle : s.pool.workers.countP (·.calls?.isSome) < s.pool.workers.length := by
    refine lt_of_le_of_ne List.countP_le_length fun hall => ?_
    have hsome := List.countP_eq_length.mp hall old (List.mem_of_getElem? hold)
    rw [hcalls] at hsome
    cases hsome
  exact h.workers ▸ hcover.trans_lt hidle

/-- A worker moves that no file in work has. -/
theorem workerMoves (h : Staffed config fileOf s) {reply : Reply}
    (hfree : ∀ old, s.pool.workers[i]? = some old → ∀ (j : Nat) (task : FileTask),
      s.files.files[j]? = some task → task.point.isActive = true → old.calls?.map fileOf ≠ some j) :
    Staffed config fileOf (s.goOn (s.pool.workerStep config i reply)) := by
  obtain ⟨w', hset⟩ := StreamState.workers_workerStep config s.pool i reply
  refine ⟨rfl, ?_, fun j task htask hactive => ?_⟩
  · show (s.pool.workerStep config i reply).workers.length = config.workers
    rw [hset, List.length_set, h.workers]
  · obtain ⟨w, hw, hfile⟩ := h.staffed j task htask hactive
    refine ⟨w, ?_, hfile⟩
    show w ∈ (s.pool.workerStep config i reply).workers
    rw [hset]
    cases hold : s.pool.workers[i]? with
    | none => rwa [List.set_eq_of_length_le (List.getElem?_eq_none_iff.mp hold)]
    | some old =>
      refine Slots.mem_set_of_ne hold hw ?_
      rintro rfl
      exact hfree w hold j task htask hactive hfile

/-- Another task moves. -/
theorem poolMoves (h : Staffed config fileOf s) {act : StreamAct}
    (hact : ∀ i reply, act ≠ .worker i reply) :
    Staffed config fileOf (s.goOn (s.pool.step config act)) := by
  refine ⟨rfl, ?_, fun j task htask hactive => ?_⟩
  · show (s.pool.step config act).workers.length = config.workers
    rcases StreamState.workers_step hact with hsame | hwoken
    · rw [hsame, h.workers]
    · rw [hwoken, List.length_map, h.workers]
  · obtain ⟨w, hw, hfile⟩ := h.staffed j task htask hactive
    refine ⟨w, StreamState.mem_workers_step hact hw fun hnone => ?_, hfile⟩
    rw [hnone] at hfile
    cases hfile

/-- The files have the token of the pool, so they see at most that it is cancelled. -/
theorem goOn_files (h : Staffed config fileOf s) (act : StreamAct) :
    ∃ acts, (s.goOn (s.pool.step config act)).files =
      s.files.run ctx limiter config.workers acts := by
  cases hpool : (s.pool.step config act).shared.cancelled with
  | true => exact ⟨[.cancel], by simp only [goOn, hpool]; rfl⟩
  | false =>
    have hrunning : s.files.cancelled = false := by
      rw [h.token, Bool.eq_false_iff]
      intro hstop
      rw [StreamState.cancelled_step act hstop] at hpool
      cases hpool
    exact ⟨[], by simp only [goOn, hpool, ← hrunning]; rfl⟩

/-- A worker that has found the token running takes up the file of its job. -/
theorem takesUp (h : Staffed config fileOf s) {id : Uuid} {preFailed : Nat} {reply : Reply}
    (hold : s.pool.workers[i]? = some (.running id preFailed .recheck))
    (hrunning : s.pool.shared.cancelled = false) :
    Staffed config fileOf
        { pool := s.pool.workerStep config i reply, files := call s.files (fileOf id) } ∧
      ∃ acts, call s.files (fileOf id) = s.files.run ctx limiter config.workers acts := by
  have hpool : s.pool.workerStep config i reply =
      s.pool.setWorker i (.running id preFailed .processing) := by
    simp only [StreamState.workerStep, hold, advance, hrunning]
    rfl
  have hfull := h.active_lt hold rfl
  have hmoves : Staffed config fileOf (s.goOn (s.pool.workerStep config i reply)) :=
    h.workerMoves fun old hi j task _ _ hfile => by
      obtain rfl := Option.some.inj (hold.symm.trans hi)
      cases hfile
  have hself : WorkerPoint.running id preFailed .processing ∈
      (s.pool.workerStep config i reply).workers := by
    rw [hpool]
    exact Slots.mem_set_self hold
  have hsame : Staffed config fileOf
        { pool := s.pool.workerStep config i reply, files := s.files } := by
    refine ⟨?_, hmoves.workers, hmoves.staffed⟩
    rw [hpool]
    exact h.token
  unfold call
  split
  next path changed rounds t htask =>
    refine ⟨⟨?_, hmoves.workers, fun j task' htask' hactive => ?_⟩, [.file (fileOf id)], ?_⟩
    · cases changed <;> exact hsame.token
    · by_cases hij : fileOf id = j
      · exact ⟨_, hself, congrArg some hij⟩
      · have hother : s.files.files[j]? = some task' := by
          cases changed <;>
            simpa only [FilesState.takeUp, FilesState.move, List.getElem?_set_ne hij] using htask'
        exact hmoves.staffed j task' hother hactive
    · have hfree : s.files.cancelled = false ∧
          s.files.files.countP (·.point.isActive) < config.workers :=
        ⟨h.token.trans hrunning, hfull⟩
      simp only [FilesState.run, List.foldl_cons, List.foldl_nil, FilesState.step, htask,
        FilesState.stepFile, if_pos hfree]
  next => exact ⟨hsame, [], rfl⟩

/-- A worker goes on when the file of its job is done. -/
theorem workerReturns (h : Staffed config fileOf s) {id : Uuid} {preFailed : Nat} {reply : Reply}
    (hold : s.pool.workers[i]? = some (.running id preFailed .processing))
    {processed : Except String (Option Json)}
    (hreturned : returned? s.files (fileOf id) = some processed) :
    Staffed config fileOf (s.goOn (s.pool.workerStep config i reply)) := by
  refine h.workerMoves fun old hi j task htask hactive hfile => ?_
  obtain rfl := Option.some.inj (hold.symm.trans hi)
  obtain rfl : fileOf id = j := Option.some.inj hfile
  obtain ⟨path, point⟩ := task
  cases point with
  | done => cases hactive
  | _ =>
    simp only [returned?, htask] at hreturned
    cases hreturned

theorem workerStep (h : Staffed config fileOf s) (i : Nat) (reply : Reply) :
    Staffed config fileOf (s.workerStep config fileOf i reply) ∧
      ∃ acts, (s.workerStep config fileOf i reply).files =
        s.files.run ctx limiter config.workers acts := by
  have hgoOn (reply : Reply) : ∃ acts, (s.goOn (s.pool.workerStep config i reply)).files =
      s.files.run ctx limiter config.workers acts := h.goOn_files (.worker i reply)
  unfold PooledState.workerStep
  split
  next id preFailed hold =>
    dsimp only
    split
    · refine ⟨h.workerMoves fun old hi j task _ _ hfile => ?_, hgoOn reply⟩
      obtain rfl := Option.some.inj (hold.symm.trans hi)
      cases hfile
    next hrunning => exact h.takesUp hold (Bool.eq_false_iff.mpr hrunning)
  next id preFailed hold =>
    split
    next processed hreturned => exact ⟨h.workerReturns hold hreturned, hgoOn _⟩
    next => exact ⟨h, [], rfl⟩
  next _ hprocessing =>
    refine ⟨h.workerMoves fun old hold j task _ _ hfile => ?_, hgoOn reply⟩
    cases old with
    | running id preFailed p =>
      cases p with
      | processing => exact hprocessing id preFailed hold
      | _ => cases hfile
    | _ => cases hfile

theorem fileStep (h : Staffed config fileOf s) (i : Nat) :
    Staffed config fileOf (s.fileStep config ctx limiter i) ∧
      ∃ acts, (s.fileStep config ctx limiter i).files =
        s.files.run ctx limiter config.workers acts := by
  unfold PooledState.fileStep
  split
  next task htask =>
    split
    · exact ⟨h, [], rfl⟩
    next hqueued =>
      refine ⟨⟨FilesState.cancelled_stepFile.trans h.token, h.workers,
        fun j task' htask' hactive => ?_⟩, [.file i], ?_⟩
      · obtain ⟨old, hold, hactive⟩ := FilesState.active_of_stepFile htask
          (Bool.eq_false_iff.mpr hqueued) htask' hactive
        exact h.staffed j old hold hactive
      · simp only [FilesState.run, List.foldl_cons, List.foldl_nil, FilesState.step, htask]
  next => exact ⟨h, [], rfl⟩

theorem step (h : Staffed config fileOf s) (act : PooledAct) :
    Staffed config fileOf (s.step config fileOf ctx limiter act) ∧
      ∃ acts, (s.step config fileOf ctx limiter act).files =
        s.files.run ctx limiter config.workers acts := by
  cases act with
  | file i => exact h.fileStep i
  | pool act =>
    cases act with
    | worker i reply => exact h.workerStep i reply
    | _ => exact ⟨h.poolMoves fun i reply => by rintro ⟨⟩, h.goOn_files _⟩

theorem run (h : Staffed config fileOf s) (acts : List PooledAct) :
    Staffed config fileOf (s.run config fileOf ctx limiter acts) ∧
      ∃ steps, (s.run config fileOf ctx limiter acts).files =
        s.files.run ctx limiter config.workers steps := by
  induction acts generalizing s with
  | nil => exact ⟨h, [], rfl⟩
  | cons act acts ih =>
    obtain ⟨hstep, first, hfirst⟩ :
        Staffed config fileOf (s.step config fileOf ctx limiter act) ∧ _ := h.step act
    obtain ⟨hrun, rest, hrest⟩ := ih hstep
    refine ⟨hrun, first ++ rest, hrest.trans ?_⟩
    rw [hfirst, FilesState.run, FilesState.run, ← List.foldl_append]
    rfl

end PooledState.Staffed

/-! ## Runs -/

/-- `process_stream` with the files its jobs will be for. -/
def PooledState.initial (config : PoolConfig) (limiter : PlanExecutionLimiter)
    (works : List FileWork) (queue : QueueState) (counters : Counters) (cancelled : Bool) :
    PooledState where
  pool := .initial config queue counters cancelled
  files := { FilesState.initial limiter works with cancelled }

/-- Whatever the pool does, its files do what files side by side do, so what holds of all
their runs holds in the pool: there the workers are those of the pool. -/
theorem pool_runs_files (config : PoolConfig) (fileOf : Uuid → Nat) (ctx : PhaseContext)
    (limiter : PlanExecutionLimiter) (works : List FileWork) (queue : QueueState)
    (counters : Counters) (cancelled : Bool) (acts : List PooledAct) :
    ∃ steps : List FilesAct,
      ((PooledState.initial config limiter works queue counters cancelled).run config fileOf ctx
        limiter acts).files =
          (FilesState.initial limiter works).run ctx limiter config.workers steps := by
  have hstaffed : (PooledState.initial config limiter works queue counters cancelled).Staffed
      config fileOf := by
    refine ⟨rfl, List.length_replicate, fun i task htask hactive => ?_⟩
    obtain ⟨work, -, rfl⟩ := List.mem_map.mp (List.mem_of_getElem? htask)
    cases hactive
  obtain ⟨steps, hsteps⟩ : ∃ steps, (PooledState.run config fileOf ctx limiter
      (.initial config limiter works queue counters cancelled) acts).files =
        (PooledState.initial config limiter works queue counters cancelled).files.run ctx limiter
          config.workers steps := (hstaffed.run acts).2
  cases cancelled with
  | false => exact ⟨steps, hsteps⟩
  | true => exact ⟨.cancel :: steps, hsteps⟩

end Voom.Process
