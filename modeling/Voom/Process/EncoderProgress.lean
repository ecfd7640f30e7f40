-- SUMMARY: Files that share encoders all come to their end: no deadlock, and no permit is lost.
import Voom.Lib.Fairness
import Voom.Process.EncoderSlots

/-!
# All files are processed

A file that waits for a permit waits for one that another file holds, and a file
that holds one never waits again before it gives it back. So some file can go on
until each is done or, after a cancellation, was never taken up, and each step
brings a file nearer to its end.
-/

namespace Voom.Process

open JobManager Lib LoopState

/-! ## How far a file has to go -/

namespace FilePoint

/-- The steps a file may still take. -/
def weight : FilePoint → Nat
  | .queued _ rounds _ => 9 * rounds.length + 2
  | .head rounds _ => 9 * rounds.length + 1
  | .asking .crop turn => 9 * turn.rest.length + 9
  | .parked .crop turn _ => 9 * turn.rest.length + 8
  | .cropping turn _ => 9 * turn.rest.length + 7
  | .checking turn _ => 9 * turn.rest.length + 6
  | .asking .execute turn => 9 * turn.rest.length + 5
  | .parked .execute turn _ => 9 * turn.rest.length + 4
  | .executing turn _ => 9 * turn.rest.length + 3
  | .settling turn => 9 * turn.rest.length + 2
  | .done .. => 0

theorem weight_after_le (path : Path) (rest : List PhaseRound) (x : LoopState × Flow) :
    (after path rest x).weight ≤ 9 * rest.length + 1 := by
  obtain ⟨s, flow⟩ := x
  cases flow with
  | next => exact Nat.le_refl _
  | leave | fail => exact Nat.zero_le _

theorem weight_startRound_le (ctx : PhaseContext) (path : Path) (s : LoopState) (r : PhaseRound)
    (rest : List PhaseRound) : (startRound ctx path s r rest).weight ≤ 9 * rest.length + 9 := by
  have hafter (x : LoopState × Flow) : (after path rest x).weight ≤ 9 * rest.length + 9 :=
    (weight_after_le path rest x).trans (by omega)
  unfold startRound
  split
  · exact hafter _
  · exact hafter _
  · dsimp only
    split
    · exact hafter _
    · split
      · exact hafter _
      · split
        · exact hafter _
        · split
          · exact Nat.le_refl _
          · exact Nat.le_add_right _ 3

theorem weight_go (purpose : Purpose) (turn : Turn) (slot : Option String) (resource : String) :
    (purpose.go turn slot).weight < (parked purpose turn resource).weight ∧
      (parked purpose turn resource).weight < (asking purpose turn).weight := by
  cases purpose <;> exact ⟨Nat.lt_succ_self _, Nat.lt_succ_self _⟩

end FilePoint

theorem Turn.crop_rest {turn turn' : Turn} (h : turn.crop = .ok turn') :
    turn'.rest = turn.rest := by
  unfold Turn.crop at h
  split at h
  · cases h
  · cases h
    rfl
  · cases h
    rfl

namespace FilesState

/-- The steps that may still change something. -/
def remaining (st : FilesState) : Nat :=
  (st.files.map fun task => task.point.weight).sum + if st.cancelled then 0 else 1

/-- The file came to its end: it is done, or the pool was stopped before a worker took it up. -/
def Settled (st : FilesState) (task : FileTask) : Prop :=
  task.point.isDone = true ∨ st.cancelled = true ∧ task.point.isQueued = true

/-- A file that cannot go on: there is no worker, or no permit, or nothing left to do. -/
def Blocked (workers : Nat) (st : FilesState) (i : Nat) : FilePoint → Prop
  | .queued .. => st.cancelled = true ∨ workers ≤ st.files.countP (·.point.isActive)
  | .parked _ _ resource => ¬st.holds i resource ∧ st.cancelled = false
  | .done .. => True
  | _ => False

variable {ctx : PhaseContext} {limiter : PlanExecutionLimiter} {workers : Nat} {st : FilesState}
  {i : Nat} {task : FileTask}

theorem remaining_move {desk : Desk String} {point : FilePoint}
    (htask : st.files[i]? = some task) (hlt : point.weight < task.point.weight) :
    remaining { st with desk, files := st.files.set i { task with point } } < st.remaining := by
  have hsum : ((st.files.set i { task with point }).map fun t => t.point.weight).sum +
      task.point.weight = (st.files.map fun t => t.point.weight).sum + point.weight :=
    Slots.sum_map_set_add htask
  simp only [remaining]
  omega

theorem remaining_drop {slot : Option String} {point : FilePoint}
    (htask : st.files[i]? = some task) (hlt : point.weight < task.point.weight) :
    ((st.drop i slot).move i task point).remaining < st.remaining := by
  cases slot with
  | none => exact remaining_move htask hlt
  | some resource => exact remaining_move htask hlt

theorem remaining_ask (htask : st.files[i]? = some task) {purpose : Purpose} {turn : Turn}
    (hpoint : task.point = .asking purpose turn) :
    (st.ask limiter i task purpose turn).remaining < st.remaining := by
  have hgo (slot : Option String) (resource : String) :
      (purpose.go turn slot).weight < task.point.weight := by
    rw [hpoint]
    exact (FilePoint.weight_go purpose turn slot resource).1.trans
      (FilePoint.weight_go purpose turn slot resource).2
  unfold ask
  split
  · exact remaining_move htask (hgo none "")
  · rename_i resource _
    dsimp only
    split
    · exact remaining_move htask (hgo (some resource) resource)
    · refine remaining_move htask ?_
      rw [hpoint]
      exact (FilePoint.weight_go purpose turn none resource).2

/-- A file that is not blocked comes nearer to its end. -/
theorem remaining_stepFile (htask : st.files[i]? = some task)
    (hfree : ¬Blocked workers st i task.point) :
    (st.stepFile ctx limiter workers i task).remaining < st.remaining := by
  unfold stepFile
  cases hpoint : task.point with
  | queued changed rounds s =>
    rw [hpoint] at hfree
    obtain ⟨hrunning, hworker⟩ := not_or.mp hfree
    dsimp only
    rw [if_pos ⟨Bool.eq_false_iff.mpr hrunning, Nat.lt_of_not_le hworker⟩]
    cases changed with
    | some skipped =>
      refine remaining_move htask ?_
      rw [hpoint]
      exact Nat.succ_pos _
    | none =>
      refine remaining_move htask ?_
      rw [hpoint]
      exact Nat.lt_succ_self _
  | head rounds s =>
    cases rounds with
    | nil =>
      refine remaining_move htask ?_
      rw [hpoint]
      exact Nat.succ_pos _
    | cons r rest =>
      dsimp only
      split <;> refine remaining_move htask ?_ <;> rw [hpoint]
      · exact Nat.succ_pos _
      · have hle := FilePoint.weight_startRound_le ctx task.path s r rest
        simp only [FilePoint.weight, List.length_cons] at hle ⊢
        omega
  | asking purpose turn =>
    dsimp only
    split
    · refine remaining_move htask ?_
      rw [hpoint]
      cases purpose <;> exact Nat.succ_pos _
    · exact remaining_ask htask hpoint
  | parked purpose turn resource =>
    rw [hpoint] at hfree
    have hdone : (0 : Nat) < (FilePoint.parked purpose turn resource).weight := by
      cases purpose <;> exact Nat.succ_pos _
    dsimp only
    split
    · split
      · refine remaining_drop htask ?_
        rwa [hpoint]
      · refine remaining_move htask ?_
        rw [hpoint]
        exact (FilePoint.weight_go purpose turn (some resource) resource).1
    next hwaits =>
      split
      · refine remaining_move htask ?_
        rwa [hpoint]
      next hrunning =>
        exact absurd ⟨hwaits, Bool.eq_false_iff.mpr hrunning⟩ hfree
  | cropping turn slot =>
    dsimp only
    cases hcrop : turn.crop with
    | error s =>
      refine remaining_drop htask ?_
      rw [hpoint]
      exact (FilePoint.weight_after_le ..).trans_lt (by simp only [FilePoint.weight]; omega)
    | ok turn' =>
      refine remaining_move htask ?_
      rw [hpoint]
      simp only [FilePoint.weight, Turn.crop_rest hcrop]
      omega
  | checking turn slot =>
    dsimp only
    cases turn.round.diskSpace with
    | some message =>
      refine remaining_drop htask ?_
      rw [hpoint]
      exact (FilePoint.weight_after_le ..).trans_lt (by simp only [FilePoint.weight]; omega)
    | none =>
      cases slot <;> refine remaining_move htask ?_ <;> rw [hpoint] <;>
        simp only [FilePoint.weight] <;> omega
  | executing turn slot =>
    refine remaining_drop htask ?_
    rw [hpoint]
    exact Nat.lt_succ_self _
  | settling turn =>
    refine remaining_move htask ?_
    rw [hpoint]
    exact (FilePoint.weight_after_le ..).trans_lt (Nat.lt_succ_self _)
  | done s result =>
    rw [hpoint] at hfree
    exact absurd trivial hfree

/-- A file that is blocked changes nothing. -/
theorem stepFile_of_blocked (hblocked : Blocked workers st i task.point) :
    st.stepFile ctx limiter workers i task = st := by
  unfold stepFile
  cases hpoint : task.point with
  | queued changed rounds s =>
    rw [hpoint] at hblocked
    refine if_neg fun hfree => ?_
    obtain hcancelled | hfull := hblocked
    · exact absurd hfree.1 (by simp [hcancelled])
    · exact absurd hfree.2 (Nat.not_lt.mpr hfull)
  | parked purpose turn resource =>
    rw [hpoint] at hblocked
    obtain ⟨hwaits, hrunning⟩ := hblocked
    simp only [hwaits, hrunning, if_false, Bool.false_eq_true]
  | done s result => rfl
  | _ =>
    rw [hpoint] at hblocked
    exact absurd hblocked not_false

theorem length_step (act : FilesAct) :
    (st.step ctx limiter workers act).files.length = st.files.length := by
  cases act with
  | cancel => rfl
  | file i =>
    cases htask : st.files[i]? with
    | none => simp only [step, htask]
    | some task =>
      simp only [step, htask, stepFile, takeUp, ask]
      (repeat' split) <;> simp [move, leave, drop]
      all_goals (repeat' split) <;> simp

theorem remaining_step (act : FilesAct) (hmoves : st.step ctx limiter workers act ≠ st) :
    (st.step ctx limiter workers act).remaining < st.remaining := by
  cases act with
  | cancel =>
    have hrunning : st.cancelled = false := by
      rw [Bool.eq_false_iff]
      intro hcancelled
      apply hmoves
      simp only [step, ← hcancelled]
    simp only [step, remaining, hrunning]
    simp
  | file i =>
    cases htask : st.files[i]? with
    | none =>
      simp only [step, htask] at hmoves
      exact absurd rfl hmoves
    | some task =>
      simp only [step, htask] at hmoves ⊢
      exact remaining_stepFile htask fun hblocked => hmoves (stepFile_of_blocked hblocked)

end FilesState

/-! ## Some file can go on -/

namespace FilesState.Inv

variable {ctx : PhaseContext} {limiter : PlanExecutionLimiter} {workers : Nat} {st : FilesState}

theorem exists_task (h : Inv limiter workers st) {i : Nat} {stance : Stance String}
    (hstance : st.desk.stances[i]? = some stance) :
    ∃ task, st.files[i]? = some task ∧ task.point.Stands stance := by
  obtain ⟨hlt, -⟩ := List.getElem?_eq_some_iff.mp hstance
  have htask := List.getElem?_eq_getElem (h.length ▸ hlt)
  exact ⟨_, htask, h.stands i _ stance htask hstance⟩

/-- A file that holds a permit is not blocked. -/
theorem not_blocked_of_holds (h : Inv limiter workers st) {i : Nat} {task : FileTask}
    {resource : String} (htask : st.files[i]? = some task) (hholds : st.holds i resource) :
    ¬Blocked workers st i task.point := by
  have hstands := h.stands i task _ htask hholds
  intro hblocked
  cases hpoint : task.point with
  | parked purpose turn resource' =>
    rw [hpoint] at hstands hblocked
    obtain hstands | hstands := hstands
    · cases hstands
    · cases hstands
      exact hblocked.1 hholds
  | queued | done =>
    rw [hpoint] at hstands
    cases hstands
  | _ =>
    rw [hpoint] at hblocked
    exact hblocked

/-- A file in work is not blocked, or waits for one that is not. -/
theorem exists_free_of_active (h : Inv limiter workers st)
    (hpositive : ∀ resource n, limiter.limits resource = some n → 0 < n) {i : Nat}
    {task : FileTask} (htask : st.files[i]? = some task) (hactive : task.point.isActive = true) :
    ∃ j other, st.files[j]? = some other ∧ ¬Blocked workers st j other.point := by
  by_cases hblocked : Blocked workers st i task.point
  · cases hpoint : task.point with
    | parked purpose turn resource =>
      rw [hpoint] at hblocked
      obtain ⟨stance, hself, hstands⟩ := h.exists_stance htask
      rw [hpoint] at hstands
      obtain rfl | rfl := hstands
      · obtain ⟨j, hj⟩ := h.books.holder_of_waits hself fun limit hlimit =>
          hpositive resource limit ((congrFun h.limits resource).symm.trans hlimit)
        obtain ⟨other, hother, -⟩ := h.exists_task hj
        exact ⟨j, other, hother, h.not_blocked_of_holds hother hj⟩
      · exact absurd hself hblocked.1
    | queued | done =>
      rw [hpoint] at hactive
      cases hactive
    | _ =>
      rw [hpoint] at hblocked
      exact absurd hblocked not_false
  · exact ⟨i, task, htask, hblocked⟩

/-- Until all files are at their end, one of them can go on. -/
theorem exists_free (h : Inv limiter workers st) (hworkers : 0 < workers)
    (hpositive : ∀ resource n, limiter.limits resource = some n → 0 < n)
    (hunfinished : ¬∀ task ∈ st.files, st.Settled task) :
    ∃ j other, st.files[j]? = some other ∧ ¬Blocked workers st j other.point := by
  by_cases hactive : ∃ task ∈ st.files, task.point.isActive = true
  · obtain ⟨task, hmem, hactive⟩ := hactive
    obtain ⟨i, htask⟩ := List.mem_iff_getElem?.mp hmem
    exact h.exists_free_of_active hpositive htask hactive
  · -- no file is in work, so one that is queued finds a worker
    push Not at hunfinished hactive
    obtain ⟨task, hmem, hnot⟩ := hunfinished
    obtain ⟨i, htask⟩ := List.mem_iff_getElem?.mp hmem
    have hidle := hactive task hmem
    have hzero : st.files.countP (·.point.isActive) = 0 := List.countP_eq_zero.mpr hactive
    refine ⟨i, task, htask, fun hblocked => ?_⟩
    cases hpoint : task.point with
    | queued changed rounds s =>
      rw [hpoint] at hblocked
      obtain hcancelled | hfull := hblocked
      · exact hnot (.inr ⟨hcancelled, by rw [hpoint]; rfl⟩)
      · rw [hzero] at hfull
        exact absurd hworkers (Nat.not_lt.mpr hfull)
    | done s result => exact hnot (.inl (by rw [hpoint]; rfl))
    | _ =>
      rw [hpoint] at hidle
      exact hidle rfl

/-- Files at their end hold no permits and wait for none. -/
theorem permits_back (h : Inv limiter workers st)
    (hsettled : ∀ task ∈ st.files, st.Settled task) {resource : String}
    {s : Semaphore Nat} (hs : st.desk.semaphores resource = some s) :
    s.free = s.limit ∧ s.waiting = [] := by
  have hout {i : Nat} {stance : Stance String} (hstance : st.desk.stances[i]? = some stance) :
      stance = .out := by
    obtain ⟨task, htask, hstands⟩ := h.exists_task hstance
    have hsettled := hsettled task (List.mem_of_getElem? htask)
    unfold Settled at hsettled
    cases hpoint : task.point with
    | queued | done =>
      rw [hpoint] at hstands
      exact hstands
    | _ =>
      rw [hpoint] at hsettled
      obtain hdone | ⟨-, hqueued⟩ := hsettled
      · cases hdone
      · cases hqueued
  have hb := h.books.balanced resource s hs
  constructor
  · have hpermits := hb.permits
    have hzero : st.desk.stances.countP (Stance.holding resource) = 0 := by
      rw [List.countP_eq_zero]
      intro stance hmem
      obtain ⟨i, hi⟩ := List.mem_iff_getElem?.mp hmem
      rw [hout hi]
      simp
    omega
  · rw [List.eq_nil_iff_forall_not_mem]
    intro c hc
    cases hout ((hb.queued c).mp hc)

end FilesState.Inv

/-- In every order in which each file acts again and again, all files come to their
end, with all permits back. Without a cancellation they are all done. -/
theorem files_processed (ctx : PhaseContext) (caps : CapabilityMap) {workers : Nat}
    (hworkers : 0 < workers) (works : List FileWork) {schedule : Nat → FilesAct}
    (hfair : Fair {act | ∃ i < works.length, act = .file i} schedule) :
    let limiter := PlanExecutionLimiter.ofCapabilities caps
    ∃ n, let st := trace (FilesState.step ctx limiter workers)
          (FilesState.initial limiter works) schedule n
      (∀ task ∈ st.files, st.Settled task) ∧
        ∀ resource s, st.desk.semaphores resource = some s → s.free = s.limit ∧ s.waiting = [] := by
  intro limiter
  have hprogress : Progress (FilesState.step ctx limiter workers)
      (fun st => st.Inv limiter workers ∧ st.files.length = works.length)
      (fun st => ∀ task ∈ st.files, st.Settled task)
      {act | ∃ i < works.length, act = .file i} FilesState.remaining := by
    refine ⟨fun st act h => ⟨h.1.step ctx act, (FilesState.length_step act).trans h.2⟩,
      fun st act _ => FilesState.remaining_step act, fun st h hunfinished => ?_⟩
    obtain ⟨i, task, htask, hfree⟩ := h.1.exists_free hworkers
      (fun resource n hn => PlanExecutionLimiter.limits_pos hn) hunfinished
    obtain ⟨hi, -⟩ := List.getElem?_eq_some_iff.mp htask
    refine ⟨.file i, ⟨i, h.2 ▸ hi, rfl⟩, fun hsame => ?_⟩
    have hlt : (FilesState.step ctx limiter workers st (.file i)).remaining < st.remaining := by
      simpa only [FilesState.step, htask] using FilesState.remaining_stepFile htask hfree
    rw [hsame] at hlt
    exact absurd hlt (Nat.lt_irrefl _)
  have hinitial : (FilesState.initial limiter works).Inv limiter workers ∧
      (FilesState.initial limiter works).files.length = works.length :=
    ⟨.initial limiter workers works, List.length_map ..⟩
  obtain ⟨n, hsettled⟩ := hprogress.eventually_done hinitial hfair
  exact ⟨n, hsettled, fun resource s => (hprogress.trace_inv hinitial n).1.permits_back hsettled⟩

namespace TwoFilms

/-- The token is cancelled when the first film waits for its execution. -/
def schedule (n : Nat) : FilesAct := if n = 6 then .cancel else .file (n % 2)

theorem both_processed :
    ∃ n, let st := trace (FilesState.step ⟨false, 0⟩
          (PlanExecutionLimiter.ofCapabilities (.collect [announced])) 1)
          (FilesState.initial (PlanExecutionLimiter.ofCapabilities (.collect [announced]))
            [work 1, work 2]) schedule n
      (∀ task ∈ st.files, st.Settled task) ∧
        ∀ resource s, st.desk.semaphores resource = some s → s.free = s.limit ∧ s.waiting = [] := by
  refine files_processed ⟨false, 0⟩ (.collect [announced]) (by decide) [work 1, work 2] ?_
  rintro act ⟨i, hi, rfl⟩ n
  have hi : i < 2 := hi
  refine ⟨2 * (n + 4) + i, by omega, ?_⟩
  rw [schedule, if_neg (by omega)]
  exact congrArg FilesAct.file (by omega)

end TwoFilms

end Voom.Process
