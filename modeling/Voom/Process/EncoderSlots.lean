-- SUMMARY: Files in work side by side: who waits for a hardware encoder, who holds one, and who is cancelled.
import Voom.JobManager.Limiter
import Voom.Lib.Semaphore
import Voom.Process.PhaseLoop

/-!
# Files side by side

Each file goes through the rounds of its loop on its own, as far as the pool has
a worker for it; once the token is cancelled the workers take up no file. All of
them share the token and the limiter: before a plan is executed, and before the
crop detection for it, the file waits for a permit of the plan's resource. A run
is any order of the steps of the files, with the token cancelled at any moment.
-/

namespace Voom.Process

open JobManager Lib LoopState

/-! ## The points of a file -/

/-- What a permit is waited for. -/
inductive Purpose where
  | crop
  | execute
  deriving DecidableEq

/-- A plan in its round, with the rounds behind it. -/
structure Turn where
  round : PhaseRound
  rest : List PhaseRound
  state : LoopState
  plan : Plan

/-- A slot is the resource of the permit that is held, `none` if the plan needs none. -/
inductive FilePoint where
  | queued (changed : Option Json) (rounds : List PhaseRound) (s : LoopState)
  | head (rounds : List PhaseRound) (s : LoopState)
  | asking (purpose : Purpose) (turn : Turn)
  /-- The request is in the queue, or the permit is there and not taken up yet. -/
  | parked (purpose : Purpose) (turn : Turn) (resource : String)
  | cropping (turn : Turn) (slot : Option String)
  | checking (turn : Turn) (slot : Option (Option String))
  | executing (turn : Turn) (slot : Option String)
  /-- The plan was executed, and its permit is back. -/
  | settling (turn : Turn)
  | done (s : LoopState) (result : Except String (Option Json))

namespace FilePoint

/-- No worker has taken up the file. -/
def isQueued : FilePoint → Bool
  | .queued .. => true
  | _ => false

/-- The file takes up a worker of the pool. -/
def isActive : FilePoint → Bool
  | .queued .. | .done .. => false
  | _ => true

def isDone : FilePoint → Bool
  | .done .. => true
  | _ => false

/-- The plan whose crop is detected or that is executed. -/
def encodes? : FilePoint → Option Plan
  | .cropping turn _ | .executing turn _ => some turn.plan
  | _ => none

/-- The permit that is held at a point. -/
def slot? : FilePoint → Option String
  | .cropping _ slot | .executing _ slot => slot
  | .checking _ slot => slot.join
  | _ => none

/-- The plan is classified to the resource, and its crop is detected or it is executed. -/
def uses (limiter : PlanExecutionLimiter) (resource : String) (p : FilePoint) : Bool :=
  p.encodes?.bind limiter.slotFor = some resource

end FilePoint

/-- A file with the path it is reported under. -/
structure FileTask where
  path : Path
  point : FilePoint

/-- The files, with the token and the semaphores they share. -/
structure FilesState where
  cancelled : Bool := false
  desk : Desk String
  files : List FileTask

inductive FilesAct where
  | cancel
  | file (i : Nat)
  deriving DecidableEq

/-! ## The steps -/

/-- Where a file goes after a round. -/
def FilePoint.after (path : Path) (rest : List PhaseRound) : LoopState × Flow → FilePoint
  | (s, .next) => .head rest s
  | (s, .leave) => .done s (s.finish path)
  | (s, .fail error) => .done s (.error error)

/-- A round up to where its plan needs a permit. -/
def startRound (ctx : PhaseContext) (path : Path) (s : LoopState) (r : PhaseRound)
    (rest : List PhaseRound) : FilePoint :=
  match r.evaluated with
  | .error e =>
    .after path rest (s, .fail ("evaluate dispatch failed for phase " ++ r.phaseName ++ ": " ++ e))
  | .ok none => .after path rest (s, .next)
  | .ok (some plan) =>
    let plan := { plan with scanSession := some ctx.scanSession }
    let s := { s with allPlans := s.allPlans ++ [plan], plansEvaluated := s.plansEvaluated + 1 }
    if r.savingsBelowThreshold then
      .after path rest ((s.setOutcome r.phaseName .skipped).recordPhaseStat plan.phaseName
        (.skipped "estimated savings below threshold"), .next)
    else
      let s := s.dispatchSafeguardViolations plan
      match plan.skipReason with
      | some reason =>
        .after path rest
          ((s.setOutcome r.phaseName .skipped).dispatchSkippedPlan plan reason, .next)
      | none =>
        if plan.isEmpty then .after path rest (s.setOutcome r.phaseName (.executed false), .next)
        else if planRequiresAutoCrop plan then .asking .crop ⟨r, rest, s, plan⟩
        else .checking ⟨r, rest, s, plan⟩ none

/-- `apply_auto_crop_detection` in its round: the state with the failed plan, or the turn with
the file as it is now. -/
def Turn.crop (turn : Turn) : Except LoopState Turn :=
  match turn.round.autoCrop with
  | .error error =>
    let s := turn.state.dispatchPlanFailure
      { planId := turn.plan.id, path := turn.state.currentFile.path,
        phaseName := turn.plan.phaseName, error, pluginName := some "ffmpeg-executor" }
      turn.plan.phaseName
    .error (s.setOutcome turn.round.phaseName .executionFailed).countFailed
  | .ok none => .ok turn
  | .ok (some file) =>
    .ok { turn with
      state := { turn.state with currentFile := file }, plan := { turn.plan with file } }

/-- What a permit is used for once it is there. -/
def Purpose.go (turn : Turn) (slot : Option String) : Purpose → FilePoint
  | .crop => .cropping turn slot
  | .execute => .executing turn slot

namespace FilesState

def move (st : FilesState) (i : Nat) (task : FileTask) (point : FilePoint) : FilesState :=
  { st with files := st.files.set i { task with point } }

/-- Dropping a permit. -/
def drop (st : FilesState) (i : Nat) : Option String → FilesState
  | none => st
  | some resource => { st with desk := st.desk.giveBack i resource }

/-- The loop is left because the token is cancelled. -/
def leave (st : FilesState) (i : Nat) (task : FileTask) (s : LoopState) : FilesState :=
  st.move i task (.done s (s.finish task.path))

def holds (st : FilesState) (i : Nat) (resource : String) : Prop :=
  st.desk.stances[i]? = some (Stance.holds resource)

instance (st : FilesState) (i : Nat) (resource : String) : Decidable (st.holds i resource) :=
  inferInstanceAs (Decidable (_ = _))

/-- `acquire_for_plan`, polled for the first time. -/
def ask (st : FilesState) (limiter : PlanExecutionLimiter) (i : Nat) (task : FileTask)
    (purpose : Purpose) (turn : Turn) : FilesState :=
  match limiter.slotFor turn.plan with
  | none => st.move i task (purpose.go turn none)
  | some resource =>
    let st := { st with desk := st.desk.ask i resource }
    if st.holds i resource then st.move i task (purpose.go turn (some resource))
    else st.move i task (.parked purpose turn resource)

/-- A worker takes up a file: `process_single_file_execute` up to its loop. -/
def takeUp (st : FilesState) (i : Nat) (task : FileTask) (changed : Option Json)
    (rounds : List PhaseRound) (s : LoopState) : FilesState :=
  match changed with
  | some skipped => st.move i task (.done s (.ok (some skipped)))
  | none => st.move i task (.head rounds s)

def stepFile (ctx : PhaseContext) (limiter : PlanExecutionLimiter) (workers : Nat)
    (st : FilesState) (i : Nat) (task : FileTask) : FilesState :=
  match task.point with
  | .queued changed rounds s =>
    -- A worker looks at the token before it takes a job and once more before it runs it.
    if st.cancelled = false ∧ st.files.countP (·.point.isActive) < workers then
      st.takeUp i task changed rounds s
    else st
  | .head [] s => st.move i task (.done s (s.finish task.path))
  | .head (r :: rest) s =>
    if st.cancelled then st.leave i task s
    else st.move i task (startRound ctx task.path s r rest)
  | .asking purpose turn =>
    if st.cancelled then st.leave i task turn.state else st.ask limiter i task purpose turn
  | .parked purpose turn resource =>
    -- The token is polled before the permit.
    if st.holds i resource then
      if st.cancelled then (st.drop i (some resource)).leave i task turn.state
      else st.move i task (purpose.go turn (some resource))
    else if st.cancelled then
      { st with desk := st.desk.leave i resource }.leave i task turn.state
    else st
  | .cropping turn slot =>
    match turn.crop with
    | .error s => (st.drop i slot).move i task (.after task.path turn.rest (s, .next))
    | .ok turn => st.move i task (.checking turn (some slot))
  | .checking turn slot =>
    match turn.round.diskSpace with
    | some message =>
      (st.drop i slot.join).move i task (.after task.path turn.rest
        (turn.state.safeguardFailed turn.plan turn.round.phaseName message))
    | none =>
      match slot with
      | some slot => st.move i task (.executing turn slot)
      | none => st.move i task (.asking .execute turn)
  | .executing turn slot => (st.drop i slot).move i task (.settling turn)
  | .settling turn =>
    st.move i task (.after task.path turn.rest (executePlan ctx turn.round turn.state turn.plan))
  | .done .. => st

def step (ctx : PhaseContext) (limiter : PlanExecutionLimiter) (workers : Nat) (st : FilesState) :
    FilesAct → FilesState
  | .cancel => { st with cancelled := true }
  | .file i =>
    match st.files[i]? with
    | none => st
    | some task => st.stepFile ctx limiter workers i task

def run (ctx : PhaseContext) (limiter : PlanExecutionLimiter) (workers : Nat) (st : FilesState)
    (acts : List FilesAct) : FilesState :=
  acts.foldl (step ctx limiter workers) st

end FilesState

/-- What a file is processed with: the answer to `check_file_hash`, and its rounds. -/
structure FileWork where
  file : MediaFile
  changed : Option Json
  rounds : List PhaseRound

def FileWork.task (work : FileWork) : FileTask where
  path := work.file.path
  point := .queued work.changed work.rounds { currentFile := work.file }

/-- All files are queued, and all permits are free. -/
def FilesState.initial (limiter : PlanExecutionLimiter) (works : List FileWork) : FilesState where
  desk := { semaphores := fun resource => (limiter.limits resource).map Semaphore.new
            stances := works.map fun _ => .out }
  files := works.map FileWork.task

/-! ## Files and their permits -/

/-- The stance of a file that does not wait. -/
def slotStance : Option String → Stance String
  | none => .out
  | some resource => .holds resource

theorem slotStance_ne_waits (slot : Option String) (resource : String) :
    Stance.waits resource ≠ slotStance slot := by
  cases slot <;> simp [slotStance]

namespace FilePoint

/-- The stance of a file at the semaphores. -/
def Stands : FilePoint → Stance String → Prop
  | .parked _ _ resource, stance => stance = .waits resource ∨ stance = .holds resource
  | p, stance => stance = slotStance p.slot?

/-- What a file holds or waits for is what its plan is classified to. -/
def Classified (limiter : PlanExecutionLimiter) : FilePoint → Prop
  | .parked _ turn resource => limiter.slotFor turn.plan = some resource
  | .cropping turn slot | .executing turn slot | .checking turn (some slot) =>
    limiter.slotFor turn.plan = slot
  | _ => True

/-- A permit is granted to a file that is parked. -/
theorem Stands.granted {p : FilePoint} {resource : String} (h : p.Stands (.waits resource)) :
    p.Stands (.holds resource) := by
  cases p with
  | parked purpose turn resource' =>
    obtain h | h := h
    · cases h
      exact .inr rfl
    · cases h
  | _ => exact absurd h (slotStance_ne_waits _ _)

theorem after_stands (path : Path) (rest : List PhaseRound) (x : LoopState × Flow) :
    (after path rest x).Stands .out := by
  obtain ⟨s, flow⟩ := x
  cases flow <;> rfl

theorem after_classified (limiter : PlanExecutionLimiter) (path : Path) (rest : List PhaseRound)
    (x : LoopState × Flow) : (after path rest x).Classified limiter := by
  obtain ⟨s, flow⟩ := x
  cases flow <;> trivial

end FilePoint

theorem startRound_point (ctx : PhaseContext) (limiter : PlanExecutionLimiter) (path : Path)
    (s : LoopState) (r : PhaseRound) (rest : List PhaseRound) :
    (startRound ctx path s r rest).Stands .out ∧
      (startRound ctx path s r rest).Classified limiter := by
  unfold startRound
  split
  · exact ⟨FilePoint.after_stands .., FilePoint.after_classified ..⟩
  · exact ⟨FilePoint.after_stands .., FilePoint.after_classified ..⟩
  · dsimp only
    split
    · exact ⟨FilePoint.after_stands .., FilePoint.after_classified ..⟩
    · split
      · exact ⟨FilePoint.after_stands .., FilePoint.after_classified ..⟩
      · split
        · exact ⟨FilePoint.after_stands .., FilePoint.after_classified ..⟩
        · split <;> exact ⟨rfl, trivial⟩

/-- Crop detection changes the file of a plan, not what it is classified to. -/
theorem Turn.crop_slotFor {limiter : PlanExecutionLimiter} {turn turn' : Turn}
    (h : turn.crop = .ok turn') : limiter.slotFor turn'.plan = limiter.slotFor turn.plan := by
  unfold Turn.crop at h
  split at h
  · cases h
  · cases h
    rfl
  · cases h
    rfl

theorem Purpose.go_point {limiter : PlanExecutionLimiter} {turn : Turn} {slot : Option String}
    (h : limiter.slotFor turn.plan = slot) (purpose : Purpose) :
    (purpose.go turn slot).Classified limiter ∧
      (purpose.go turn slot).Stands (slotStance slot) := by
  cases purpose <;> exact ⟨h, rfl⟩

/-! ## The invariant -/

structure FilesState.Inv (limiter : PlanExecutionLimiter) (workers : Nat) (st : FilesState) :
    Prop where
  books : st.desk.Books
  limits : st.desk.limits = limiter.limits
  length : st.desk.stances.length = st.files.length
  stands : ∀ (i : Nat) (task : FileTask) (stance : Stance String), st.files[i]? = some task →
    st.desk.stances[i]? = some stance → task.point.Stands stance
  classified : ∀ task ∈ st.files, task.point.Classified limiter
  active : st.files.countP (·.point.isActive) ≤ workers

namespace FilesState.Inv

variable {ctx : PhaseContext} {limiter : PlanExecutionLimiter} {workers : Nat} {st : FilesState}
  {i : Nat} {task : FileTask} {point : FilePoint}

theorem initial (limiter : PlanExecutionLimiter) (workers : Nat) (works : List FileWork) :
    Inv limiter workers (.initial limiter works) := by
  have hstances {i : Nat} {stance : Stance String}
      (h : (FilesState.initial limiter works).desk.stances[i]? = some stance) : stance = .out := by
    simp only [FilesState.initial, List.getElem?_map, Option.map_eq_some_iff] at h
    obtain ⟨-, -, rfl⟩ := h
    rfl
  have hfiles {task : FileTask} (h : task ∈ (FilesState.initial limiter works).files) :
      ∃ work : FileWork, work.task = task := by
    obtain ⟨work, -, hwork⟩ := List.mem_map.mp h
    exact ⟨work, hwork⟩
  refine ⟨⟨fun resource s hs => ?_, fun stance hstance resource h => ?_⟩, ?_, ?_, ?_, ?_, ?_⟩
  · obtain ⟨limit, -, rfl⟩ := Option.map_eq_some_iff.mp hs
    refine ⟨?_, fun hne => absurd rfl hne, .nil, fun c => ⟨fun hc => ?_, fun hc => ?_⟩⟩
    · have hzero : (FilesState.initial limiter works).desk.stances.countP
          (Stance.holding resource) = 0 := by
        rw [List.countP_eq_zero]
        intro stance hstance
        obtain ⟨i, hi⟩ := List.mem_iff_getElem?.mp hstance
        rw [hstances hi]
        simp
      rw [hzero]
      exact Nat.zero_add _
    · cases hc
    · cases hstances hc
  · obtain ⟨i, hi⟩ := List.mem_iff_getElem?.mp hstance
    rw [hstances hi] at h
    cases h
  · funext resource
    simp only [Desk.limits, FilesState.initial, Option.map_map]
    cases limiter.limits resource <;> rfl
  · simp [FilesState.initial]
  · intro i task stance htask hstance
    obtain ⟨work, rfl⟩ := hfiles (List.mem_of_getElem? htask)
    exact hstances hstance
  · intro task htask
    obtain ⟨work, rfl⟩ := hfiles htask
    trivial
  · have hzero : (FilesState.initial limiter works).files.countP (·.point.isActive) = 0 := by
      rw [List.countP_eq_zero]
      intro task htask
      obtain ⟨work, rfl⟩ := hfiles htask
      exact Bool.false_ne_true
    omega

theorem exists_stance (h : Inv limiter workers st) (htask : st.files[i]? = some task) :
    ∃ stance, st.desk.stances[i]? = some stance ∧ task.point.Stands stance := by
  obtain ⟨hlt, -⟩ := List.getElem?_eq_some_iff.mp htask
  have hstance := List.getElem?_eq_getElem (h.length ▸ hlt)
  exact ⟨_, hstance, h.stands i task _ htask hstance⟩

/-- A file goes to another point, with what that means for the semaphores. -/
theorem moved (h : Inv limiter workers st) (htask : st.files[i]? = some task)
    {desk : Desk String} (hbooks : desk.Books) (hlimits : desk.limits = st.desk.limits)
    (hlength : desk.stances.length = st.desk.stances.length)
    (hothers : st.desk.OthersKeep desk i) {stance : Stance String}
    (hself : desk.stances[i]? = some stance) (hstands : point.Stands stance)
    (hclassified : point.Classified limiter)
    (hactive : point.isActive = true →
      task.point.isActive = true ∨ st.files.countP (·.point.isActive) < workers) :
    Inv limiter workers { st with desk, files := st.files.set i { task with point } } := by
  refine ⟨hbooks, hlimits.trans h.limits, ?_, fun j task' stance' htask' hstance' => ?_,
    fun task' htask' => ?_, ?_⟩
  · rw [List.length_set, hlength, h.length]
  · by_cases hij : i = j
    · subst hij
      obtain ⟨hlt, -⟩ := List.getElem?_eq_some_iff.mp htask
      rw [List.getElem?_set_self hlt] at htask'
      obtain rfl := Option.some.inj htask'
      rw [hself] at hstance'
      obtain rfl := Option.some.inj hstance'
      exact hstands
    · rw [List.getElem?_set_ne hij] at htask'
      obtain hsame | ⟨r, hwaits, hholds⟩ := hothers j (Ne.symm hij)
      · exact h.stands j task' stance' htask' (hsame ▸ hstance')
      · rw [hholds] at hstance'
        obtain rfl := Option.some.inj hstance'
        exact (h.stands j task' _ htask' hwaits).granted
  · obtain hmem | rfl := List.mem_or_eq_of_mem_set htask'
    · exact h.classified task' hmem
    · exact hclassified
  · have hactives := h.active
    have hcount : (st.files.set i { task with point }).countP (·.point.isActive) +
        (if task.point.isActive then 1 else 0) =
          st.files.countP (·.point.isActive) + (if point.isActive then 1 else 0) :=
      Slots.countP_set_add htask
    show (st.files.set i { task with point }).countP (·.point.isActive) ≤ workers
    by_cases hpoint : point.isActive = true
    · obtain hold | hlt := hactive hpoint
      · simp only [hold, hpoint, if_true] at hcount
        omega
      · simp only [hpoint, if_true] at hcount
        omega
    · simp only [hpoint, Bool.false_eq_true, if_false] at hcount
      omega

theorem move (h : Inv limiter workers st) (htask : st.files[i]? = some task)
    {stance : Stance String} (hself : st.desk.stances[i]? = some stance)
    (hstands : point.Stands stance) (hclassified : point.Classified limiter)
    (hactive : point.isActive = true →
      task.point.isActive = true ∨ st.files.countP (·.point.isActive) < workers) :
    Inv limiter workers (st.move i task point) :=
  h.moved htask h.books rfl rfl (fun _ _ => .inl rfl) hself hstands hclassified hactive

/-- A file drops its permit. -/
theorem dropped (h : Inv limiter workers st) (htask : st.files[i]? = some task)
    {slot : Option String} (hself : st.desk.stances[i]? = some (slotStance slot))
    (hstands : point.Stands .out) (hclassified : point.Classified limiter)
    (hactive : task.point.isActive = true) :
    Inv limiter workers ((st.drop i slot).move i task point) := by
  cases slot with
  | none => exact h.move htask hself hstands hclassified fun _ => .inl hactive
  | some resource =>
    obtain ⟨hout, hothers, hlength⟩ := Desk.giveBack_self h.books hself
    exact h.moved htask (Desk.giveBack_books h.books hself) Desk.limits_giveBack hlength hothers
      hout hstands hclassified fun _ => .inl hactive

/-- A file asks for the permit of its plan. -/
theorem asked (h : Inv limiter workers st) (htask : st.files[i]? = some task)
    (hself : st.desk.stances[i]? = some .out) (hactive : task.point.isActive = true)
    (purpose : Purpose) (turn : Turn) :
    Inv limiter workers (st.ask limiter i task purpose turn) := by
  unfold FilesState.ask
  cases hslot : limiter.slotFor turn.plan with
  | none =>
    obtain ⟨hclassified, hstands⟩ := Purpose.go_point hslot purpose
    exact h.move htask hself hstands hclassified fun _ => .inl hactive
  | some resource =>
    obtain ⟨hasked, hothers, hlength⟩ := Desk.ask_self hself resource
    have hbooks := Desk.ask_books h.books hself resource
    dsimp only
    by_cases hholds : { st with desk := st.desk.ask i resource }.holds i resource
    · rw [if_pos hholds]
      obtain ⟨hclassified, hstands⟩ := Purpose.go_point hslot purpose
      exact h.moved htask hbooks Desk.limits_ask hlength hothers hholds hstands hclassified
        fun _ => .inl hactive
    · rw [if_neg hholds]
      obtain hwaits | hholds' | hnone := hasked
      · exact h.moved htask hbooks Desk.limits_ask hlength hothers hwaits (.inl rfl) hslot
          fun _ => .inl hactive
      · exact absurd hholds' hholds
      · -- a resource that is classified to has a semaphore
        have hlimit := congrFun h.limits resource
        rw [Desk.limits, hnone, Option.map_none] at hlimit
        have hsome := (Option.filter_eq_some_iff.mp hslot).2
        rw [← hlimit] at hsome
        cases hsome

theorem step (h : Inv limiter workers st) (ctx : PhaseContext) (act : FilesAct) :
    Inv limiter workers (st.step ctx limiter workers act) := by
  cases act with
  | cancel => exact ⟨h.books, h.limits, h.length, h.stands, h.classified, h.active⟩
  | file i =>
    cases htask : st.files[i]? with
    | none => simpa only [FilesState.step, htask] using h
    | some task =>
      obtain ⟨stance, hself, hstands⟩ := h.exists_stance htask
      have hclassified := h.classified task (List.mem_of_getElem? htask)
      simp only [FilesState.step, htask, FilesState.stepFile]
      cases hpoint : task.point with
      | queued changed rounds s =>
        rw [hpoint] at hstands
        dsimp only
        split
        next hfree =>
          cases changed with
          | some skipped => exact h.move htask hself hstands trivial fun _ => .inr hfree.2
          | none => exact h.move htask hself hstands trivial fun _ => .inr hfree.2
        next => exact h
      | head rounds s =>
        rw [hpoint] at hstands
        have hactive : task.point.isActive = true := by rw [hpoint]; rfl
        cases rounds with
        | nil => exact h.move htask hself hstands trivial fun _ => .inl hactive
        | cons r rest =>
          dsimp only
          split
          · exact h.move htask hself hstands trivial fun _ => .inl hactive
          · obtain ⟨hstart, hclass⟩ := startRound_point ctx limiter task.path s r rest
            obtain rfl := hstands
            exact h.move htask hself hstart hclass fun _ => .inl hactive
      | asking purpose turn =>
        rw [hpoint] at hstands
        have hactive : task.point.isActive = true := by rw [hpoint]; rfl
        dsimp only
        split
        · exact h.move htask hself hstands trivial fun _ => .inl hactive
        · obtain rfl := hstands
          exact h.asked htask hself hactive purpose turn
      | parked purpose turn resource =>
        rw [hpoint] at hstands hclassified
        have hactive : task.point.isActive = true := by rw [hpoint]; rfl
        dsimp only
        by_cases hholds : st.holds i resource
        · rw [if_pos hholds]
          split
          · have hself : st.desk.stances[i]? = some (slotStance (some resource)) := hholds
            exact h.dropped htask hself rfl trivial hactive
          · obtain ⟨hclass, hstands⟩ := Purpose.go_point hclassified purpose
            exact h.move htask hholds hstands hclass fun _ => .inl hactive
        · rw [if_neg hholds]
          split
          · have hwaits : st.desk.stances[i]? = some (.waits resource) := by
              obtain rfl | rfl := hstands
              · exact hself
              · exact absurd hself hholds
            obtain ⟨hout, hothers, hlength⟩ := Desk.leave_self h.books hwaits
            exact h.moved htask (Desk.leave_books h.books hwaits) Desk.limits_leave hlength
              hothers hout rfl trivial fun _ => .inl hactive
          · exact h
      | cropping turn slot =>
        rw [hpoint] at hstands hclassified
        have hactive : task.point.isActive = true := by rw [hpoint]; rfl
        obtain rfl := hstands
        dsimp only
        cases hcrop : turn.crop with
        | error s => exact h.dropped htask hself rfl trivial hactive
        | ok turn' =>
          exact h.move htask hself rfl ((Turn.crop_slotFor hcrop).trans hclassified)
            fun _ => .inl hactive
      | checking turn slot =>
        rw [hpoint] at hstands hclassified
        have hactive : task.point.isActive = true := by rw [hpoint]; rfl
        obtain rfl := hstands
        dsimp only
        cases turn.round.diskSpace with
        | some message =>
          exact h.dropped htask hself (FilePoint.after_stands ..)
            (FilePoint.after_classified ..) hactive
        | none =>
          cases slot with
          | none => exact h.move htask hself rfl trivial fun _ => .inl hactive
          | some slot => exact h.move htask hself rfl hclassified fun _ => .inl hactive
      | executing turn slot =>
        rw [hpoint] at hstands
        have hactive : task.point.isActive = true := by rw [hpoint]; rfl
        obtain rfl := hstands
        exact h.dropped htask hself rfl trivial hactive
      | settling turn =>
        rw [hpoint] at hstands
        have hactive : task.point.isActive = true := by rw [hpoint]; rfl
        obtain rfl := hstands
        exact h.move htask hself (FilePoint.after_stands ..) (FilePoint.after_classified ..)
          fun _ => .inl hactive
      | done s result => exact h

theorem run (h : Inv limiter workers st) (ctx : PhaseContext) (acts : List FilesAct) :
    Inv limiter workers (st.run ctx limiter workers acts) := by
  induction acts generalizing st with
  | nil => exact h
  | cons act acts ih => exact ih (h.step ctx act)

/-- A plan that uses an encoder holds a permit of it. -/
theorem uses_le (h : Inv limiter workers st) (resource : String) :
    st.files.countP (fun task => task.point.uses limiter resource) ≤
      st.desk.stances.countP (Stance.holding resource) := by
  refine Slots.countP_le_of_getElem? h.length.symm fun i task stance htask hstance huses => ?_
  have hstands := h.stands i task stance htask hstance
  have hclassified := h.classified task (List.mem_of_getElem? htask)
  have huses := of_decide_eq_true huses
  cases hpoint : task.point with
  | cropping turn slot | executing turn slot =>
    rw [hpoint] at hstands hclassified huses
    obtain rfl : slot = some resource := hclassified.symm.trans huses
    obtain rfl := hstands
    exact decide_eq_true rfl
  | _ =>
    rw [hpoint] at huses
    cases huses

/-- A file waits only while all permits are out. -/
theorem busy_of_parked (h : Inv limiter workers st) {purpose : Purpose} {turn : Turn}
    {resource : String} (htask : st.files[i]? = some task)
    (hpoint : task.point = .parked purpose turn resource) (hwaits : ¬st.holds i resource) :
    limiter.limits resource = some (st.desk.stances.countP (Stance.holding resource)) := by
  obtain ⟨stance, hself, hstands⟩ := h.exists_stance htask
  rw [hpoint] at hstands
  obtain rfl | rfl := hstands
  · obtain ⟨s, hs⟩ := Option.isSome_iff_exists.mp
      (h.books.known _ (List.mem_of_getElem? hself) resource rfl)
    have hb := h.books.balanced resource s hs
    have hfree := hb.busy (List.ne_nil_of_mem ((hb.queued i).mpr hself))
    have hpermits := hb.permits
    rw [← h.limits, Desk.limits, hs, Option.map_some]
    congr 1
    omega
  · exact absurd hself hwaits

end FilesState.Inv

/-! ## The limits that executors announce -/

/-- Never do more plans use an encoder than the latest announcement of an executor
allows, and nobody waits while a permit is free. -/
theorem encoders_within_limits (ctx : PhaseContext) (workers : Nat) (works : List FileWork)
    (acts : List FilesAct) {front behind : List Wit.ExecutorCapabilitiesEvent}
    {event : Wit.ExecutorCapabilitiesEvent}
    (hlatest : ∀ later ∈ behind, later.pluginName ≠ event.pluginName)
    {limit : Wit.ExecutorParallelLimit} (hlimit : limit ∈ event.parallelLimits)
    (hhw : limit.resource ∈ PlanExecutionLimiter.hwResources) (hpos : 0 < limit.maxParallel) :
    let limiter := PlanExecutionLimiter.ofCapabilities (.collect (front ++ event :: behind))
    let st := (FilesState.initial limiter works).run ctx limiter workers acts
    st.files.countP (fun task => task.point.uses limiter limit.resource) ≤ limit.maxParallel ∧
      st.files.countP (·.point.isActive) ≤ workers ∧
      ∀ (i : Nat) (task : FileTask) (purpose : Purpose) (turn : Turn) (resource : String),
        st.files[i]? = some task → task.point = .parked purpose turn resource →
          ¬st.holds i resource →
            limiter.limits resource = some (st.desk.stances.countP (Stance.holding resource)) := by
  intro limiter st
  have hinv : st.Inv limiter workers := (FilesState.Inv.initial limiter workers works).run ctx acts
  refine ⟨?_, hinv.active, fun i task purpose turn resource => hinv.busy_of_parked⟩
  obtain ⟨n, hn, hle⟩ := PlanExecutionLimiter.limits_le
    (CapabilityMap.mem_collect hlatest) hlimit hpos hhw
  have hholders := hinv.books.holders_le ((congrFun hinv.limits limit.resource).trans hn)
  exact (hinv.uses_le limit.resource).trans (hholders.trans hle)

/-! ### Two films and one encoder -/

namespace TwoFilms

def announced : Wit.ExecutorCapabilitiesEvent where
  pluginName := "ffmpeg-executor"
  codecs := ⟨[], [], [], ["hevc_nvenc"]⟩
  formats := []
  hwAccels := ["cuda"]
  parallelLimits := [⟨"hw:nvenc", 1⟩]

def film (id : Uuid) : MediaFile := { id, path := ⟨["media", "film.mkv"]⟩ }

theorem transcode_checked : validateActionParams .transcodeVideo (.transcode "hevc" {}) = true := rfl

/-- A plan that names no encoder and gets the default. -/
def plan (id : Uuid) : Plan where
  id := id
  file := film id
  policyName := "p"
  phaseName := "video"
  actions := [⟨.transcodeVideo, some 0, .transcode "hevc" {}, "Transcode", transcode_checked⟩]

def work (id : Uuid) : FileWork where
  file := film id
  changed := none
  rounds := [{
    phaseName := "video"
    evaluated := .ok (some (plan id))
    evaluated_phase := by
      intro plan h
      cases h
      rfl
    newFile := film id }]

/-- Each file goes on to its execution as far as it can. -/
def acts : List FilesAct :=
  [.file 0, .file 0, .file 0, .file 0, .file 1, .file 1, .file 1, .file 1, .file 1]

theorem one_at_a_time :
    let limiter := PlanExecutionLimiter.ofCapabilities (.collect ([] ++ [announced]))
    let st := (FilesState.initial limiter [work 1, work 2]).run ⟨false, 0⟩ limiter 2 acts
    st.files.countP (fun task => task.point.uses limiter "hw:nvenc") = 1 ∧
      st.files.countP (·.point.isActive) = 2 ∧
      st.files.countP (fun task => task.point.uses limiter "hw:nvenc") ≤ 1 := by
  intro limiter st
  have hlimits := @encoders_within_limits ⟨false, 0⟩ 2 [work 1, work 2] acts [] [] announced
    (by simp) ⟨"hw:nvenc", 1⟩ List.mem_cons_self (by decide) (by decide)
  exact ⟨by decide, by decide, hlimits.1⟩

end TwoFilms

end Voom.Process
