-- SUMMARY: Sharing encoders changes when a file is processed, not what becomes of it.
import Voom.Process.EncoderSlots

/-!
# The outcome of a file

Whatever the other files do, a file that is done has the outcome of its own loop,
run on its own with some answers of the token. If the token was not cancelled
they are all no.
-/

namespace Voom.Process

open JobManager Lib LoopState

/-- The round with the answers of the token; they are no unless it is cancelled in the end. -/
def Polled (cancelled : Bool) (r r' : PhaseRound) : Prop :=
  ∃ atHead waiting : Bool, (atHead = true → cancelled = true) ∧ (waiting = true → cancelled = true) ∧
    r' = { r with cancelled := atHead, cancelledWaiting := waiting }

/-- The round of a run that is not cancelled. -/
def PhaseRound.running (r : PhaseRound) : PhaseRound :=
  { r with cancelled := false, cancelledWaiting := false }

theorem polled_running (cancelled : Bool) (rounds : List PhaseRound) :
    List.Forall₂ (Polled cancelled) rounds (rounds.map PhaseRound.running) := by
  induction rounds with
  | nil => exact .nil
  | cons r rounds ih =>
    exact .cons ⟨false, false, by rintro ⟨⟩, by rintro ⟨⟩, rfl⟩ ih

theorem eq_running_of_polled {rounds rounds' : List PhaseRound}
    (h : List.Forall₂ (Polled false) rounds rounds') : rounds' = rounds.map PhaseRound.running := by
  induction h with
  | nil => rfl
  | cons hpolled _ ih =>
    obtain ⟨atHead, waiting, hhead, hwaiting, rfl⟩ := hpolled
    obtain rfl : atHead = false := Bool.eq_false_iff.mpr fun h => absurd (hhead h) (by decide)
    obtain rfl : waiting = false := Bool.eq_false_iff.mpr fun h => absurd (hwaiting h) (by decide)
    rw [ih]
    rfl

section

variable (ctx : PhaseContext) (path : Path) (cancelled : Bool)

/-- What the loop may come to from its head. -/
def Loops (rounds : List PhaseRound) (s : LoopState)
    (out : LoopState × Except String (Option Json)) : Prop :=
  ∃ rounds', List.Forall₂ (Polled cancelled) rounds rounds' ∧
    phaseLoop ctx path rounds' s = out

/-- What the loop may come to after a round. -/
def Flows (rest : List PhaseRound) (x : LoopState × Flow)
    (out : LoopState × Except String (Option Json)) : Prop :=
  match x.2 with
  | .next => Loops ctx path cancelled rest x.1 out
  | .leave => (x.1, x.1.finish path) = out
  | .fail e => (x.1, .error e) = out

/-- What the loop may come to after a round that asks the token while it waits. -/
def FlowsWaiting (rest : List PhaseRound) (x : Bool → LoopState × Flow)
    (out : LoopState × Except String (Option Json)) : Prop :=
  ∃ waiting : Bool, (waiting = true → cancelled = true) ∧
    Flows ctx path cancelled rest (x waiting) out

/-- What the loop of a file may come to from each point. -/
def FilePoint.ComesTo (out : LoopState × Except String (Option Json)) : FilePoint → Prop
  | .queued (some skipped) _ s => (s, .ok (some skipped)) = out
  | .queued none rounds s | .head rounds s => Loops ctx path cancelled rounds s out
  | .asking .crop turn | .parked .crop turn _ =>
    FlowsWaiting ctx path cancelled turn.rest (fun waiting =>
      cropPlan ctx { turn.round with cancelledWaiting := waiting } turn.state turn.plan) out
  | .cropping turn _ =>
    Flows ctx path cancelled turn.rest
      (cropPlan ctx { turn.round with cancelledWaiting := false } turn.state turn.plan) out
  | .checking turn slot =>
    FlowsWaiting ctx path cancelled turn.rest (fun waiting =>
      startPlan ctx { turn.round with cancelledWaiting := waiting } turn.state turn.plan
        slot.isSome) out
  | .asking .execute turn | .parked .execute turn _ =>
    FlowsWaiting ctx path cancelled turn.rest (fun waiting =>
      if waiting then (turn.state, .leave)
      else executePlan ctx turn.round turn.state turn.plan) out
  | .executing turn _ | .settling turn =>
    Flows ctx path cancelled turn.rest (executePlan ctx turn.round turn.state turn.plan) out
  | .done s result => (s, result) = out

end

section

variable {ctx : PhaseContext} {path : Path} {cancelled : Bool} {rest : List PhaseRound}
  {out : LoopState × Except String (Option Json)}

theorem flows_of_after {x : LoopState × Flow}
    (h : (FilePoint.after path rest x).ComesTo ctx path cancelled out) :
    Flows ctx path cancelled rest x out := by
  obtain ⟨s, flow⟩ := x
  cases flow <;> exact h

theorem FlowsWaiting.of_running {x : Bool → LoopState × Flow}
    (h : Flows ctx path cancelled rest (x false) out) :
    FlowsWaiting ctx path cancelled rest x out :=
  ⟨false, by rintro ⟨⟩, h⟩

/-- A round that comes to something makes the loop come to it. -/
theorem loops_of_round {s : LoopState} {r : PhaseRound}
    (h : FlowsWaiting ctx path cancelled rest (fun waiting =>
      s.phaseRound ctx { r with cancelled := false, cancelledWaiting := waiting }) out) :
    Loops ctx path cancelled (r :: rest) s out := by
  obtain ⟨waiting, hwaiting, h⟩ := h
  have hpolled : Polled cancelled r { r with cancelled := false, cancelledWaiting := waiting } :=
    ⟨false, waiting, by rintro ⟨⟩, hwaiting, rfl⟩
  cases hround : s.phaseRound ctx { r with cancelled := false, cancelledWaiting := waiting } with
  | mk s' flow =>
    simp only [hround] at h
    cases flow with
    | next =>
      obtain ⟨rest', hrest, rfl⟩ := h
      exact ⟨_, .cons hpolled hrest, by rw [phaseLoop, hround]⟩
    | leave =>
      exact ⟨_, .cons hpolled (polled_running cancelled rest), by rw [phaseLoop, hround]; exact h⟩
    | fail e =>
      exact ⟨_, .cons hpolled (polled_running cancelled rest), by rw [phaseLoop, hround]; exact h⟩

/-- The token may be cancelled at the head of the loop. -/
theorem loops_of_cancelled (hcancelled : cancelled = true) {s : LoopState} {r : PhaseRound}
    (h : (s, s.finish path) = out) : Loops ctx path cancelled (r :: rest) s out := by
  refine ⟨{ r with cancelled := true, cancelledWaiting := false } :: rest.map PhaseRound.running,
    .cons ⟨true, false, fun _ => hcancelled, by rintro ⟨⟩, rfl⟩ (polled_running cancelled rest), ?_⟩
  rw [phaseLoop, phaseRound, if_pos rfl]
  exact h

theorem loops_of_startRound {s : LoopState} {r : PhaseRound}
    (h : (startRound ctx path s r rest).ComesTo ctx path cancelled out) :
    Loops ctx path cancelled (r :: rest) s out := by
  refine loops_of_round ?_
  unfold startRound at h
  split at h
  case h_1 e hevaluated =>
    refine .of_running ?_
    simp only [phaseRound, hevaluated]
    exact flows_of_after h
  case h_2 hevaluated =>
    refine .of_running ?_
    simp only [phaseRound, hevaluated]
    exact flows_of_after h
  case h_3 plan hevaluated =>
    simp only [phaseRound, hevaluated, LoopState.runPlan, Bool.false_eq_true, if_false]
    dsimp only at h
    split at h
    next hsavings =>
      refine .of_running ?_
      simp only [hsavings, if_true]
      exact flows_of_after h
    next hsavings =>
      simp only [hsavings, Bool.false_eq_true, if_false]
      split at h
      next reason hskip =>
        refine .of_running ?_
        simp only [hskip] at h ⊢
        exact flows_of_after h
      next hskip =>
        simp only [hskip] at h ⊢
        split at h
        next hempty =>
          refine .of_running ?_
          simp only [hempty, if_true]
          exact flows_of_after h
        next hempty =>
          simp only [hempty, Bool.false_eq_true, if_false]
          split at h
          next hcrop =>
            simp only [hcrop, if_true]
            exact h
          next hcrop =>
            simp only [hcrop, Bool.false_eq_true, if_false]
            exact h

/-- The round goes on after the crop detection as it would have with the permit at once. -/
theorem flows_of_crop {turn turn' : Turn} {slot : Option String} (hcrop : turn.crop = .ok turn')
    (h : (FilePoint.checking turn' (some slot)).ComesTo ctx path cancelled out) :
    (FilePoint.cropping turn slot).ComesTo ctx path cancelled out := by
  obtain ⟨waiting, -, h⟩ := h
  unfold Turn.crop at hcrop
  simp only [FilePoint.ComesTo, cropPlan, Bool.false_eq_true, if_false]
  cases hauto : turn.round.autoCrop with
  | error error =>
    simp only [hauto] at hcrop
    cases hcrop
  | ok cropped =>
    cases cropped with
    | none =>
      simp only [hauto] at hcrop
      cases hcrop
      exact h
    | some file =>
      simp only [hauto] at hcrop
      cases hcrop
      exact h

theorem flows_of_crop_failed {turn : Turn} {slot : Option String} {s : LoopState}
    (hcrop : turn.crop = .error s) (h : Loops ctx path cancelled turn.rest s out) :
    (FilePoint.cropping turn slot).ComesTo ctx path cancelled out := by
  unfold Turn.crop at hcrop
  simp only [FilePoint.ComesTo, cropPlan, Bool.false_eq_true, if_false]
  cases hauto : turn.round.autoCrop with
  | error error =>
    simp only [hauto] at hcrop
    cases hcrop
    exact h
  | ok cropped =>
    cases cropped with
    | none =>
      simp only [hauto] at hcrop
      cases hcrop
    | some file =>
      simp only [hauto] at hcrop
      cases hcrop

/-- With its permit, a plan comes to what it may have come to while it waited. -/
theorem comesTo_of_go {purpose : Purpose} {turn : Turn} {slot : Option String} (resource : String)
    (h : (purpose.go turn slot).ComesTo ctx path cancelled out) :
    (FilePoint.asking purpose turn).ComesTo ctx path cancelled out ∧
      (FilePoint.parked purpose turn resource).ComesTo ctx path cancelled out := by
  cases purpose with
  | crop => exact ⟨.of_running h, .of_running h⟩
  | execute => exact ⟨.of_running h, .of_running h⟩

theorem comesTo_of_parked {purpose : Purpose} {turn : Turn} {resource : String}
    (h : (FilePoint.parked purpose turn resource).ComesTo ctx path cancelled out) :
    (FilePoint.asking purpose turn).ComesTo ctx path cancelled out := by
  cases purpose <;> exact h

/-- The token may be cancelled while a plan waits. -/
theorem comesTo_of_cancelled (hcancelled : cancelled = true) {purpose : Purpose} {turn : Turn}
    (resource : String) (h : (turn.state, turn.state.finish path) = out) :
    (FilePoint.asking purpose turn).ComesTo ctx path cancelled out ∧
      (FilePoint.parked purpose turn resource).ComesTo ctx path cancelled out := by
  cases purpose with
  | crop =>
    have hflows : FlowsWaiting ctx path cancelled turn.rest (fun waiting =>
        cropPlan ctx { turn.round with cancelledWaiting := waiting } turn.state turn.plan) out :=
      ⟨true, fun _ => hcancelled, h⟩
    exact ⟨hflows, hflows⟩
  | execute =>
    have hflows : FlowsWaiting ctx path cancelled turn.rest (fun waiting =>
        if waiting then (turn.state, .leave)
        else executePlan ctx turn.round turn.state turn.plan) out :=
      ⟨true, fun _ => hcancelled, h⟩
    exact ⟨hflows, hflows⟩

theorem comesTo_of_checked {turn : Turn} {slot : Option (Option String)}
    (hspace : turn.round.diskSpace = none)
    (h : (match slot with
      | some slot => FilePoint.executing turn slot
      | none => .asking .execute turn).ComesTo ctx path cancelled out) :
    (FilePoint.checking turn slot).ComesTo ctx path cancelled out := by
  cases slot with
  | none =>
    obtain ⟨waiting, hwaiting, h⟩ := h
    refine ⟨waiting, hwaiting, ?_⟩
    simp only [startPlan, hspace, Option.isSome_none, Bool.not_false, Bool.true_and]
    exact h
  | some slot =>
    refine .of_running ?_
    simp only [startPlan, hspace, Option.isSome_some, Bool.not_true, Bool.false_and,
      Bool.false_eq_true, if_false]
    exact h

end

/-! ## Steps -/

/-- The file promises no more than it did before. -/
structure FileTask.Follows (ctx : PhaseContext) (cancelled : Bool) (task task' : FileTask) :
    Prop where
  path : task'.path = task.path
  comesTo : ∀ out, task'.point.ComesTo ctx task'.path cancelled out →
    task.point.ComesTo ctx task.path cancelled out

namespace FilesState

variable {ctx : PhaseContext} {cancelled : Bool} {limiter : PlanExecutionLimiter} {workers : Nat}
  {st : FilesState} {i : Nat} {task : FileTask}

theorem set_follows {files : List FileTask} {point : FilePoint}
    (h : ∀ out, point.ComesTo ctx task.path cancelled out →
      task.point.ComesTo ctx task.path cancelled out) :
    ∃ task', files.set i { task with point } = files.set i task' ∧
      task.Follows ctx cancelled task' :=
  ⟨{ task with point }, rfl, rfl, h⟩

theorem same_follows (htask : st.files[i]? = some task) :
    ∃ task', st.files = st.files.set i task' ∧ task.Follows ctx cancelled task' := by
  refine ⟨task, ?_, rfl, fun _ h => h⟩
  obtain ⟨hlt, rfl⟩ := List.getElem?_eq_some_iff.mp htask
  exact (List.set_getElem_self hlt).symm

theorem drop_files (slot : Option String) : (st.drop i slot).files = st.files := by
  cases slot <;> rfl

theorem ask_follows {purpose : Purpose} {turn : Turn} (hpoint : task.point = .asking purpose turn) :
    ∃ task', (st.ask limiter i task purpose turn).files = st.files.set i task' ∧
      task.Follows ctx cancelled task' := by
  unfold ask
  split
  · refine set_follows fun out h => ?_
    rw [hpoint]
    exact (comesTo_of_go "" h).1
  · rename_i resource _
    dsimp only
    split
    · refine set_follows fun out h => ?_
      rw [hpoint]
      exact (comesTo_of_go resource h).1
    · refine set_follows fun out h => ?_
      rw [hpoint]
      exact comesTo_of_parked h

theorem stepFile_follows (htask : st.files[i]? = some task)
    (hcancelled : st.cancelled = true → cancelled = true) :
    ∃ task', (st.stepFile ctx limiter workers i task).files = st.files.set i task' ∧
      task.Follows ctx cancelled task' := by
  unfold stepFile
  cases hpoint : task.point with
  | queued changed rounds s =>
    dsimp only
    split
    · cases changed <;> refine set_follows fun out h => ?_ <;> rw [hpoint] <;> exact h
    · exact same_follows htask
  | head rounds s =>
    cases rounds with
    | nil =>
      refine set_follows fun out h => ?_
      rw [hpoint]
      exact ⟨[], .nil, h⟩
    | cons r rest =>
      dsimp only
      split
      next hstop =>
        refine set_follows fun out h => ?_
        rw [hpoint]
        exact loops_of_cancelled (hcancelled hstop) h
      next =>
        refine set_follows fun out h => ?_
        rw [hpoint]
        exact loops_of_startRound h
  | asking purpose turn =>
    dsimp only
    split
    next hstop =>
      refine set_follows fun out h => ?_
      rw [hpoint]
      exact (comesTo_of_cancelled (hcancelled hstop) "" h).1
    next => exact ask_follows hpoint
  | parked purpose turn resource =>
    dsimp only
    split
    · split
      next hstop =>
        refine set_follows fun out h => ?_
        rw [hpoint]
        exact (comesTo_of_cancelled (hcancelled hstop) resource h).2
      next =>
        refine set_follows fun out h => ?_
        rw [hpoint]
        exact (comesTo_of_go resource h).2
    · split
      next hstop =>
        refine set_follows fun out h => ?_
        rw [hpoint]
        exact (comesTo_of_cancelled (hcancelled hstop) resource h).2
      next => exact same_follows htask
  | cropping turn slot =>
    dsimp only
    cases hcrop : turn.crop with
    | error s =>
      simp only [move, drop_files]
      refine set_follows fun out h => ?_
      rw [hpoint]
      exact flows_of_crop_failed hcrop (flows_of_after h)
    | ok turn' =>
      refine set_follows fun out h => ?_
      rw [hpoint]
      exact flows_of_crop hcrop h
  | checking turn slot =>
    dsimp only
    cases hspace : turn.round.diskSpace with
    | some message =>
      simp only [move, drop_files]
      refine set_follows fun out h => ?_
      rw [hpoint]
      refine .of_running ?_
      simp only [LoopState.startPlan, hspace]
      exact flows_of_after h
    | none =>
      cases slot with
      | none =>
        refine set_follows fun out h => ?_
        rw [hpoint]
        exact comesTo_of_checked hspace h
      | some slot =>
        refine set_follows fun out h => ?_
        rw [hpoint]
        exact comesTo_of_checked hspace h
  | executing turn slot =>
    simp only [move, drop_files]
    refine set_follows fun out h => ?_
    rw [hpoint]
    exact h
  | settling turn =>
    refine set_follows fun out h => ?_
    rw [hpoint]
    exact flows_of_after h
  | done s result => exact same_follows htask

theorem step_follows (act : FilesAct) (htask : st.files[i]? = some task)
    (hcancelled : st.cancelled = true → cancelled = true) :
    ∃ task', (st.step ctx limiter workers act).files[i]? = some task' ∧
      task.Follows ctx cancelled task' := by
  cases act with
  | cancel => exact ⟨task, htask, rfl, fun _ h => h⟩
  | file j =>
    cases hother : st.files[j]? with
    | none =>
      simp only [step, hother]
      exact ⟨task, htask, rfl, fun _ h => h⟩
    | some other =>
      simp only [step, hother]
      obtain ⟨task', hfiles, hfollows⟩ := stepFile_follows hother hcancelled
      rw [hfiles]
      by_cases hij : j = i
      · subst hij
        obtain ⟨hlt, -⟩ := List.getElem?_eq_some_iff.mp htask
        rw [hother] at htask
        obtain rfl := Option.some.inj htask
        exact ⟨task', List.getElem?_set_self hlt, hfollows⟩
      · rw [List.getElem?_set_ne hij]
        exact ⟨task, htask, rfl, fun _ h => h⟩

/-- The token stays cancelled. -/
theorem cancelled_step (act : FilesAct) (h : st.cancelled = true) :
    (st.step ctx limiter workers act).cancelled = true := by
  cases act with
  | cancel => rfl
  | file i =>
    cases htask : st.files[i]? with
    | none => simpa only [step, htask] using h
    | some task =>
      have hdrop (slot : Option String) : (st.drop i slot).cancelled = true := by
        cases slot <;> exact h
      simp only [step, htask, stepFile, takeUp, ask]
      (repeat' split) <;> first | exact h | exact hdrop _

theorem cancelled_run (acts : List FilesAct) (h : st.cancelled = true) :
    (st.run ctx limiter workers acts).cancelled = true := by
  induction acts generalizing st with
  | nil => exact h
  | cons act acts ih => exact ih (cancelled_step act h)

theorem run_follows (acts : List FilesAct) (htask : st.files[i]? = some task)
    (hcancelled : (st.run ctx limiter workers acts).cancelled = true → cancelled = true) :
    ∃ task', (st.run ctx limiter workers acts).files[i]? = some task' ∧
      task.Follows ctx cancelled task' := by
  induction acts generalizing st task with
  | nil => exact ⟨task, htask, rfl, fun _ h => h⟩
  | cons act acts ih =>
    have hstep : ∃ task', (st.step ctx limiter workers act).files[i]? = some task' ∧
        task.Follows ctx cancelled task' :=
      step_follows act htask fun hstop => hcancelled (cancelled_run (act :: acts) hstop)
    obtain ⟨task₁, htask₁, hfollows₁⟩ := hstep
    obtain ⟨task₂, htask₂, hfollows₂⟩ := ih htask₁ hcancelled
    exact ⟨task₂, htask₂, hfollows₂.path.trans hfollows₁.path,
      fun out h => hfollows₁.comesTo out (hfollows₂.comesTo out h)⟩

end FilesState

/-- A file that is done has the outcome of its own loop; if the token was not
cancelled, of the loop that is never told to stop. -/
theorem outcome_of_done (ctx : PhaseContext) (limiter : PlanExecutionLimiter) (workers : Nat)
    (works : List FileWork) (acts : List FilesAct) {i : Nat} {work : FileWork} {task : FileTask}
    {s : LoopState} {result : Except String (Option Json)} (hwork : works[i]? = some work)
    (htask : ((FilesState.initial limiter works).run ctx limiter workers acts).files[i]? = some task)
    (hdone : task.point = .done s result) :
    let cancelled := ((FilesState.initial limiter works).run ctx limiter workers acts).cancelled
    (∃ rounds, List.Forall₂ (Polled cancelled) work.rounds rounds ∧
      processSingleFileExecuteInner ctx work.file work.changed rounds = (s, result)) ∧
    (cancelled = false →
      processSingleFileExecuteInner ctx work.file work.changed
        (work.rounds.map PhaseRound.running) = (s, result)) := by
  intro cancelled
  have hqueued : (FilesState.initial limiter works).files[i]? = some work.task := by
    rw [FilesState.initial, List.getElem?_map, hwork]
    rfl
  have hrun : ∃ task', ((FilesState.initial limiter works).run ctx limiter workers acts).files[i]? =
      some task' ∧ work.task.Follows ctx cancelled task' :=
    FilesState.run_follows acts hqueued fun h => h
  obtain ⟨task', htask', hfollows⟩ := hrun
  obtain rfl : task = task' := Option.some.inj (htask.symm.trans htask')
  have hout := hfollows.comesTo (s, result) (by rw [hdone]; exact rfl)
  have hsequential : ∃ rounds, List.Forall₂ (Polled cancelled) work.rounds rounds ∧
      processSingleFileExecuteInner ctx work.file work.changed rounds = (s, result) := by
    unfold processSingleFileExecuteInner
    unfold FileWork.task at hout
    cases hchanged : work.changed with
    | some skipped =>
      simp only [hchanged] at hout
      exact ⟨_, polled_running cancelled work.rounds, hout⟩
    | none =>
      simp only [hchanged] at hout
      exact hout
  refine ⟨hsequential, fun hrunning => ?_⟩
  obtain ⟨rounds, hpolled, hresult⟩ := hsequential
  rw [hrunning] at hpolled
  rw [← eq_running_of_polled hpolled]
  exact hresult

namespace TwoFilms

/-- The second film is executed after the first, with the outcome it has on its own. -/
theorem second_outcome :
    let limiter := PlanExecutionLimiter.ofCapabilities (.collect [announced])
    let st := (FilesState.initial limiter [work 1, work 2]).run ⟨false, 0⟩ limiter 2
      (acts ++ [.file 0, .file 1, .file 1, .file 1, .file 1])
    ∃ task s result, st.files[1]? = some task ∧ task.point = .done s result ∧
      processSingleFileExecuteInner ⟨false, 0⟩ (film 2) none
        ((work 2).rounds.map PhaseRound.running) = (s, result) := by
  intro limiter st
  have hdone : st.files[1]?.any (·.point.isDone) = true := by decide
  have hrunning : st.cancelled = false := by decide
  obtain ⟨task, htask, hdone⟩ := (Option.any_eq_true _ _).mp hdone
  cases hpoint : task.point with
  | done s result =>
    exact ⟨task, s, result, htask, hpoint, (outcome_of_done ⟨false, 0⟩ limiter 2 [work 1, work 2] _
      rfl htask hpoint).2 hrunning⟩
  | _ =>
    rw [hpoint] at hdone
    cases hdone

end TwoFilms

end Voom.Process
