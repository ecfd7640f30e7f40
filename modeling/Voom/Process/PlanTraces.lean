-- SUMMARY: The traces of plans: which lifecycle events a plan can get, and what goes with them.
import Voom.Process.PhaseLoop

/-!
# Plan traces

Whatever a round of the loop comes to, the lifecycle events of its plan are one of
five traces, and the outcome of the phase, the failure count and the pending
operations follow from which one it is.
-/

namespace Voom.Process

open Recovery

/-! ## Traces -/

/-- The lifecycle events of a plan, by their types. -/
def lifecycleOf (id : Uuid) (events : List Event) : List EventType :=
  (events.filter fun e => e.isLifecycle && decide (planIdOf e = id)).map Event.eventType

/-- What can become of a plan. -/
inductive PlanFate where
  | untouched
  /-- Failed before it was begun. -/
  | refused
  | skipped
  | completed
  | failed
  deriving DecidableEq, Repr

namespace PlanFate

def trace : PlanFate → List EventType
  | .untouched => []
  | .refused => [.planFailed]
  | .skipped => [.planCreated, .planSkipped]
  | .completed => [.planExecuting, .planCreated, .planCompleted]
  | .failed => [.planExecuting, .planCreated, .planFailed]

def isFailed : PlanFate → Bool
  | .refused | .failed => true
  | _ => false

theorem planCompleted_mem {fate : PlanFate} : .planCompleted ∈ fate.trace ↔ fate = .completed := by
  cases fate <;> simp [trace]

theorem planFailed_mem {fate : PlanFate} : .planFailed ∈ fate.trace ↔ fate.isFailed = true := by
  cases fate <;> simp [trace, isFailed]

end PlanFate

@[simp] theorem lifecycleOf_nil (id : Uuid) : lifecycleOf id [] = [] := rfl

theorem lifecycleOf_append (id : Uuid) (events events' : List Event) :
    lifecycleOf id (events ++ events') = lifecycleOf id events ++ lifecycleOf id events' := by
  simp [lifecycleOf]

/-! ## One round -/

/-- A round in which the plan with the identifier came to its fate. -/
structure Ends (s : LoopState) (id : Option Uuid) (phase : String) (fate : PlanFate)
    (res : LoopState × Flow) : Prop where
  dispatched : ∃ events, res.1.dispatched = s.dispatched ++ events ∧
    ∀ id', lifecycleOf id' events = if id = some id' then fate.trace else []
  outcome : (fate ≠ .completed ∧ res.1.phaseOutcomes = s.phaseOutcomes) ∨
    ∃ outcome, res.1.phaseOutcomes = Function.update s.phaseOutcomes phase (some outcome) ∧
      (outcome = .executed true ↔ fate = .completed)
  failure : fate.isFailed = true →
    (∃ e, res.2 = .fail e) ∨ s.failedPlanCount < res.1.failedPlanCount
  grows : s.failedPlanCount ≤ res.1.failedPlanCount

namespace Ends

variable {s s' : LoopState} {id : Option Uuid} {phase : String} {fate : PlanFate}
  {res : LoopState × Flow}

/-- A round that dispatches nothing and leaves the outcomes alone. -/
theorem untouched (hdispatched : s'.dispatched = s.dispatched)
    (houtcomes : s'.phaseOutcomes = s.phaseOutcomes)
    (hcount : s'.failedPlanCount = s.failedPlanCount) (flow : Flow) :
    Ends s id phase .untouched (s', flow) where
  dispatched := ⟨[], by simp [hdispatched], fun id' => by simp [PlanFate.trace]⟩
  outcome := .inl ⟨by decide, houtcomes⟩
  failure := by simp [PlanFate.isFailed]
  grows := hcount.ge

/-- Something was done before the round that is no part of any plan's lifecycle. -/
theorem after (h : Ends s' id phase fate res) {events : List Event}
    (hdispatched : s'.dispatched = s.dispatched ++ events)
    (hquiet : ∀ e ∈ events, e.isLifecycle = false)
    (houtcomes : s'.phaseOutcomes = s.phaseOutcomes)
    (hcount : s'.failedPlanCount = s.failedPlanCount) : Ends s id phase fate res where
  dispatched := by
    obtain ⟨events', heq, htrace⟩ := h.dispatched
    refine ⟨events ++ events', by rw [heq, hdispatched, List.append_assoc], fun id' => ?_⟩
    have hnone : lifecycleOf id' events = [] := by
      rw [lifecycleOf, List.map_eq_nil_iff, List.filter_eq_nil_iff]
      intro e he
      simp [hquiet e he]
    rw [lifecycleOf_append, hnone, List.nil_append, htrace id']
  outcome := by
    rw [← houtcomes]
    exact h.outcome
  failure := by
    rw [← hcount]
    exact h.failure
  grows := by
    rw [← hcount]
    exact h.grows

end Ends

namespace LoopState

variable {ctx : PhaseContext} {r : PhaseRound} {s : LoopState} {plan : Plan}

/-- The trace of events that are all about one plan. -/
theorem lifecycleOf_own {id : Uuid} {events : List Event} {trace : List EventType}
    (hown : ∀ e ∈ events, e.isLifecycle = true ∧ planIdOf e = id)
    (htrace : events.map Event.eventType = trace) (id' : Uuid) :
    lifecycleOf id' events = if some id = some id' then trace else [] := by
  by_cases h : id = id'
  · subst h
    rw [if_pos rfl, ← htrace, lifecycleOf, List.filter_eq_self.mpr]
    intro e he
    simp [hown e he]
  · rw [if_neg (by simpa using h), lifecycleOf, List.map_eq_nil_iff, List.filter_eq_nil_iff]
    intro e he
    simp [hown e he, h]

/-- A round whose events are all about its plan. -/
theorem ends_of_events {id : Uuid} {phase : String} {fate : PlanFate} {res : LoopState × Flow}
    (events : List Event) (outcome : EvaluationOutcome)
    (hdispatched : res.1.dispatched = s.dispatched ++ events)
    (hown : ∀ e ∈ events, e.isLifecycle = true ∧ planIdOf e = id)
    (htrace : events.map Event.eventType = fate.trace)
    (houtcome : res.1.phaseOutcomes = Function.update s.phaseOutcomes phase (some outcome))
    (hcompleted : outcome = .executed true ↔ fate = .completed)
    (hcount : res.1.failedPlanCount = s.failedPlanCount + fate.isFailed.toNat) :
    Ends s (some id) phase fate res where
  dispatched := ⟨events, hdispatched, lifecycleOf_own hown htrace⟩
  outcome := .inr ⟨outcome, houtcome, hcompleted⟩
  failure := fun hfailed => .inr (by rw [hcount, hfailed]; exact Nat.lt_succ_self _)
  grows := by rw [hcount]; exact Nat.le_add_right _ _

/-- A safeguard that fires fails the plan, after the events that began it or
without any. -/
theorem safeguardFailed_ends {s' : LoopState} {events : List Event} {fate : PlanFate}
    (phase message : String)
    (hdispatched : s'.dispatched = s.dispatched ++ events)
    (houtcomes : s'.phaseOutcomes = s.phaseOutcomes)
    (hcount : s'.failedPlanCount = s.failedPlanCount)
    (hown : ∀ e ∈ events, e.isLifecycle = true ∧ planIdOf e = plan.id)
    (htrace : events.map Event.eventType ++ [.planFailed] = fate.trace)
    (hfailed : fate.isFailed = true) :
    Ends s (some plan.id) phase fate (s'.safeguardFailed plan phase message) := by
  obtain ⟨evt, hevt, hlast⟩ : ∃ evt : PlanFailedEvent, evt.planId = plan.id ∧
      (s'.safeguardFailed plan phase message).1.dispatched = s'.dispatched ++ [.planFailed evt] :=
    ⟨_, rfl, rfl⟩
  have hcompleted : fate ≠ .completed := by
    rintro rfl
    cases hfailed
  refine ends_of_events (events ++ [.planFailed evt]) .safeguardFailed ?_ ?_ ?_ ?_ ?_ ?_
  · rw [hlast, hdispatched, List.append_assoc]
  · intro e he
    rcases List.mem_append.mp he with he | he
    · exact hown e he
    · cases List.mem_singleton.mp he
      exact ⟨rfl, hevt⟩
  · rw [List.map_append]
    exact htrace
  · rw [← houtcomes]
    rfl
  · simpa using hcompleted
  · rw [hfailed, ← hcount]
    rfl

/-- A success dispatches the completion, and the outcome is left to the caller. -/
theorem handlePlanSuccess_fields (ctx : PhaseContext) (r : PhaseRound) (s : LoopState) (plan : Plan) :
    (handlePlanSuccess ctx r s plan).1.dispatched =
        s.dispatched ++ [PlanDispatcher.completedEvent plan s.currentFile ctx.keepBackups] ∧
      (handlePlanSuccess ctx r s plan).1.phaseOutcomes = s.phaseOutcomes ∧
      (handlePlanSuccess ctx r s plan).1.failedPlanCount = s.failedPlanCount := by
  unfold handlePlanSuccess
  cases ctx.keepBackups <;> cases r.recordTransition <;> exact ⟨rfl, rfl, rfl⟩

/-- The events with which a plan is begun. -/
def begun (s : LoopState) (plan : Plan) : List Event :=
  [PlanDispatcher.executingEvent plan s.currentFile, .planCreated plan]

theorem begun_own : ∀ e ∈ s.begun plan, e.isLifecycle = true ∧ planIdOf e = plan.id := by
  intro e he
  rcases List.mem_pair.mp he with rfl | rfl <;> exact ⟨rfl, rfl⟩

theorem executePlan_ends (hphase : plan.phaseName = r.phaseName) :
    ∃ fate, Ends s (some plan.id) r.phaseName fate (executePlan ctx r s plan) := by
  unfold executePlan
  generalize hbegan : (s.dispatch (PlanDispatcher.executingEvent plan s.currentFile)).dispatch
    (.planCreated plan) = began
  have hdispatched : began.dispatched = s.dispatched ++ s.begun plan := by
    rw [← hbegan]
    simp [dispatch, begun]
  have houtcomes : began.phaseOutcomes = s.phaseOutcomes := by rw [← hbegan]; rfl
  have hcount : began.failedPlanCount = s.failedPlanCount := by rw [← hbegan]; rfl
  dsimp only
  split
  · split
    · exact ⟨.failed, safeguardFailed_ends _ _ hdispatched houtcomes hcount begun_own rfl rfl⟩
    · split
      · exact ⟨.failed, safeguardFailed_ends _ _ hdispatched houtcomes hcount begun_own rfl rfl⟩
      · -- The outcome is entered before the completion is dispatched.
        obtain ⟨hlast, hsame, hcounted⟩ := handlePlanSuccess_fields ctx r
          (began.countModified.setOutcome r.phaseName (.executed true)) plan
        refine ⟨.completed, ends_of_events (s.begun plan ++ [PlanDispatcher.completedEvent plan
          began.currentFile ctx.keepBackups]) (.executed true) ?_ ?_ rfl ?_ ?_ ?_⟩
        · rw [hlast, ← List.append_assoc, ← hdispatched]
          rfl
        · intro e he
          rcases List.mem_append.mp he with he | he
          · exact begun_own e he
          · cases List.mem_singleton.mp he
            exact ⟨rfl, rfl⟩
        · rw [hsame, ← houtcomes]
          rfl
        · simp
        · rw [hcounted, ← hcount]
          rfl
  · rename_i event hevent
    have hid := (PlanOutcome.fromEventResult_failed hevent).1
    have hown : ∀ e ∈ s.begun plan ++ [.planFailed event], e.isLifecycle = true ∧ planIdOf e = plan.id := by
      intro e he
      rcases List.mem_append.mp he with he | he
      · exact begun_own e he
      · cases List.mem_singleton.mp he
        exact ⟨rfl, hid⟩
    have hfailed : (began.dispatchPlanFailure event plan.phaseName).dispatched =
        s.dispatched ++ (s.begun plan ++ [.planFailed event]) := by
      rw [← List.append_assoc, ← hdispatched]
      rfl
    refine ⟨.failed, ?_⟩
    split
    · rename_i e _
      exact
        { dispatched := ⟨_, hfailed, lifecycleOf_own hown rfl⟩
          outcome := .inl ⟨by decide, houtcomes⟩
          failure := fun _ => .inl ⟨e, rfl⟩
          grows := hcount.ge }
    · refine ends_of_events _ .executionFailed hfailed hown rfl ?_ (by simp) ?_
      · rw [hphase, ← houtcomes]
        rfl
      · rw [← hcount]
        rfl

theorem startPlan_ends (ctx : PhaseContext) (hphase : plan.phaseName = r.phaseName) (hasSlot : Bool) :
    ∃ fate, Ends s (some plan.id) r.phaseName fate (startPlan ctx r s plan hasSlot) := by
  unfold startPlan
  split
  · exact ⟨.refused, safeguardFailed_ends _ _ (List.append_nil _).symm rfl rfl (List.forall_mem_nil _) rfl rfl⟩
  · split
    · exact ⟨.untouched, Ends.untouched rfl rfl rfl _⟩
    · exact executePlan_ends hphase

theorem cropPlan_ends (hphase : plan.phaseName = r.phaseName) :
    ∃ fate, Ends s (some plan.id) r.phaseName fate (cropPlan ctx r s plan) := by
  unfold cropPlan
  split
  · exact ⟨.untouched, Ends.untouched rfl rfl rfl _⟩
  · split
    · refine ⟨.refused, ends_of_events [.planFailed _] .executionFailed rfl ?_ rfl rfl (by simp) rfl⟩
      intro e he
      cases List.mem_singleton.mp he
      exact ⟨rfl, rfl⟩
    · exact startPlan_ends ctx hphase true
    · rename_i file _
      have hfile : ({ plan with file } : Plan).phaseName = r.phaseName := hphase
      obtain ⟨fate, hends⟩ := startPlan_ends (s := { s with currentFile := file }) ctx hfile true
      exact ⟨fate, hends.after (List.append_nil _).symm (List.forall_mem_nil _) rfl rfl⟩

/-- A plan that is skipped is recorded and closed without having been begun. -/
theorem dispatchSkippedPlan_ends (phase reason : String) :
    Ends s (some plan.id) phase .skipped
      ((s.setOutcome phase .skipped).dispatchSkippedPlan plan reason, .next) := by
  refine ends_of_events [.planCreated plan,
    .planSkipped ⟨plan.id, s.currentFile.path, plan.phaseName, reason⟩] .skipped ?_ ?_ rfl rfl
    (by simp) rfl
  · exact List.append_assoc _ _ _
  · intro e he
    rcases List.mem_pair.mp he with rfl | rfl <;> exact ⟨rfl, rfl⟩

theorem dispatchSafeguardViolations_quiet (s : LoopState) (plan : Plan) :
    ∃ events, (s.dispatchSafeguardViolations plan).dispatched = s.dispatched ++ events ∧
      (∀ e ∈ events, e.isLifecycle = false) ∧
      (s.dispatchSafeguardViolations plan).phaseOutcomes = s.phaseOutcomes ∧
      (s.dispatchSafeguardViolations plan).failedPlanCount = s.failedPlanCount := by
  unfold dispatchSafeguardViolations
  split
  · exact ⟨[], (List.append_nil _).symm, List.forall_mem_nil _, rfl, rfl⟩
  · refine ⟨[.fileIntrospected (tagViolations s.currentFile plan.safeguardViolations)], rfl, ?_, rfl, rfl⟩
    intro e he
    cases List.mem_singleton.mp he
    rfl

/-- An outcome is entered for a plan that gets no events. -/
theorem setOutcome_ends {outcome : EvaluationOutcome} {res : LoopState × Flow} (id : Uuid)
    {phase : String} (hdispatched : res.1.dispatched = s.dispatched)
    (houtcomes : res.1.phaseOutcomes = Function.update s.phaseOutcomes phase (some outcome))
    (hcount : res.1.failedPlanCount = s.failedPlanCount) (houtcome : outcome ≠ .executed true) :
    Ends s (some id) phase .untouched res :=
  ends_of_events [] outcome (by rw [hdispatched, List.append_nil]) (List.forall_mem_nil _) rfl houtcomes
    (by simpa using houtcome) hcount

theorem runPlan_ends (hphase : plan.phaseName = r.phaseName) :
    ∃ fate, Ends s (some plan.id) r.phaseName fate (runPlan ctx r s plan) := by
  unfold runPlan
  split
  · exact ⟨.untouched, setOutcome_ends plan.id rfl rfl rfl (by simp)⟩
  · obtain ⟨events, hdispatched, hquiet, houtcomes, hcount⟩ :=
      dispatchSafeguardViolations_quiet s plan
    dsimp only
    split
    · exact ⟨.skipped, (dispatchSkippedPlan_ends _ _).after hdispatched hquiet houtcomes hcount⟩
    · split
      · have hset : Ends (s.dispatchSafeguardViolations plan) (some plan.id) r.phaseName .untouched
            ((s.dispatchSafeguardViolations plan).setOutcome r.phaseName (.executed false), .next) :=
          setOutcome_ends plan.id rfl rfl rfl (by simp)
        exact ⟨.untouched, hset.after hdispatched hquiet houtcomes hcount⟩
      · split
        · obtain ⟨fate, hends⟩ := cropPlan_ends hphase
          exact ⟨fate, hends.after hdispatched hquiet houtcomes hcount⟩
        · obtain ⟨fate, hends⟩ := startPlan_ends ctx hphase false
          exact ⟨fate, hends.after hdispatched hquiet houtcomes hcount⟩

end LoopState

/-- The identifier of the plan of a round. -/
def PhaseRound.planId (r : PhaseRound) : Option Uuid :=
  match r.evaluated with
  | .ok (some plan) => some plan.id
  | _ => none

/-- Every round brings its plan to one fate. -/
theorem LoopState.phaseRound_ends (ctx : PhaseContext) (s : LoopState) (r : PhaseRound) :
    ∃ fate, Ends s r.planId r.phaseName fate (s.phaseRound ctx r) := by
  unfold phaseRound
  split
  · exact ⟨.untouched, Ends.untouched rfl rfl rfl _⟩
  · split
    · exact ⟨.untouched, Ends.untouched rfl rfl rfl _⟩
    · exact ⟨.untouched, Ends.untouched rfl rfl rfl _⟩
    · rename_i plan heval
      have hid : r.planId = some plan.id := by
        unfold PhaseRound.planId
        rw [heval]
      have hphase : ({ plan with scanSession := some ctx.scanSession } : Plan).phaseName =
          r.phaseName := r.evaluated_phase plan heval
      obtain ⟨fate, hends⟩ := runPlan_ends hphase
      rw [hid]
      exact ⟨fate, hends.after (List.append_nil _).symm (List.forall_mem_nil _) rfl rfl⟩

/-! ## The whole loop -/

/-- What the loop has come to: the fate of every plan, with the events, outcomes
and failures that follow from it. -/
structure Ended (rounds : List PhaseRound) (s : LoopState)
    (res : LoopState × Except String (Option Json)) (fate : Uuid → PlanFate) : Prop where
  trace : ∀ id, lifecycleOf id res.1.dispatched = lifecycleOf id s.dispatched ++ (fate id).trace
  others : ∀ id, some id ∉ rounds.map PhaseRound.planId → fate id = .untouched
  frame : ∀ phase, phase ∉ rounds.map PhaseRound.phaseName →
    res.1.phaseOutcomes phase = s.phaseOutcomes phase
  outcomes : (∀ phase ∈ rounds.map PhaseRound.phaseName, s.phaseOutcomes phase = none) →
    ∀ r ∈ rounds, ∀ id, r.planId = some id →
      (res.1.phaseOutcomes r.phaseName = some (.executed true) ↔ fate id = .completed)
  failure : (0 < s.failedPlanCount ∨ ∃ id, (fate id).isFailed = true) → ∃ e, res.2 = .error e

namespace Ended

variable {rounds : List PhaseRound} {s : LoopState} {r : PhaseRound}

/-- The loop is left without another round. -/
theorem stopped (rounds : List PhaseRound) {result : Except String (Option Json)}
    (hfailure : 0 < s.failedPlanCount → ∃ e, result = .error e) :
    Ended rounds s (s, result) fun _ => .untouched where
  trace := fun id => (List.append_nil _).symm
  others := fun _ _ => rfl
  frame := fun _ _ => rfl
  outcomes := by
    intro hnone r hr id _
    simp [hnone _ (List.mem_map_of_mem hr)]
  failure := by
    rintro (hcount | ⟨id, hfailed⟩)
    · exact hfailure hcount
    · cases hfailed

/-- The fates of all plans from those of one round and of the rounds after it. -/
def combine (id : Option Uuid) (first : PlanFate) (rest : Uuid → PlanFate) (id' : Uuid) : PlanFate :=
  if id = some id' then first else rest id'

theorem cons {res : LoopState × Flow} {out : LoopState × Except String (Option Json)}
    {first : PlanFate} {rest : Uuid → PlanFate}
    (hends : Ends s r.planId r.phaseName first res)
    (hrest : Ended rounds res.1 out rest)
    (hids : r.planId = none ∨ r.planId ∉ rounds.map PhaseRound.planId)
    (hphase : r.phaseName ∉ rounds.map PhaseRound.phaseName)
    (hfail : (∃ e, res.2 = .fail e) → ∃ e, out.2 = .error e) :
    Ended (r :: rounds) s out (combine r.planId first rest) where
  trace := by
    intro id
    obtain ⟨events, hdispatched, htrace⟩ := hends.dispatched
    rw [hrest.trace id, hdispatched, lifecycleOf_append, htrace id, combine, List.append_assoc]
    split
    · rename_i hid
      -- The plan of this round gets nothing in the others.
      have hnone : rest id = .untouched := by
        refine hrest.others id ?_
        rw [← hid]
        rcases hids with hids | hids
        · rw [hids] at hid
          cases hid
        · exact hids
      rw [hnone]
      simp [PlanFate.trace]
    · rw [List.nil_append]
  others := by
    intro id hid
    rw [List.map_cons, List.mem_cons, not_or] at hid
    rw [combine, if_neg (fun h => hid.1 h.symm)]
    exact hrest.others id hid.2
  frame := by
    intro phase hmem
    rw [List.map_cons, List.mem_cons, not_or] at hmem
    rw [hrest.frame phase hmem.2]
    rcases hends.outcome with ⟨-, hsame⟩ | ⟨outcome, hupdate, -⟩
    · rw [hsame]
    · rw [hupdate, Function.update_of_ne hmem.1]
  outcomes := by
    intro hnone r' hr' id hid
    rcases List.mem_cons.mp hr' with rfl | hr'
    · rw [hrest.frame _ hphase, combine, if_pos hid]
      rcases hends.outcome with ⟨hne, hsame⟩ | ⟨outcome, hupdate, hiff⟩
      · rw [hsame, hnone _ (by simp)]
        simp [hne]
      · rw [hupdate, Function.update_self, Option.some.injEq]
        exact hiff
    · have hne : r.planId ≠ some id := by
        intro heq
        rcases hids with hids | hids
        · rw [hids] at heq
          cases heq
        · exact hids (List.mem_map.mpr ⟨r', hr', hid.trans heq.symm⟩)
      rw [combine, if_neg hne]
      refine hrest.outcomes (fun phase hmem => ?_) r' hr' id hid
      have hother : phase ≠ r.phaseName := by
        rintro rfl
        exact hphase hmem
      rcases hends.outcome with ⟨-, hsame⟩ | ⟨outcome, hupdate, -⟩
      · rw [hsame, hnone phase (by simp [hmem])]
      · rw [hupdate, Function.update_of_ne hother, hnone phase (by simp [hmem])]
  failure := by
    rintro (hcount | ⟨id, hfailed⟩)
    · exact hrest.failure (.inl (lt_of_lt_of_le hcount hends.grows))
    · unfold combine at hfailed
      split at hfailed
      · rcases hends.failure hfailed with herror | hless
        · exact hfail herror
        · exact hrest.failure (.inl (Nat.zero_lt_of_lt hless))
      · exact hrest.failure (.inr ⟨id, hfailed⟩)

end Ended

theorem LoopState.finish_error {s : LoopState} (path : Path) (h : 0 < s.failedPlanCount) :
    ∃ e, s.finish path = .error e :=
  ⟨_, if_pos h⟩

/-- The loop brings every plan to one fate. -/
theorem LoopState.phaseLoop_ended (ctx : PhaseContext) (path : Path) {rounds : List PhaseRound}
    (hids : (rounds.filterMap PhaseRound.planId).Nodup)
    (hphases : (rounds.map PhaseRound.phaseName).Nodup) (s : LoopState) :
    ∃ fate, Ended rounds s (phaseLoop ctx path rounds s) fate := by
  induction rounds generalizing s with
  | nil => exact ⟨_, Ended.stopped [] (finish_error path)⟩
  | cons r rounds ih =>
    obtain ⟨first, hends⟩ := s.phaseRound_ends ctx r
    obtain ⟨hphase, hphases⟩ := List.nodup_cons.mp hphases
    have hnew : r.planId = none ∨ r.planId ∉ rounds.map PhaseRound.planId := by
      cases hid : r.planId with
      | none => exact .inl rfl
      | some id =>
        rw [List.filterMap_cons_some hid, List.nodup_cons] at hids
        refine .inr fun hmem => hids.1 ?_
        obtain ⟨r', hr', hid'⟩ := List.mem_map.mp hmem
        exact List.mem_filterMap.mpr ⟨r', hr', hid'⟩
    have hids : (rounds.filterMap PhaseRound.planId).Nodup := by
      cases hid : r.planId with
      | none => rwa [List.filterMap_cons_none hid] at hids
      | some id =>
        rw [List.filterMap_cons_some hid] at hids
        exact (List.nodup_cons.mp hids).2
    unfold phaseLoop
    split
    · rename_i s' hround
      rw [hround] at hends
      obtain ⟨rest, hrest⟩ := ih hids hphases s'
      exact ⟨_, Ended.cons hends hrest hnew hphase nofun⟩
    · rename_i s' hround
      rw [hround] at hends
      exact ⟨_, Ended.cons hends (Ended.stopped rounds (finish_error path)) hnew hphase nofun⟩
    · rename_i s' e hround
      rw [hround] at hends
      exact ⟨_, Ended.cons hends (Ended.stopped rounds fun _ => ⟨e, rfl⟩) hnew hphase fun _ => ⟨e, rfl⟩⟩

/-! ## Pending operations -/

/-- The plan was begun, and not yet closed. -/
def InFlight (id : Uuid) (events : List Event) : Prop :=
  .planExecuting ∈ lifecycleOf id events ∧ .planCompleted ∉ lifecycleOf id events ∧
    .planFailed ∉ lifecycleOf id events

/-- The plan was neither begun nor closed. -/
def Unmoved (id : Uuid) (events : List Event) : Prop :=
  .planExecuting ∉ lifecycleOf id events ∧ .planCompleted ∉ lifecycleOf id events ∧
    .planFailed ∉ lifecycleOf id events

/-- Whether a plan is pending after an event of its lifecycle. -/
def pendingNext (before : Bool) : EventType → Bool
  | .planExecuting => true
  | .planCompleted | .planFailed => false
  | _ => before

theorem pendingAfter_append (storage : Nat → StoreReply) (ops : List PendingOperation)
    (events : List Event) (event : Event) :
    pendingAfter storage ops (events ++ [event]) =
      storeOnEvent (storage events.length) event (pendingAfter storage ops events) := by
  simp [pendingAfter, List.zipIdx_append]

theorem insertPendingOp_ids {op : PendingOperation} {ops : List PendingOperation} {id : Uuid} :
    (∃ op' ∈ insertPendingOp op ops, op'.id = id) ↔ op.id = id ∨ ∃ op' ∈ ops, op'.id = id := by
  simp only [insertPendingOp, List.mem_append, List.mem_singleton, Lib.Table.mem_delete]
  constructor
  · rintro ⟨op', ⟨hmem, -⟩ | rfl, hid⟩
    · exact .inr ⟨op', hmem, hid⟩
    · exact .inl hid
  · rintro (hid | ⟨op', hmem, hid⟩)
    · exact ⟨op, .inr rfl, hid⟩
    · by_cases h : op'.id = op.id
      · exact ⟨op, .inr rfl, h.symm.trans hid⟩
      · exact ⟨op', .inl ⟨hmem, h⟩, hid⟩

theorem deletePendingOp_ids {id id' : Uuid} {ops : List PendingOperation} :
    (∃ op ∈ deletePendingOp id' ops, op.id = id) ↔ id' ≠ id ∧ ∃ op ∈ ops, op.id = id := by
  simp only [deletePendingOp, Lib.Table.mem_delete]
  constructor
  · rintro ⟨op, ⟨hmem, hne⟩, rfl⟩
    exact ⟨Ne.symm hne, op, hmem, rfl⟩
  · rintro ⟨hne, op, hmem, rfl⟩
    exact ⟨op, ⟨hmem, Ne.symm hne⟩, rfl⟩

/-- One event, with a store that does what it is asked. -/
theorem storeOnEvent_ids {r : StoreReply} (hr : r.succeeds = true) (event : Event)
    (ops : List PendingOperation) (id : Uuid) :
    (∃ op ∈ storeOnEvent r event ops, op.id = id) ↔
      (lifecycleOf id [event]).foldl pendingNext (decide (∃ op ∈ ops, op.id = id)) = true := by
  simp only [StoreReply.succeeds, Bool.and_eq_true] at hr
  obtain ⟨⟨⟨hinserted, hstatus⟩, herror⟩, hdeleted⟩ := hr
  cases event with
  | planExecuting e =>
    simp only [storeOnEvent, hinserted, if_true, insertPendingOp_ids]
    by_cases h : e.planId = id <;>
      simp [lifecycleOf, Event.isLifecycle, planIdOf, Event.eventType, pendingNext, h]
  | planCompleted e =>
    simp only [storeOnEvent, hstatus, hdeleted, Bool.and_self, if_true, deletePendingOp_ids]
    by_cases h : e.planId = id <;>
      simp [lifecycleOf, Event.isLifecycle, planIdOf, Event.eventType, pendingNext, h]
  | planFailed e =>
    simp only [storeOnEvent, hstatus, herror, hdeleted, Bool.and_self, if_true, deletePendingOp_ids]
    by_cases h : e.planId = id <;>
      simp [lifecycleOf, Event.isLifecycle, planIdOf, Event.eventType, pendingNext, h]
  | planCreated plan =>
    by_cases h : plan.id = id <;>
      simp [storeOnEvent, lifecycleOf, Event.isLifecycle, planIdOf, Event.eventType, pendingNext, h]
  | planSkipped e =>
    by_cases h : e.planId = id <;>
      simp [storeOnEvent, lifecycleOf, Event.isLifecycle, planIdOf, Event.eventType, pendingNext, h]
  | _ => simp [storeOnEvent, lifecycleOf, Event.isLifecycle]

/-- Which plans are pending follows from their lifecycles. -/
theorem pendingAfter_ids {storage : Nat → StoreReply} (hstorage : ∀ n, (storage n).succeeds = true)
    (ops : List PendingOperation) (events : List Event) (id : Uuid) :
    (∃ op ∈ pendingAfter storage ops events, op.id = id) ↔
      (lifecycleOf id events).foldl pendingNext (decide (∃ op ∈ ops, op.id = id)) = true := by
  induction events using List.reverseRecOn with
  | nil => simp [pendingAfter]
  | append_singleton events event ih =>
    have hbefore : decide (∃ op ∈ pendingAfter storage ops events, op.id = id) =
        (lifecycleOf id events).foldl pendingNext (decide (∃ op ∈ ops, op.id = id)) := by
      rw [Bool.eq_iff_iff, decide_eq_true_eq]
      exact ih
    rw [pendingAfter_append, storeOnEvent_ids (hstorage _), lifecycleOf_append, List.foldl_append,
      hbefore]

/-- On the way through its trace a plan is pending while it is in flight. -/
theorem foldl_pendingNext {fate : PlanFate} {kinds : List EventType} (hkinds : kinds <+: fate.trace)
    (before : Bool) :
    kinds.foldl pendingNext before = true ↔
      (.planExecuting ∈ kinds ∧ .planCompleted ∉ kinds ∧ .planFailed ∉ kinds) ∨
        before = true ∧ .planExecuting ∉ kinds ∧ .planCompleted ∉ kinds ∧ .planFailed ∉ kinds := by
  rw [← List.mem_inits] at hkinds
  revert kinds before
  cases fate <;> decide

theorem lifecycleOf_prefix {events events' : List Event} (h : events <+: events') (id : Uuid) :
    lifecycleOf id events <+: lifecycleOf id events' :=
  (h.filter _).map _

/-- No trace leaves its plan in flight. -/
theorem not_inFlight_trace {fate : PlanFate} {id : Uuid} {events : List Event}
    (h : lifecycleOf id events = fate.trace) : ¬ InFlight id events := by
  unfold InFlight
  rw [h]
  cases fate <;> decide

/-! ## The lifecycle of every plan -/

theorem processSingleFileExecuteInner_ended (ctx : PhaseContext) (file : MediaFile)
    (changed : Option Json) {rounds : List PhaseRound}
    (hids : (rounds.filterMap PhaseRound.planId).Nodup)
    (hphases : (rounds.map PhaseRound.phaseName).Nodup) :
    ∃ fate, Ended rounds { currentFile := file }
      (processSingleFileExecuteInner ctx file changed rounds) fate := by
  unfold processSingleFileExecuteInner
  split
  · exact ⟨_, Ended.stopped rounds nofun⟩
  · exact LoopState.phaseLoop_ended ctx file.path hids hphases _

/-- Whatever the world answers: a plan gets one of five traces, the pending
operations are those that were there with the plans in flight, a failed plan makes
the function fail, and a phase counts as modified exactly if its plan completed. -/
theorem plan_lifecycles (ctx : PhaseContext) (file : MediaFile) (changed : Option Json)
    (rounds : List PhaseRound) (hids : (rounds.filterMap PhaseRound.planId).Nodup)
    (hphases : (rounds.map PhaseRound.phaseName).Nodup) (storage : Nat → StoreReply)
    (hstorage : ∀ n, (storage n).succeeds = true) (ops : List PendingOperation) :
    let out := processSingleFileExecuteInner ctx file changed rounds
    (∀ id, lifecycleOf id out.1.dispatched ∈
      [[], [.planFailed], [.planCreated, .planSkipped],
        [.planExecuting, .planCreated, .planCompleted],
        [.planExecuting, .planCreated, .planFailed]]) ∧
      (∀ events, events <+: out.1.dispatched → ∀ id,
        (∃ op ∈ pendingAfter storage ops events, op.id = id) ↔
          InFlight id events ∨ (∃ op ∈ ops, op.id = id) ∧ Unmoved id events) ∧
      (ops = [] → pendingAfter storage ops out.1.dispatched = []) ∧
      ((∃ id, .planFailed ∈ lifecycleOf id out.1.dispatched) → ∃ e, out.2 = .error e) ∧
      ∀ r ∈ rounds, ∀ plan, r.evaluated = .ok (some plan) →
        (out.1.phaseOutcomes r.phaseName = some (.executed true) ↔
          .planCompleted ∈ lifecycleOf plan.id out.1.dispatched) := by
  intro out
  obtain ⟨fate, hended⟩ := processSingleFileExecuteInner_ended ctx file changed hids hphases
  have htrace : ∀ id, lifecycleOf id out.1.dispatched = (fate id).trace := fun id => hended.trace id
  have hpending : ∀ events, events <+: out.1.dispatched → ∀ id,
      (∃ op ∈ pendingAfter storage ops events, op.id = id) ↔
        InFlight id events ∨ (∃ op ∈ ops, op.id = id) ∧ Unmoved id events := by
    intro events hprefix id
    have hkinds : lifecycleOf id events <+: (fate id).trace := by
      rw [← htrace id]
      exact lifecycleOf_prefix hprefix id
    rw [pendingAfter_ids hstorage, foldl_pendingNext hkinds, decide_eq_true_eq]
    exact Iff.rfl
  refine ⟨fun id => ?_, hpending, ?_, ?_, ?_⟩
  · rw [htrace id]
    cases fate id <;> simp [PlanFate.trace]
  · rintro rfl
    refine List.eq_nil_iff_forall_not_mem.mpr fun op hop => ?_
    rcases (hpending _ List.prefix_rfl op.id).mp ⟨op, hop, rfl⟩ with hflight | ⟨⟨op', hmem, -⟩, -⟩
    · exact not_inFlight_trace (htrace op.id) hflight
    · cases hmem
  · rintro ⟨id, hmem⟩
    rw [htrace id, PlanFate.planFailed_mem] at hmem
    exact hended.failure (.inr ⟨id, hmem⟩)
  · intro r hr plan heval
    rw [htrace plan.id, PlanFate.planCompleted_mem]
    refine hended.outcomes (fun _ _ => rfl) r hr plan.id ?_
    unfold PhaseRound.planId
    rw [heval]

/-! ## A policy of four phases -/

namespace SampleLoop

def file : MediaFile := { id := 7, path := ⟨["media", "film.mkv"]⟩ }

theorem title_checked : validateActionParams .setTitle (.title "A") = true := rfl

/-- The round of a plan with one action. -/
def round (phase : String) (id : Uuid) (skipReason : Option String) (results : List EventResult)
    (sizeIncrease : Option String) : PhaseRound where
  phaseName := phase
  evaluated := .ok (some
    { id, file, policyName := "p", phaseName := phase, skipReason,
      actions := [⟨.setTitle, none, .title "A", "Set title", title_checked⟩] })
  evaluated_phase := by
    intro plan h
    cases h
    rfl
  results
  sizeIncrease
  newFile := file

/-- One phase is skipped, one succeeds, one grows the file and one is not claimed. -/
def rounds : List PhaseRound :=
  [round "audio" 1 (some "nothing to do") [] none,
   round "video" 2 none [.planSucceeded "ffmpeg-executor"] none,
   round "subtitles" 3 none [.planSucceeded "mkvtoolnix-executor"] (some "output grew"),
   round "tags" 4 none [] none]

theorem four_plans :
    let out := processSingleFileExecuteInner ⟨false, 9⟩ file none rounds
    (∃ e, out.2 = .error e) ∧ out.1.phaseOutcomes "video" = some (.executed true) ∧
      lifecycleOf 1 out.1.dispatched = [.planCreated, .planSkipped] ∧
      lifecycleOf 2 out.1.dispatched = [.planExecuting, .planCreated, .planCompleted] ∧
      pendingAfter (fun _ => { now := 0 }) [] out.1.dispatched = [] := by
  obtain ⟨-, -, hempty, hfailed, houtcomes⟩ :=
    plan_lifecycles ⟨false, 9⟩ file none rounds (by decide) (by decide) (fun _ => { now := 0 })
      (fun _ => rfl) []
  refine ⟨hfailed ⟨3, by decide⟩, ?_, by decide, by decide, hempty rfl⟩
  exact (houtcomes (round "video" 2 none [.planSucceeded "ffmpeg-executor"] none) (by simp [rounds])
    _ rfl).mpr (by decide)

end SampleLoop

end Voom.Process
