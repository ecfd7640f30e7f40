-- SUMMARY: Both pools account for every job in the runs where no step drops one.
import Voom.JobManager.StreamAccounts

/-!
# No job left behind

The batch pool leaves a job pending if its task sees the token cancelled before
the claim, or if the claim fails. The streaming pool loses a job whose claim
fails, and its workers end early if the enqueuer counts a failure while they are
busy under the `fail` strategy; only a pool that ends cancelled sweeps such jobs.
In all other runs each job is accounted for.
-/

namespace Voom.JobManager

open Voom.Lib

/-! ## Why a worker exits -/

/-- A task that is about to cancel the pool. -/
def TaskPoint.stops : TaskPoint → Bool
  | .sending _ true | .stopping => true
  | _ => false

/-- The failure counter a worker has read before its job. -/
def WorkerPoint.preFailed : WorkerPoint → Option Nat
  | .running _ pre _ | .checking pre => some pre
  | _ => none

def WorkerPoint.stops : WorkerPoint → Bool
  | .running _ _ p => p.stops
  | _ => false

/-- A failure that does not stop the pool comes from its cancellation, or from a
strategy that goes on. -/
def TaskPoint.Calm (strategy : JobErrorStrategy) (cancelled : Bool) : TaskPoint → Prop
  | .start | .claiming => False
  | .cancelRead | .cancelWrite => cancelled = true
  | .counting r false => r.isFailure = true → cancelled = true ∨ strategy ≠ .fail
  | _ => True

section

variable {strategy : JobErrorStrategy} (capacity : Nat) (id : Uuid) (reply : Reply) {s : Shared}
  {p : TaskPoint}

theorem TaskPoint.Calm.mono {cancelled cancelled' : Bool} (h : p.Calm strategy cancelled)
    (hcancelled : cancelled = true → cancelled' = true) : p.Calm strategy cancelled' := by
  cases p with
  | start | claiming => exact h
  | cancelRead | cancelWrite => exact hcancelled h
  | counting r stop =>
    cases stop with
    | false => exact fun hr => (h hr).imp_left hcancelled
    | true => trivial
  | _ => trivial

theorem advance_calm (h : p.Calm strategy s.cancelled) :
    (advance strategy capacity id reply s p).1.Calm strategy
      (advance strategy capacity id reply s p).2.cancelled := by
  cases p with
  | start | claiming => exact h.elim
  | recheck =>
    simp only [advance]
    split
    · assumption
    · trivial
  | cancelRead =>
    simp only [advance]
    split
    · exact h
    · exact fun _ => .inl h
  | cancelWrite => exact fun _ => .inl h
  | processing =>
    simp only [advance]
    split <;> trivial
  | completing output => exact fun hr => by cases hr
  | failing error =>
    simp only [advance]
    by_cases hstrategy : strategy = .fail
    · simp only [hstrategy, decide_true]
      trivial
    · simp only [hstrategy, decide_false]
      exact fun _ => .inr hstrategy
  | counting r stop => trivial
  | sending r stop =>
    simp only [advance]
    (repeat' split) <;> trivial
  | stopping | finished => trivial

/-- Under `fail`, a counted failure stops the pool, or the pool is cancelled. -/
theorem advance_failed (hstrategy : strategy = .fail) (h : p.Calm strategy s.cancelled) :
    (advance strategy capacity id reply s p).2.counters.failed = s.counters.failed ∨
      (advance strategy capacity id reply s p).2.cancelled = true ∨
      (advance strategy capacity id reply s p).1.stops = true := by
  cases p with
  | start | claiming => exact h.elim
  | counting r stop =>
    cases stop with
    | true => exact .inr (.inr rfl)
    | false =>
      obtain ⟨job, outcome⟩ := r
      cases outcome with
      | failure error => exact .inr (.inl ((h rfl).resolve_right fun hne => hne hstrategy))
      | _ => exact .inl rfl
  | cancelRead | processing | sending =>
    refine .inl ?_
    simp only [advance]
    (repeat' split) <;> rfl
  | _ => exact .inl rfl

/-- A task about to cancel the pool still is, or has. -/
theorem advance_stops (strategy : JobErrorStrategy) (h : p.stops = true) :
    (advance strategy capacity id reply s p).2.cancelled = true ∨
      (advance strategy capacity id reply s p).1.stops = true := by
  cases p with
  | sending r stop =>
    obtain rfl : stop = true := by
      cases stop with
      | true => rfl
      | false => cases h
    simp only [advance]
    split <;> exact .inr rfl
  | stopping => exact .inl rfl
  | _ => cases h

end

namespace StreamState

/-- The token is cancelled, or a worker is about to cancel it. -/
def Halting (s : StreamState) : Prop :=
  s.shared.cancelled = true ∨ ∃ w ∈ s.workers, w.stops = true

/-- No claim fails, and under `fail` the enqueuer counts no failure while a worker
is busy. -/
structure Guarded (config : PoolConfig) (s : StreamState) (act : StreamAct) : Prop where
  claim : ∀ i reply id, act = .worker i reply → s.workers[i]? = some (.claiming id) →
    reply.claimError = none
  reject : config.strategy = .fail → ∀ reply r, act = .enqueuer reply → s.enqueuer = .counting r →
    ∀ w ∈ s.workers, w.preFailed = none

/-- A worker that exited leaves nothing to do, or the pool is halting. -/
structure Exits (config : PoolConfig) (s : StreamState) : Prop where
  workers : s.workers ≠ []
  idle : ∀ w ∈ s.workers, w = .idleCheck → s.producerDone = true
  calm : ∀ id pre p, .running id pre p ∈ s.workers → p.Calm config.strategy s.shared.cancelled
  busy : config.strategy = .fail → ∀ w ∈ s.workers, ∀ pre, w.preFailed = some pre →
    pre < s.shared.counters.failed → s.Halting
  exited : .exited ∈ s.workers → s.Halting ∨ s.producerDone = true ∧ s.heap = []
  dropped : s.stopped = false → s.dropped = []
  returned : s.main = .returned → s.stopped = false → s.heap = []

variable {config : PoolConfig} {start : Counters} {s s' : StreamState}

theorem Exits.workerMove (h : Exits config s) (hmain : s.main = .joining) {i : Nat}
    {w w' : WorkerPoint} (hi : s.workers[i]? = some w) {shared : Shared} {heap : List Entry}
    {retired : List Uuid}
    (hs' : s' = { s with shared, heap, retired, workers := s.workers.set i w' })
    (hcancelled : s.shared.cancelled = true → shared.cancelled = true)
    (hfailed : config.strategy = .fail → shared.counters.failed = s.shared.counters.failed ∨
      shared.cancelled = true ∨ w'.stops = true)
    (hstops : w.stops = true → shared.cancelled = true ∨ w'.stops = true)
    (hidle : w' = .idleCheck → s.producerDone = true)
    (hcalm : ∀ id pre p, w' = .running id pre p → p.Calm config.strategy shared.cancelled)
    (hbusy : ∀ pre, w'.preFailed = some pre → w.preFailed = some pre ∨
      shared.counters.failed ≤ pre)
    (hexited : w' = .exited → s.Halting ∨ s.producerDone = true ∧ s.heap = [])
    (hheap : s.heap = [] → heap = []) : Exits config s' := by
  have hhalting (hs : s.Halting) : s'.Halting := by
    subst hs'
    rcases hs with hs | ⟨v, hv, hstop⟩
    · exact .inl (hcancelled hs)
    · by_cases heq : v = w
      · subst heq
        exact (hstops hstop).imp_right fun hnew => ⟨w', Slots.mem_set_self hi, hnew⟩
      · exact .inr ⟨v, Slots.mem_set_of_ne hi hv heq, hstop⟩
  have hhalting_self (hs : shared.cancelled = true ∨ w'.stops = true) : s'.Halting := by
    subst hs'
    exact hs.imp_right fun hnew => ⟨w', Slots.mem_set_self hi, hnew⟩
  have hempty (hs : s.Halting ∨ s.producerDone = true ∧ s.heap = []) :
      s'.Halting ∨ s'.producerDone = true ∧ s'.heap = [] := by
    refine hs.imp hhalting fun hs => ?_
    subst hs'
    exact ⟨hs.1, hheap hs.2⟩
  have hmem {v : WorkerPoint} (hv : v ∈ s'.workers) : v ∈ s.workers ∨ v = w' := by
    subst hs'
    exact List.mem_or_eq_of_mem_set hv
  refine ⟨?_, fun v hv hidle' => ?_, fun id pre p hp => ?_, fun hfail v hv pre hpre hlt => ?_,
    fun hexit => ?_, ?_, fun hreturned => ?_⟩
  · subst hs'
    simpa using h.workers
  · have hdone : s.producerDone = true := by
      rcases hmem hv with hv | rfl
      · exact h.idle v hv hidle'
      · exact hidle hidle'
    subst hs'
    exact hdone
  · subst hs'
    rcases hmem hp with hp | hp
    · exact (h.calm id pre p hp).mono hcancelled
    · exact hcalm id pre p hp.symm
  · have hold : s'.shared.counters.failed = s.shared.counters.failed ∨ s'.Halting := by
      subst hs'
      exact (hfailed hfail).imp_right hhalting_self
    rcases hold with hsame | hhalts
    · rcases hmem hv with hv | rfl
      · exact hhalting (h.busy hfail v hv pre hpre (hsame ▸ hlt))
      · rcases hbusy pre hpre with hold | hle
        · exact hhalting (h.busy hfail w (List.mem_of_getElem? hi) pre hold (hsame ▸ hlt))
        · subst hs'
          exact absurd hlt (Nat.not_lt.mpr hle)
    · exact hhalts
  · rcases hmem hexit with hexit | hexit
    · exact hempty (h.exited hexit)
    · exact hempty (hexited hexit.symm)
  · subst hs'
    exact h.dropped
  · subst hs'
    rw [hmain] at hreturned
    cases hreturned

/-- A worker that goes on without touching anything shared. -/
theorem Exits.workerIdle (h : Exits config s) (hmain : s.main = .joining) {i : Nat}
    {w w' : WorkerPoint} (hi : s.workers[i]? = some w) (hstops : w.stops = false)
    (hidle : w' = .idleCheck → s.producerDone = true)
    (hcalm : ∀ id pre p, w' = .running id pre p → p.Calm config.strategy s.shared.cancelled)
    (hbusy : ∀ pre, w'.preFailed = some pre → s.shared.counters.failed ≤ pre)
    (hexited : w' = .exited → s.Halting ∨ s.producerDone = true ∧ s.heap = []) :
    Exits config (s.setWorker i w') := by
  refine h.workerMove hmain hi rfl (fun h => h) (fun _ => .inl rfl) (fun hs => ?_) hidle hcalm
    (fun pre hpre => .inr (hbusy pre hpre)) hexited fun h => h
  rw [hstops] at hs
  cases hs

theorem Exits.workerStep (h : Exits config s) (hinv : Inv start s) (hmain : s.main = .joining)
    {i : Nat} {reply : Reply} (hguard : Guarded config s (.worker i reply)) :
    Exits config (s.workerStep config i reply) := by
  unfold StreamState.workerStep
  split
  case h_1 => exact h
  case h_2 hi =>
    split
    · exact h.workerIdle hmain hi rfl nofun nofun nofun fun _ => .inl (.inl ‹_›)
    · exact h.workerIdle hmain hi rfl nofun nofun nofun nofun
  case h_3 hi =>
    split
    · exact h.workerIdle hmain hi rfl nofun nofun nofun fun _ => .inl (.inl ‹_›)
    · exact h
  case h_4 hi =>
    split
    · exact h.workerIdle hmain hi rfl nofun nofun nofun fun _ => .inl (.inl ‹_›)
    · exact h.workerIdle hmain hi rfl nofun nofun nofun nofun
  case h_5 hi =>
    split
    · exact h.workerIdle hmain hi rfl nofun nofun nofun nofun
    · rename_i e heap hheap
      refine h.workerMove hmain hi rfl (fun h => h) (fun _ => .inl rfl) nofun nofun nofun nofun
        nofun fun hempty => ?_
      rw [hempty] at hheap
      cases hheap
  case h_6 hi =>
    split
    · exact h.workerIdle hmain hi rfl (fun _ => ‹_›) nofun nofun nofun
    · exact h.workerIdle hmain hi rfl nofun nofun nofun nofun
  case h_7 hi =>
    split
    · rename_i hempty
      have hdone := h.idle _ (List.mem_of_getElem? hi) rfl
      exact h.workerIdle hmain hi rfl nofun nofun nofun
        fun _ => .inr ⟨hdone, List.isEmpty_iff.mp hempty⟩
    · exact h.workerIdle hmain hi rfl nofun nofun nofun nofun
  case h_8 id hi =>
    -- The job is pending, so a claim that does not fail gets it.
    have hid : id ∈ s.enqueued := hinv.mem_of_holds (List.mem_of_getElem? hi) rfl
    have hpending := (hinv.placed id hid).workers _ (List.mem_of_getElem? hi) rfl
    obtain ⟨job, -, hclaim⟩ := QueueState.claimJobById_of_pending
      (congrArg Account.status hpending) reply.worker reply.now
    rw [hguard.claim i reply id rfl hi, hclaim]
    exact h.workerMove hmain hi rfl (fun h => h) (fun _ => .inl rfl) nofun nofun nofun nofun nofun
      fun h => h
  case h_9 id hi =>
    refine h.workerIdle hmain hi rfl nofun (fun id pre p heq => ?_) (fun pre hpre => ?_) nofun
    · cases heq
      trivial
    · cases hpre
      exact le_refl _
  case h_10 id pre p hi =>
    have hcalm := h.calm id pre p (List.mem_of_getElem? hi)
    have hcalm' := advance_calm s.capacity id reply hcalm
    have hcancelled (hs : s.shared.cancelled = true) :=
      advance_cancelled config.strategy s.capacity id reply p hs
    have hfailed (hfail : config.strategy = .fail) :=
      advance_failed s.capacity id reply hfail hcalm
    have hstops (hs : p.stops = true) :=
      advance_stops s.capacity id reply config.strategy (s := s.shared) hs
    generalize advance config.strategy s.capacity id reply s.shared p = next at *
    obtain ⟨p', shared⟩ := next
    simp only at hcalm' hcancelled hfailed hstops ⊢
    split
    · rename_i hfinished
      have hnot : p'.stops = true → shared.cancelled = true ∨ false = true := by
        cases p' with
        | finished => exact nofun
        | _ => cases hfinished
      refine h.workerMove hmain hi rfl hcancelled (fun hfail => ?_) (fun hs => ?_) nofun nofun ?_
        nofun fun h => h
      · exact (hfailed hfail).imp_right fun hs => hs.elim .inl hnot
      · exact (hstops hs).elim .inl hnot
      · exact fun _ hpre => .inl hpre
    · refine h.workerMove hmain hi rfl hcancelled hfailed hstops nofun (fun id pre p heq => ?_) ?_
        nofun fun h => h
      · cases heq
        exact hcalm'
      · exact fun _ hpre => .inl hpre
  case h_11 pre hi =>
    split
    · rename_i hfail
      exact h.workerIdle hmain hi rfl nofun nofun nofun
        fun _ => .inl (h.busy hfail.1 _ (List.mem_of_getElem? hi) pre rfl hfail.2)
    · exact h.workerIdle hmain hi rfl nofun nofun nofun nofun
  case h_12 => exact h

theorem Exits.enqueuerStep (h : Exits config s) (hinv : Inv start s) (hmain : s.main = .joining)
    {reply : MainReply} (hguard : Guarded config s (.enqueuer reply)) :
    Exits config (s.enqueuerStep reply) := by
  have hclosed (hdone : s.producerDone = true) : s.enqueuer = .done := hinv.producer.mp hdone
  -- A step that only moves the enqueuer, its input and its own job.
  have hmove {s' : StreamState} (hworkers : s'.workers = s.workers)
      (hcancelled : s'.shared.cancelled = s.shared.cancelled)
      (hfailed : s'.shared.counters.failed = s.shared.counters.failed ∨
        config.strategy ≠ .fail ∨ ∀ w ∈ s.workers, w.preFailed = none)
      (hdone : s.producerDone = true → s'.producerDone = true)
      (hheap : s.producerDone = true → s'.heap = s.heap)
      (hrest : (s'.dropped, s'.stopped, s'.main) = (s.dropped, s.stopped, s.main)) :
      Exits config s' := by
    simp only [Prod.mk.injEq] at hrest
    have hhalting : s'.Halting ↔ s.Halting := by
      unfold Halting
      rw [hworkers, hcancelled]
    refine ⟨hworkers ▸ h.workers, ?_, ?_, fun hfail w hw pre hpre hlt => ?_, fun hexit => ?_, ?_, ?_⟩
    · rw [hworkers]
      exact fun w hw hidle => hdone (h.idle w hw hidle)
    · rw [hworkers, hcancelled]
      exact h.calm
    · rw [hworkers] at hw
      rw [hhalting]
      rcases hfailed with hsame | hne | hnone
      · exact h.busy hfail w hw pre hpre (hsame ▸ hlt)
      · exact absurd hfail hne
      · rw [hnone w hw] at hpre
        cases hpre
    · rw [hhalting]
      refine (h.exited (hworkers ▸ hexit)).imp_right fun hend => ⟨hdone hend.1, ?_⟩
      rw [hheap hend.1]
      exact hend.2
    · rw [hrest.1, hrest.2.1]
      exact h.dropped
    · rw [hrest.2.2, hmain]
      exact nofun
  unfold StreamState.enqueuerStep
  split
  case h_1 =>
    split
    · exact hmove rfl rfl (.inl rfl) (fun h => h) (fun _ => rfl) rfl
    · (repeat' split) <;>
        first
        | exact h
        | exact hmove rfl rfl (.inl rfl) (fun h => h) (fun _ => rfl) rfl
  case h_2 r hcounting =>
    refine hmove rfl rfl (.inr ?_) (fun h => h) (fun _ => rfl) rfl
    by_cases hfail : config.strategy = .fail
    · exact .inr (hguard.reject hfail reply r rfl hcounting)
    · exact .inl hfail
  case h_3 =>
    split
    · exact hmove rfl rfl (.inl rfl) (fun h => h) (fun _ => rfl) rfl
    · exact h
  case h_4 priority id hpushing =>
    refine hmove rfl rfl (.inl rfl) (fun h => h) (fun hdone => ?_) rfl
    rw [hclosed hdone] at hpushing
    cases hpushing
  case h_5 => exact hmove rfl rfl (.inl rfl) (fun h => h) (fun _ => rfl) rfl
  case h_6 => exact hmove rfl rfl (.inl rfl) (fun _ => rfl) (fun _ => rfl) rfl
  case h_7 => exact h

/-- A step of the pool itself: it finds the token cancelled, or that no work is
left. -/
theorem Exits.mainStep (h : Exits config s) (hinv : Inv start s) (now : String) :
    Exits config (s.mainStep now) := by
  have hmove {p : StreamPoint} (hreturned : p = .returned → s.stopped = false → s.heap = []) :
      Exits config { s with main := p } :=
    ⟨h.workers, h.idle, h.calm, h.busy, h.exited, h.dropped, hreturned⟩
  have hmatches := hinv.main
  unfold StreamState.mainStep
  split
  case h_1 =>
    split
    · exact hmove nofun
    · exact h
  case h_2 hmain =>
    rw [hmain] at hmatches
    split
    · rename_i hcancelled
      exact ⟨h.workers, h.idle, h.calm, fun _ _ _ _ _ _ => .inl hcancelled,
        fun _ => .inl (.inl hcancelled), nofun, nofun⟩
    · rename_i hrunning
      refine hmove fun _ _ => ?_
      obtain ⟨-, -, hworkers, -⟩ := hmatches
      obtain ⟨w, hw⟩ := List.exists_mem_of_ne_nil _ h.workers
      rcases h.exited (hworkers w hw ▸ hw) with hhalting | hend
      · rcases hhalting with hcancelled | ⟨v, hv, hstops⟩
        · exact absurd hcancelled hrunning
        · rw [hworkers v hv] at hstops
          cases hstops
      · exact hend.2
  case h_3 => exact hmove nofun
  case h_4 hmain =>
    rw [hmain] at hmatches
    exact hmove fun _ hstopped => absurd (hstopped.symm.trans hmatches.1.2.2) nofun
  case h_5 =>
    split <;> exact hmove nofun
  case h_6 => exact ⟨h.workers, h.idle, h.calm, h.busy, h.exited, h.dropped, nofun⟩
  case h_7 => exact h

theorem Exits.step (h : Exits config s) (hinv : Inv start s) {act : StreamAct}
    (hguard : Guarded config s act) : Exits config (s.step config act) := by
  cases act with
  | produce item =>
    simp only [StreamState.step]
    split
    · exact h
    · exact ⟨h.workers, h.idle, h.calm, h.busy, h.exited, h.dropped, h.returned⟩
  | close => exact ⟨h.workers, h.idle, h.calm, h.busy, h.exited, h.dropped, h.returned⟩
  | cancel =>
    exact ⟨h.workers, h.idle, fun id pre p hp => (h.calm id pre p hp).mono fun _ => rfl,
      fun _ _ _ _ _ _ => .inl rfl, fun _ => .inl (.inl rfl), h.dropped, h.returned⟩
  | main now => exact h.mainStep hinv now
  | enqueuer reply =>
    by_cases hmain : s.main = .joining
    · exact h.enqueuerStep hinv hmain hguard
    · rw [(hinv.joined hmain).step_eq (.inl ⟨reply, rfl⟩)]
      exact h
  | worker i reply =>
    by_cases hmain : s.main = .joining
    · exact h.workerStep hinv hmain hguard
    · rw [(hinv.joined hmain).step_eq (.inr (.inl ⟨i, reply, rfl⟩))]
      exact h
  | notify =>
    have hwake {w : WorkerPoint} (hw : w ∈ s.notify.workers) (hne : w ≠ .looping) : w ∈ s.workers := by
      obtain ⟨old, hold, rfl⟩ := List.mem_map.mp hw
      cases old with
      | waiting => exact absurd rfl hne
      | _ => exact hold
    have hhalting (hs : s.Halting) : s.notify.Halting := by
      refine hs.imp_right ?_
      rintro ⟨w, hw, hstops⟩
      refine ⟨w.wake, List.mem_map_of_mem hw, ?_⟩
      cases w with
      | running id pre p => exact hstops
      | _ => cases hstops
    refine ⟨?_, fun w hw hidle => ?_, fun id pre p hp => ?_, fun hfail w hw pre hpre hlt => ?_,
      fun hexit => ?_, h.dropped, h.returned⟩
    · simpa [StreamState.step, StreamState.notify] using h.workers
    · exact h.idle w (hwake hw (by rw [hidle]; rintro ⟨⟩)) hidle
    · exact h.calm id pre p (hwake hp (by rintro ⟨⟩))
    · refine hhalting (h.busy hfail w (hwake hw ?_) pre hpre hlt)
      rintro rfl
      cases hpre
    · exact (h.exited (hwake hexit (by rintro ⟨⟩))).imp_left hhalting
  | collect =>
    have hsame : s.shared.receive.cancelled = s.shared.cancelled ∧
        s.shared.receive.counters = s.shared.counters := by
      unfold Shared.receive
      split <;> exact ⟨rfl, rfl⟩
    have hhalting (hs : s.Halting) : (s.step config .collect).Halting :=
      hs.imp_left fun hs => hsame.1.trans hs
    refine ⟨h.workers, h.idle, fun id pre p hp => ?_, fun hfail w hw pre hpre hlt => ?_,
      fun hexit => (h.exited hexit).imp_left hhalting, h.dropped, h.returned⟩
    · exact (h.calm id pre p hp).mono fun hs => hsame.1.trans hs
    · refine hhalting (h.busy hfail w hw pre hpre ?_)
      simp only [StreamState.step, hsame.2] at hlt
      exact hlt

theorem initial_exits (config : PoolConfig) (hworkers : 0 < config.workers) (queue : QueueState)
    (counters : Counters) (cancelled : Bool) :
    Exits config (initial config queue counters cancelled) := by
  have hspawned {w : WorkerPoint} (hw : w ∈ (initial config queue counters cancelled).workers) :
      w = .spawned :=
    List.eq_of_mem_replicate hw
  refine ⟨?_, fun w hw hidle => ?_, fun id pre p hp => ?_, fun _ w hw pre hpre => ?_, fun hexit => ?_,
    fun _ => rfl, fun h => nomatch h⟩
  · simp [initial, Nat.ne_of_gt hworkers]
  · rw [hspawned hw] at hidle
    cases hidle
  · cases hspawned hp
  · rw [hspawned hw] at hpre
    cases hpre
  · cases hspawned hexit

end StreamState

/-! ## Both pools -/

/-- Every job of every batch and stream is accounted for, unless a step drops one. -/
theorem no_job_left_behind (config : PoolConfig) (hworkers : 0 < config.workers) (queue : QueueState)
    (counters : Counters) (cancelled : Bool) :
    (∀ items acts,
      let s := BatchState.initial items queue counters cancelled
      let s' := s.run config acts
      Along (BatchState.step config) BatchState.FreshIds s acts →
      Along (BatchState.step config) BatchState.Guarded s acts → s'.main = .returned →
      Accounted counters s'.shared.queue s'.enqueued s'.swept s'.shared.received
        s'.shared.counters) ∧
    ∀ acts,
      let s := StreamState.initial config queue counters cancelled
      let s' := s.run config acts
      Along (StreamState.step config) StreamState.FreshIds s acts →
      Along (StreamState.step config) (StreamState.Guarded config) s acts ∨ s'.stopped = true →
      s'.main = .returned →
      Accounted counters s'.shared.queue s'.enqueued s'.swept s'.shared.received
        s'.shared.counters := by
  refine ⟨fun items acts hfresh hguard hreturned => ?_, fun acts hfresh hguard hreturned => ?_⟩
  · have hinv : BatchState.Inv counters
        ((BatchState.initial items queue counters cancelled).run config acts) :=
      Along.invariant (fun _ _ hs h => hs.step h.1 h.2) (BatchState.initial_inv items _ _ _)
        (hfresh.and hguard)
    exact hinv.accounted hreturned
  · have hinv : StreamState.Inv counters
        ((StreamState.initial config queue counters cancelled).run config acts) :=
      Along.invariant (fun _ _ hs h => hs.step h) (StreamState.initial_inv config _ _ _) hfresh
    refine hinv.accounted hreturned fun hstopped => ?_
    have hstep (s : StreamState) (act : StreamAct)
        (hs : StreamState.Inv counters s ∧ StreamState.Exits config s)
        (h : StreamState.FreshIds s act ∧ StreamState.Guarded config s act) :
        StreamState.Inv counters (s.step config act) ∧ StreamState.Exits config (s.step config act) :=
      ⟨hs.1.step h.1, hs.2.step hs.1 h.2⟩
    have hexits := (Along.invariant hstep
      ⟨StreamState.initial_inv config queue counters cancelled,
        StreamState.initial_exits config hworkers queue counters cancelled⟩
      (hfresh.and (hguard.resolve_right (by simp [hstopped])))).2
    exact ⟨hexits.returned hreturned hstopped, hexits.dropped hstopped⟩

namespace SamplePool

/-- One worker, which goes on after a failure. -/
def config : PoolConfig := { workers := 1, strategy := .continue }

/-- The pool stores a job; a result without a job would be 9. -/
def storesJob (id : Uuid) (now : String) : MainReply := { stored := .ok id, failureId := 9, now }

/-- A reply to a step that stores nothing. -/
def later : MainReply := { stored := .error "", failureId := 9 }

/-- A batch of two jobs, one after the other. -/
def pair : List BatchAct :=
  [.main (storesJob 1 "10:00"), .main (storesJob 2 "10:01")] ++
    (List.replicate 2 (.main later) ++ List.replicate 7 (.task 1 {}) ++ [.main later] ++
      List.replicate 7 (.task 2 {}) ++ List.replicate 4 (.main later))

def pairState (first second : Int) : BatchState :=
  .initial [{ priority := first }, { priority := second }] {} {} false

/-- The token is cancelled after the task is spawned and before it checks. -/
def cancelledEarly : List BatchAct :=
  [.main (storesJob 1 "10:00"), .main later, .main later, .cancel] ++
    List.replicate 3 (.task 1 {}) ++ [.main later, .main later, .main later]

/-- A stream of two jobs, the second the more urgent: they are pushed, the gate opens, the worker
runs them and finds the heap empty. -/
def stream : List StreamAct :=
  [.produce {}, .produce { priority := 10 }, .close, .enqueuer (storesJob 1 "10:00")] ++
    List.replicate 2 (.enqueuer later) ++ [.enqueuer (storesJob 2 "10:01")] ++
    List.replicate 4 (.enqueuer later) ++ [.worker 0 {}, .notify] ++
    List.replicate 24 (.worker 0 {}) ++ [.collect, .collect, .main "", .main ""]

theorem pair_fresh (first second : Int) :
    Along (BatchState.step config) BatchState.FreshIds (pairState first second) pair := by
  refine ⟨?_, ?_, ?_, BatchState.fresh_of_enqueued nofun⟩
  · rintro items ids -
    exact ⟨fun id h => by cases h; rfl, rfl⟩
  · rintro items ids -
    exact ⟨fun id h => by cases h; rfl, rfl⟩
  · rintro items ids -
    exact ⟨nofun, rfl⟩

theorem pair_claims {id : Uuid} {reply : Reply} (hact : .task id reply ∈ pair) :
    reply.claimError = none := by
  simp only [pair, List.mem_append, List.mem_cons, List.mem_replicate, BatchAct.task.injEq,
    reduceCtorEq, List.not_mem_nil] at hact
  obtain rfl : reply = {} := by tauto
  rfl

theorem pair_guarded :
    Along (BatchState.step config) BatchState.Guarded (pairState 10 100) pair := by
  have hend : ((pairState 10 100).run config pair).shared.cancelled = false := by decide
  have hrunning : Along (BatchState.step config) (fun s _ => s.shared.cancelled = false)
      (pairState 10 100) pair := by
    refine Along.of_end (fun s act h => ?_) hend
    by_contra hcancelled
    rw [BatchState.cancelled_step act (by simpa using hcancelled)] at h
    cases h
  refine Along.mono (fun s act h => ⟨fun _ _ _ _ => h.1, fun id reply heq _ => ?_⟩)
    (hrunning.and (Along.of_forall_mem (P := fun _ act => act ∈ pair) (fun act hact _ => hact) _))
  exact pair_claims (heq ▸ h.2)

theorem stream_claims {i : Nat} {reply : Reply} (hact : .worker i reply ∈ stream) :
    reply.claimError = none := by
  simp only [stream, List.mem_append, List.mem_cons, List.mem_replicate, StreamAct.worker.injEq,
    reduceCtorEq, List.not_mem_nil] at hact
  obtain rfl : reply = {} := by tauto
  rfl

theorem stream_guarded :
    Along (StreamState.step config) (StreamState.Guarded config) (.initial config {} {} false)
      stream :=
  Along.of_forall_mem (fun _ hact _ => ⟨fun _ _ _ heq _ => stream_claims (heq ▸ hact), nofun⟩) _

theorem stream_fresh :
    Along (StreamState.step config) StreamState.FreshIds (.initial config {} {} false) stream := by
  refine ⟨trivial, trivial, trivial, ?_, ?_, ?_, ?_, ?_, ?_, ?_, ?_, ?_⟩
  · exact fun _ => ⟨fun id h => by cases h; rfl, rfl⟩
  · exact fun _ => ⟨nofun, rfl⟩
  · exact fun _ => ⟨nofun, rfl⟩
  · exact fun _ => ⟨fun id h => by cases h; rfl, rfl⟩
  · exact fun _ => ⟨nofun, rfl⟩
  · exact fun _ => ⟨nofun, rfl⟩
  · exact fun _ => ⟨nofun, rfl⟩
  · exact fun _ => ⟨nofun, rfl⟩
  · refine Along.of_forall_mem (fun act hact s => ?_) _
    cases act with
    | enqueuer reply => simp at hact
    | _ => trivial

/-- Two jobs of either pool come to their end. -/
theorem all_accounted :
    (let s := (pairState 10 100).run config pair;
      s.enqueued = [1, 2] ∧
      Accounted {} s.shared.queue s.enqueued s.swept s.shared.received s.shared.counters) ∧
    (let s := (StreamState.initial config {} {} false).run config stream;
      s.enqueued = [1, 2] ∧
      Accounted {} s.shared.queue s.enqueued s.swept s.shared.received s.shared.counters) := by
  have hpools := no_job_left_behind config (by decide) {} {} false
  exact ⟨⟨by decide, hpools.1 _ pair (pair_fresh 10 100) pair_guarded rfl⟩,
    by decide, hpools.2 stream stream_fresh (.inl stream_guarded) rfl⟩

theorem cancelledEarly_fresh :
    Along (BatchState.step config) BatchState.FreshIds (.initial [{}] {} {} false)
      cancelledEarly := by
  refine ⟨?_, ?_, BatchState.fresh_of_enqueued nofun⟩
  · rintro items ids -
    exact ⟨fun id h => by cases h; rfl, rfl⟩
  · rintro items ids -
    exact ⟨nofun, rfl⟩

/-- The task reports a failure and leaves its job pending. -/
theorem cancelledEarly_leaves_job :
    let s := BatchState.initial [{}] {} {} false
    let s' := s.run config cancelledEarly
    Along (BatchState.step config) BatchState.FreshIds s cancelledEarly ∧ s'.main = .returned ∧
      ¬ Accounted {} s'.shared.queue s'.enqueued s'.swept s'.shared.received s'.shared.counters := by
  refine ⟨cancelledEarly_fresh, rfl, fun h => ?_⟩
  obtain ⟨status, hstatus, hterminal⟩ := h.settled 1 (by decide)
  have hpending : ((BatchState.initial [{}] {} {} false).run config
      cancelledEarly).shared.queue.statusOf 1 = some .pending := by decide
  rw [hpending] at hstatus
  cases hstatus
  cases hterminal

end SamplePool

end Voom.JobManager
