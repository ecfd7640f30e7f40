-- SUMMARY: Every job of the streaming pool is in one place, with the account that goes with it.
import Voom.JobManager.Stream
import Voom.Lib.Slots

/-!
# Accounts of the streaming pool

A job that was enqueued is held by the enqueuer, in the heap, held by a worker,
dropped, or retired, and in one of these only. `Inv` says what its account is
there; every step keeps it, whatever claims fail and whenever the token is
cancelled.
-/

namespace Voom.JobManager

open Voom.Lib

/-- The job the enqueuer has stored and not pushed yet. -/
def EnqueuerPoint.holding : EnqueuerPoint → Option Uuid
  | .pushing _ id => some id
  | _ => none

/-- The job the enqueuer has stored and not recorded yet. -/
def EnqueuerPoint.unrecorded : EnqueuerPoint → Option Uuid
  | .pushing _ id | .recording id => some id
  | _ => none

/-- The job a worker has taken from the heap. -/
def WorkerPoint.holding : WorkerPoint → Option Uuid
  | .claiming id | .claimed id | .running id _ _ => some id
  | _ => none

/-- The account of the job a worker holds. -/
def WorkerPoint.Matches (id : Uuid) (a : Account) : WorkerPoint → Prop
  | .claiming _ => a = ⟨some .pending, [], []⟩
  | .claimed _ => a = ⟨some .running, [], []⟩
  | .running _ _ p => p.isClaimed = true ∧ p.isFinished = false ∧ p.Matches id a
  | _ => True

namespace StreamState

/-- The workers that hold a job. -/
def holders (s : StreamState) (id : Uuid) : Nat := s.workers.countP (·.holding = some id)

/-- How often a job is in some place. -/
def held (s : StreamState) (id : Uuid) : Nat :=
  (if s.enqueuer.holding = some id then 1 else 0) + (s.heap.map Entry.id).count id +
    s.holders id + s.dropped.count id + s.retired.count id

/-- The account of a job is right wherever the job is. -/
structure Placed (s : StreamState) (id : Uuid) : Prop where
  enqueuer : s.enqueuer.holding = some id → s.shared.account id = ⟨some .pending, [], []⟩
  heap : id ∈ s.heap.map Entry.id → s.shared.account id = ⟨some .pending, [], []⟩
  workers : ∀ w ∈ s.workers, w.holding = some id → w.Matches id (s.shared.account id)
  dropped : id ∈ s.dropped →
    s.shared.account id = ⟨some .pending, [], []⟩ ∧ id ∉ s.swept ∨
      s.shared.account id = ⟨some .cancelled, [], []⟩ ∧ id ∈ s.swept
  retired : id ∈ s.retired → (s.shared.account id).Closed id

/-- All tasks have ended, and their results are collected. -/
def Joined (s : StreamState) : Prop :=
  s.enqueuer = .done ∧ (∀ w ∈ s.workers, w = .exited) ∧ s.shared.channel = []

/-- The sweep has begun. -/
def Sweeping (s : StreamState) : Prop := s.Joined ∧ s.heap = [] ∧ s.stopped = true

/-- A result of the enqueuer itself is not of any job. -/
def EnqueuerMatches (s : StreamState) : EnqueuerPoint → Prop
  | .counting r => s.shared.account r.jobId = ⟨none, [], []⟩
  | .sending r => s.shared.account r.jobId = ⟨none, [r], []⟩
  | _ => True

/-- The sweep goes through all jobs that were dropped and not swept yet. -/
def MainMatches (s : StreamState) : StreamPoint → Prop
  | .joining => s.stopped = false
  | .checkToken => s.stopped = false ∧ s.Joined
  | .listing => s.Sweeping
  | .sweeping ids => s.Sweeping ∧ ids ⊆ s.enqueued ∧ ∀ id ∈ s.dropped, id ∉ s.swept → id ∈ ids
  | .sweepWrite id ids => s.Sweeping ∧ ids ⊆ s.enqueued ∧ id ∈ s.dropped ∧ id ∉ s.swept ∧
      ∀ other ∈ s.dropped, other ∉ s.swept → other ∈ id :: ids
  | .returned => s.Joined ∧
      (s.stopped = true → s.heap = [] ∧ ∀ id ∈ s.dropped, id ∈ s.swept)

structure Inv (start : Counters) (s : StreamState) : Prop where
  places : ∀ id, s.enqueued.count id = s.held id
  nodup : s.enqueued.Nodup
  placed : ∀ id ∈ s.enqueued, s.Placed id
  recorded : ∀ id, id ∈ s.enqueued ↔ id ∈ s.enqueuedIds ∨ s.enqueuer.unrecorded = some id
  rejected : s.EnqueuerMatches s.enqueuer
  strangers : ∀ id, id ∉ s.enqueued → (∀ r, s.enqueuer = .sending r → r.jobId ≠ id) →
    (s.shared.account id).counted = (s.shared.account id).sent
  counters : start.Fit s.shared.counted s.shared.counters
  producer : s.producerDone = true ↔ s.enqueuer = .done
  main : s.MainMatches s.main
  swept : s.stopped = false → s.swept = []

variable {config : PoolConfig} {start : Counters} {s s' : StreamState} {id : Uuid}

theorem holders_pos {w : WorkerPoint} (hw : w ∈ s.workers) (hholds : w.holding = some id) :
    0 < s.holders id :=
  List.countP_pos_iff.mpr ⟨w, hw, decide_eq_true hholds⟩

/-- What does not involve a job leaves it placed. -/
theorem Placed.frame (h : s.Placed id) (haccount : s'.shared.account id = s.shared.account id)
    (henqueuer : s'.enqueuer.holding = some id → s.enqueuer.holding = some id)
    (hheap : id ∈ s'.heap.map Entry.id → id ∈ s.heap.map Entry.id)
    (hworkers : ∀ w ∈ s'.workers, w.holding = some id → w ∈ s.workers)
    (hdropped : id ∈ s'.dropped → id ∈ s.dropped) (hswept : id ∈ s'.swept ↔ id ∈ s.swept)
    (hretired : id ∈ s'.retired → id ∈ s.retired) : s'.Placed id := by
  refine ⟨fun hin => ?_, fun hin => ?_, fun w hw hin => ?_, fun hin => ?_, fun hin => ?_⟩
  · rw [haccount]
    exact h.enqueuer (henqueuer hin)
  · rw [haccount]
    exact h.heap (hheap hin)
  · rw [haccount]
    exact h.workers w (hworkers w hw hin) hin
  · rw [haccount, hswept]
    exact h.dropped (hdropped hin)
  · rw [haccount]
    exact h.retired (hretired hin)

/-- A job that was enqueued is somewhere. -/
theorem Inv.place (h : Inv start s) (hid : id ∈ s.enqueued) :
    s.enqueuer.holding = some id ∨ id ∈ s.heap.map Entry.id ∨
      (∃ w ∈ s.workers, w.holding = some id) ∨ id ∈ s.dropped ∨ id ∈ s.retired := by
  have hpos : 0 < s.held id := h.places id ▸ List.count_pos_iff.mpr hid
  by_contra hnone
  simp only [not_or] at hnone
  obtain ⟨henqueuer, hheap, hworkers, hdropped, hretired⟩ := hnone
  have hworkers' : s.holders id = 0 := by
    rw [holders, List.countP_eq_zero]
    exact fun w hw hholds => hworkers ⟨w, hw, of_decide_eq_true hholds⟩
  simp only [held, if_neg henqueuer, List.count_eq_zero_of_not_mem hheap, hworkers',
    List.count_eq_zero_of_not_mem hdropped, List.count_eq_zero_of_not_mem hretired] at hpos
  omega

/-- A job that is somewhere was enqueued. -/
theorem Inv.mem_of_held (h : Inv start s) (hpos : 0 < s.held id) : id ∈ s.enqueued := by
  rw [← h.places id] at hpos
  exact List.count_pos_iff.mp hpos

theorem Inv.not_swept (h : Inv start s) (hmain : s.main = .joining) (id : Uuid) : id ∉ s.swept := by
  have hstopped := h.main
  rw [hmain] at hstopped
  rw [h.swept hstopped]
  exact List.not_mem_nil

theorem Inv.mem_of_heap (h : Inv start s) (hin : id ∈ s.heap.map Entry.id) : id ∈ s.enqueued := by
  have hpos := List.count_pos_iff.mpr hin
  exact h.mem_of_held (by unfold held; omega)

theorem Inv.mem_of_holds (h : Inv start s) {w : WorkerPoint} (hw : w ∈ s.workers)
    (hholds : w.holding = some id) : id ∈ s.enqueued := by
  have hpos := holders_pos hw hholds
  exact h.mem_of_held (by unfold held; omega)

theorem Inv.mem_of_dropped (h : Inv start s) (hin : id ∈ s.dropped) : id ∈ s.enqueued := by
  have hpos := List.count_pos_iff.mpr hin
  exact h.mem_of_held (by unfold held; omega)

theorem Inv.held_le_one (h : Inv start s) (id : Uuid) : s.held id ≤ 1 := by
  rw [← h.places id]
  exact List.nodup_iff_count_le_one.mp h.nodup id

/-- An enqueued job is in the table. -/
theorem Inv.status_isSome (h : Inv start s) (hid : id ∈ s.enqueued) :
    (s.shared.account id).status.isSome = true := by
  have hplaced := h.placed id hid
  rcases h.place hid with henqueuer | hheap | ⟨w, hw, hholds⟩ | hdropped | hretired
  · rw [hplaced.enqueuer henqueuer]
    rfl
  · rw [hplaced.heap hheap]
    rfl
  · have hmatches := hplaced.workers w hw hholds
    cases w with
    | claiming other | claimed other =>
      rw [hmatches]
      rfl
    | running other pre p => exact hmatches.2.2.status_isSome
    | _ => cases hholds
  · rcases hplaced.dropped hdropped with ⟨haccount, -⟩ | ⟨haccount, -⟩ <;> rw [haccount] <;> rfl
  · obtain ⟨status, r, -, -, haccount⟩ := hplaced.retired hretired
    rw [haccount]
    rfl

theorem Inv.not_mem_of_status (h : Inv start s) (hnone : (s.shared.account id).status = none) :
    id ∉ s.enqueued := by
  intro hid
  have hsome := h.status_isSome hid
  rw [hnone] at hsome
  cases hsome

/-! ### A job is in one place -/

section

variable (hle : s.held id ≤ 1)
include hle

theorem Placed.of_enqueuer (hin : s.enqueuer.holding = some id)
    (haccount : s.shared.account id = ⟨some .pending, [], []⟩) : s.Placed id := by
  unfold held at hle
  rw [if_pos hin] at hle
  refine ⟨fun _ => haccount, fun _ => haccount, fun w hw hholds => ?_, fun hdropped => ?_,
    fun hretired => ?_⟩
  · have hpos := holders_pos hw hholds
    omega
  · have hpos := List.count_pos_iff.mpr hdropped
    omega
  · have hpos := List.count_pos_iff.mpr hretired
    omega

theorem Placed.of_heap (hin : id ∈ s.heap.map Entry.id)
    (haccount : s.shared.account id = ⟨some .pending, [], []⟩) : s.Placed id := by
  unfold held at hle
  have hheap := List.count_pos_iff.mpr hin
  refine ⟨fun _ => haccount, fun _ => haccount, fun w hw hholds => ?_, fun hdropped => ?_,
    fun hretired => ?_⟩
  · have hpos := holders_pos hw hholds
    omega
  · have hpos := List.count_pos_iff.mpr hdropped
    omega
  · have hpos := List.count_pos_iff.mpr hretired
    omega

theorem Placed.of_worker {w : WorkerPoint} (hw : w ∈ s.workers) (hholds : w.holding = some id)
    (hmatches : w.Matches id (s.shared.account id)) : s.Placed id := by
  unfold held at hle
  have hworkers := holders_pos hw hholds
  refine ⟨fun henqueuer => ?_, fun hheap => ?_, fun w' hw' hholds' => ?_, fun hdropped => ?_,
    fun hretired => ?_⟩
  · rw [if_pos henqueuer] at hle
    omega
  · have hpos := List.count_pos_iff.mpr hheap
    omega
  · have hone : s.holders id ≤ 1 := by omega
    rw [Slots.eq_of_countP_le_one hone hw' hw (decide_eq_true hholds') (decide_eq_true hholds)]
    exact hmatches
  · have hpos := List.count_pos_iff.mpr hdropped
    omega
  · have hpos := List.count_pos_iff.mpr hretired
    omega

theorem Placed.of_dropped (hin : id ∈ s.dropped)
    (haccount : s.shared.account id = ⟨some .pending, [], []⟩ ∧ id ∉ s.swept ∨
      s.shared.account id = ⟨some .cancelled, [], []⟩ ∧ id ∈ s.swept) : s.Placed id := by
  unfold held at hle
  have hdropped := List.count_pos_iff.mpr hin
  refine ⟨fun henqueuer => ?_, fun hheap => ?_, fun w hw hholds => ?_, fun _ => haccount,
    fun hretired => ?_⟩
  · rw [if_pos henqueuer] at hle
    omega
  · have hpos := List.count_pos_iff.mpr hheap
    omega
  · have hpos := holders_pos hw hholds
    omega
  · have hpos := List.count_pos_iff.mpr hretired
    omega

theorem Placed.of_retired (hin : id ∈ s.retired) (hclosed : (s.shared.account id).Closed id) :
    s.Placed id := by
  unfold held at hle
  have hretired := List.count_pos_iff.mpr hin
  refine ⟨fun henqueuer => ?_, fun hheap => ?_, fun w hw hholds => ?_, fun hdropped => ?_,
    fun _ => hclosed⟩
  · rw [if_pos henqueuer] at hle
    omega
  · have hpos := List.count_pos_iff.mpr hheap
    omega
  · have hpos := holders_pos hw hholds
    omega
  · have hpos := List.count_pos_iff.mpr hdropped
    omega

end

/-! ### Steps of the workers -/

/-- A worker goes on: the job in focus, if any, may change its place and account,
and no other job does. -/
theorem Inv.workerMove (h : Inv start s) (hmain : s.main = .joining) {i : Nat}
    {w w' : WorkerPoint} (hi : s.workers[i]? = some w) (focus : Option Uuid)
    {shared : Shared} {heap : List Entry} {dropped retired : List Uuid}
    (hs' : s' = { s with shared, heap, dropped, retired, workers := s.workers.set i w' })
    (hfocus : ∀ id, focus = some id → id ∈ s.enqueued)
    (hcounts : ∀ id,
      (heap.map Entry.id).count id + (if w'.holding = some id then 1 else 0) + dropped.count id +
          retired.count id =
        (s.heap.map Entry.id).count id + (if w.holding = some id then 1 else 0) +
          s.dropped.count id + s.retired.count id)
    (hframe : ∀ id, focus ≠ some id → shared.account id = s.shared.account id)
    (hfit : start.Fit shared.counted shared.counters)
    (hheap : heap.map Entry.id ⊆ s.heap.map Entry.id)
    (hholds : ∀ id, w'.holding = some id → focus = some id)
    (hdropped : ∀ id ∈ dropped, id ∈ s.dropped ∨ focus = some id)
    (hretired : ∀ id ∈ retired, id ∈ s.retired ∨ focus = some id)
    (hself : ∀ id, focus = some id → s'.held id ≤ 1 → s'.Placed id) : Inv start s' := by
  have hplaces (id : Uuid) : s'.enqueued.count id = s'.held id := by
    have hworkers : (s.workers.set i w').countP (·.holding = some id) +
        (if w.holding = some id then 1 else 0) =
          s.holders id + (if w'.holding = some id then 1 else 0) := by
      simpa [holders] using Slots.countP_set_add (p := (·.holding = some id)) hi
    have hold := h.places id
    have hcount := hcounts id
    subst hs'
    unfold held holders at hold ⊢
    unfold holders at hworkers
    simp only
    omega
  have hle (id : Uuid) : s'.held id ≤ 1 := by
    rw [← hplaces id]
    subst hs'
    exact List.nodup_iff_count_le_one.mp h.nodup id
  have hstranger {id : Uuid} (hid : id ∉ s.enqueued) : shared.account id = s.shared.account id :=
    hframe id fun hfoc => hid (hfocus id hfoc)
  refine ⟨hplaces, ?_, ?_, ?_, ?_, ?_, ?_, ?_, ?_, ?_⟩
  · subst hs'
    exact h.nodup
  · intro id hid
    by_cases hfoc : focus = some id
    · exact hself id hfoc (hle id)
    · subst hs'
      refine (h.placed id hid).frame (hframe id hfoc) (fun hin => hin) (fun hin => hheap hin) ?_ ?_
        Iff.rfl ?_
      · intro w'' hw'' hin
        rcases List.mem_or_eq_of_mem_set hw'' with hw'' | rfl
        · exact hw''
        · exact absurd (hholds id hin) hfoc
      · exact fun hin => (hdropped id hin).resolve_right hfoc
      · exact fun hin => (hretired id hin).resolve_right hfoc
  · subst hs'
    exact h.recorded
  · subst hs'
    have hrejected := h.rejected
    have hnot {r : JobResult} {counted sent : List JobResult}
        (haccount : s.shared.account r.jobId = ⟨none, counted, sent⟩) : r.jobId ∉ s.enqueued :=
      h.not_mem_of_status (congrArg Account.status haccount)
    cases henqueuer : s.enqueuer with
    | counting r | sending r =>
      rw [henqueuer] at hrejected
      exact (hstranger (hnot hrejected)).trans hrejected
    | _ => trivial
  · subst hs'
    intro id hid hsending
    simp only
    rw [hstranger hid]
    exact h.strangers id hid hsending
  · subst hs'
    exact hfit
  · subst hs'
    exact h.producer
  · subst hs'
    have hmatches := h.main
    rw [hmain] at hmatches
    simp only [hmain]
    exact hmatches
  · subst hs'
    exact h.swept

/-- A worker that holds no job before and after a step. -/
theorem Inv.workerIdle (h : Inv start s) (hmain : s.main = .joining) {i : Nat}
    {w w' : WorkerPoint} (hi : s.workers[i]? = some w) (hold : w.holding = none)
    (hnew : w'.holding = none) : Inv start (s.setWorker i w') := by
  refine h.workerMove hmain hi none rfl (fun _ h => nomatch h) (fun id => ?_) (fun _ _ => rfl)
    h.counters (List.Subset.refl _) (fun id hid => ?_) (fun _ hid => .inl hid)
    (fun _ hid => .inl hid) fun _ h => nomatch h
  · simp [hold, hnew]
  · rw [hnew] at hid
    cases hid

theorem Inv.pop (h : Inv start s) (hmain : s.main = .joining) {i : Nat} {e : Entry}
    {heap : List Entry} (hi : s.workers[i]? = some .popping) (hheap : s.heap = e :: heap) :
    Inv start ({ s with heap }.setWorker i (.claiming e.id)) := by
  have hin : e.id ∈ s.heap.map Entry.id := by simp [hheap]
  have hid : e.id ∈ s.enqueued := h.mem_of_heap hin
  refine h.workerMove hmain hi (some e.id) rfl ?_ ?_ (fun _ _ => rfl) h.counters ?_ ?_
    (fun _ hid => .inl hid) (fun _ hid => .inl hid) ?_
  · rintro _ ⟨⟩
    exact hid
  · intro id
    simp only [WorkerPoint.holding, hheap, List.map_cons, List.count_cons, beq_iff_eq,
      Option.some.injEq, reduceCtorEq, if_false]
    omega
  · rw [hheap]
    exact List.subset_cons_self _ _
  · exact fun _ h => h
  · rintro _ ⟨⟩ hle
    exact Placed.of_worker hle (Slots.mem_set_self hi) rfl ((h.placed _ hid).heap hin)

/-- A worker goes on with the job it holds. -/
theorem Inv.workerHold (h : Inv start s) (hmain : s.main = .joining) {i : Nat}
    {w w' : WorkerPoint} (hi : s.workers[i]? = some w) (hold : w.holding = some id)
    (hnew : w'.holding = some id) {shared : Shared}
    (hframe : ∀ other, other ≠ id → shared.account other = s.shared.account other)
    (hfit : start.Fit shared.counted shared.counters)
    (hmatches : w'.Matches id (shared.account id)) :
    Inv start ({ s with shared }.setWorker i w') := by
  refine h.workerMove hmain hi (some id) rfl ?_ (fun other => ?_) (fun other hother => ?_) hfit
    (List.Subset.refl _) (fun other hother => ?_) (fun _ hid => .inl hid) (fun _ hid => .inl hid) ?_
  · rintro _ ⟨⟩
    exact h.mem_of_holds (List.mem_of_getElem? hi) hold
  · rw [hold, hnew]
  · exact hframe other fun heq => hother (by rw [heq])
  · rw [← hother, hnew]
  · rintro _ ⟨⟩ hle
    exact Placed.of_worker hle (Slots.mem_set_self hi) hnew hmatches

theorem Inv.drop (h : Inv start s) (hmain : s.main = .joining) {i : Nat}
    (hi : s.workers[i]? = some (.claiming id)) :
    Inv start ({ s with dropped := s.dropped ++ [id] }.setWorker i .looping) := by
  have hid : id ∈ s.enqueued := h.mem_of_holds (List.mem_of_getElem? hi) rfl
  have hpending := (h.placed id hid).workers _ (List.mem_of_getElem? hi) rfl
  refine h.workerMove hmain hi (some id) rfl ?_ (fun other => ?_) (fun _ _ => rfl) h.counters
    (List.Subset.refl _) (fun _ h => nomatch h) (fun other hother => ?_) (fun _ hid => .inl hid) ?_
  · rintro _ ⟨⟩
    exact hid
  · simp only [WorkerPoint.holding, List.count_append, List.count_singleton, beq_iff_eq,
      Option.some.injEq, reduceCtorEq, if_false]
    omega
  · rcases List.mem_append.mp hother with hother | hother
    · exact .inl hother
    · exact .inr (by rw [List.mem_singleton.mp hother])
  · rintro _ ⟨⟩ hle
    refine Placed.of_dropped hle (List.mem_append_right _ (List.mem_singleton_self _))
      (.inl ⟨hpending, fun hswept => ?_⟩)
    exact absurd hswept (h.not_swept hmain id)

theorem Inv.retire (h : Inv start s) (hmain : s.main = .joining) {i pre : Nat} {p : TaskPoint}
    (hi : s.workers[i]? = some (.running id pre p)) {shared : Shared}
    (hframe : ∀ other, other ≠ id → shared.account other = s.shared.account other)
    (hfit : start.Fit shared.counted shared.counters) (hclosed : (shared.account id).Closed id) :
    Inv start ({ s with shared, retired := s.retired ++ [id] }.setWorker i (.checking pre)) := by
  refine h.workerMove hmain hi (some id) rfl ?_ (fun other => ?_) (fun other hother => ?_) hfit
    (List.Subset.refl _) (fun _ h => nomatch h) (fun _ hid => .inl hid) (fun other hother => ?_) ?_
  · rintro _ ⟨⟩
    exact h.mem_of_holds (List.mem_of_getElem? hi) rfl
  · simp only [WorkerPoint.holding, List.count_append, List.count_singleton, beq_iff_eq,
      Option.some.injEq, reduceCtorEq, if_false]
    omega
  · exact hframe other fun heq => hother (by rw [heq])
  · rcases List.mem_append.mp hother with hother | hother
    · exact .inl hother
    · exact .inr (by rw [List.mem_singleton.mp hother])
  · rintro _ ⟨⟩ hle
    exact Placed.of_retired hle (List.mem_append_right _ (List.mem_singleton_self _)) hclosed

theorem Inv.workerStep (h : Inv start s) (hmain : s.main = .joining) (i : Nat) (reply : Reply) :
    Inv start (s.workerStep config i reply) := by
  unfold StreamState.workerStep
  split
  case h_1 => exact h
  case h_2 hi => exact h.workerIdle hmain hi rfl (by split <;> rfl)
  case h_3 hi =>
    split
    · exact h.workerIdle hmain hi rfl rfl
    · exact h
  case h_4 hi => exact h.workerIdle hmain hi rfl (by split <;> rfl)
  case h_5 hi =>
    split
    · exact h.workerIdle hmain hi rfl rfl
    · exact h.pop hmain hi ‹_›
  case h_6 hi => exact h.workerIdle hmain hi rfl (by split <;> rfl)
  case h_7 hi => exact h.workerIdle hmain hi rfl (by split <;> rfl)
  case h_8 id hi =>
    split
    · -- The claim: the job becomes running.
      have hid : id ∈ s.enqueued := h.mem_of_holds (List.mem_of_getElem? hi) rfl
      have hpending := (h.placed id hid).workers _ (List.mem_of_getElem? hi) rfl
      refine h.workerHold hmain hi rfl rfl (fun other hne => ?_) h.counters ?_
      · exact Shared.account_call_ne (QueueState.step_claimById_ne _ hne _ _)
      · exact Shared.account_status hpending
          (QueueState.step_claimById_of_pending (congrArg Account.status hpending) _ _) rfl rfl rfl
    · exact h.drop hmain hi
  case h_9 id hi =>
    have hid : id ∈ s.enqueued := h.mem_of_holds (List.mem_of_getElem? hi) rfl
    have hrunning := (h.placed id hid).workers _ (List.mem_of_getElem? hi) rfl
    exact h.workerHold hmain hi rfl rfl (fun _ _ => rfl) h.counters ⟨rfl, rfl, hrunning⟩
  case h_10 id pre p hi =>
    have hid : id ∈ s.enqueued := h.mem_of_holds (List.mem_of_getElem? hi) rfl
    obtain ⟨hclaimed, -, hmatches⟩ := (h.placed id hid).workers _ (List.mem_of_getElem? hi) rfl
    have hself : (advance config.strategy s.capacity id reply s.shared p).1.Matches id
        ((advance config.strategy s.capacity id reply s.shared p).2.account id) := by
      refine advance_matches _ _ (fun hp => ?_) (fun hp => ?_) hmatches
      · rw [hp] at hclaimed
        cases hclaimed
      · rw [hp] at hclaimed
        cases hclaimed
    have hframe (other : Uuid) (hne : other ≠ id) :=
      advance_frame config.strategy s.capacity reply hmatches hne
    have hfit := advance_counters config.strategy s.capacity id reply p h.counters
    have hclaimed' : (advance config.strategy s.capacity id reply s.shared p).1.isClaimed = true :=
      advance_isClaimed _ _ _ _ hclaimed
    generalize advance config.strategy s.capacity id reply s.shared p = next at *
    obtain ⟨p', shared⟩ := next
    simp only at hself hframe hfit hclaimed' ⊢
    split
    · rename_i hfinished
      cases p' with
      | finished => exact h.retire hmain hi hframe hfit hself
      | _ => cases hfinished
    · rename_i hfinished
      exact h.workerHold hmain hi rfl rfl hframe hfit ⟨hclaimed', by simpa using hfinished, hself⟩
  case h_11 hi => exact h.workerIdle hmain hi rfl (by split <;> rfl)
  case h_12 => exact h

/-! ### Steps of the enqueuer -/

theorem Inv.stopped_of_joining (h : Inv start s) (hmain : s.main = .joining) : s.stopped = false := by
  have hmatches := h.main
  rw [hmain] at hmatches
  exact hmatches

theorem Inv.mainMatches_of_joining (h : Inv start s) (hmain : s.main = .joining)
    (hmain' : s'.main = s.main) (hstopped : s'.stopped = s.stopped) : s'.MainMatches s'.main := by
  rw [hmain', hmain]
  exact hstopped.trans (h.stopped_of_joining hmain)

theorem Inv.producer_open (h : Inv start s) (hopen : s.enqueuer ≠ .done) {p : EnqueuerPoint}
    (hp : p ≠ .done) : s.producerDone = true ↔ p = .done := by
  rw [h.producer]
  exact iff_of_false hopen hp

/-- The enqueuer goes on without a job. -/
theorem Inv.enqueuerIdle (h : Inv start s) (hmain : s.main = .joining) {p : EnqueuerPoint}
    {input : List WorkItem} {producerDone : Bool} (hold : s.enqueuer.unrecorded = none)
    (hnew : p.unrecorded = none) (hsending : ∀ r, s.enqueuer ≠ .sending r)
    (hmatches : s.EnqueuerMatches p) (hdone : producerDone = true ↔ p = .done) :
    Inv start { s with input, producerDone, enqueuer := p } := by
  have hholding {p : EnqueuerPoint} (hp : p.unrecorded = none) : p.holding = none := by
    cases p with
    | pushing priority id => cases hp
    | _ => rfl
  refine ⟨fun id => ?_, h.nodup, fun id hid => ?_, fun id => ?_, hmatches, fun id hid _ => ?_,
    h.counters, hdone, h.mainMatches_of_joining hmain rfl rfl, h.swept⟩
  · have hplaces := h.places id
    simp only [held, holders, hholding hold] at hplaces
    simpa only [held, holders, hholding hnew] using hplaces
  · refine (h.placed id hid).frame rfl (fun hin => ?_) (fun h => h) (fun _ h _ => h) (fun h => h)
      Iff.rfl (fun h => h)
    rw [hholding hnew] at hin
    cases hin
  · have hrecorded := h.recorded id
    rw [hold] at hrecorded
    rw [hnew]
    exact hrecorded
  · exact h.strangers id hid fun r hr => absurd hr (hsending r)

theorem Inv.enqueuerCount (h : Inv start s) (hmain : s.main = .joining) {r : JobResult}
    (henqueuer : s.enqueuer = .counting r) :
    Inv start { s with shared := s.shared.count r, enqueuer := .sending r } := by
  have hrejected := h.rejected
  rw [henqueuer] at hrejected
  have hnew : r.jobId ∉ s.enqueued := h.not_mem_of_status (congrArg Account.status hrejected)
  refine ⟨fun id => ?_, h.nodup, fun id hid => ?_, fun id => ?_, ?_, fun id hid hsending => ?_,
    h.counters.add r, ?_, h.mainMatches_of_joining hmain rfl rfl, h.swept⟩
  · have hplaces := h.places id
    unfold held at hplaces
    rw [henqueuer] at hplaces
    exact hplaces
  · refine (h.placed id hid).frame ?_ (fun h => by cases h) (fun h => h) (fun _ h _ => h)
      (fun h => h) Iff.rfl (fun h => h)
    exact Shared.account_count_ne fun heq => hnew (heq ▸ hid)
  · have hrecorded := h.recorded id
    rw [henqueuer] at hrecorded
    exact hrecorded
  · simp only [EnqueuerMatches, Shared.account, Account.mk.injEq] at hrejected
    simp [EnqueuerMatches, Shared.account, Shared.count, hrejected]
  · have hne : r.jobId ≠ id := hsending r rfl
    simp only
    rw [Shared.account_count_ne hne]
    refine h.strangers id hid fun r' hr' => ?_
    rw [henqueuer] at hr'
    cases hr'
  · exact h.producer_open (by simp [henqueuer]) (by rintro ⟨⟩)

theorem Inv.enqueuerSend (h : Inv start s) (hmain : s.main = .joining) {r : JobResult}
    (henqueuer : s.enqueuer = .sending r) :
    Inv start { s with shared := s.shared.send r, enqueuer := .receiving } := by
  have hrejected := h.rejected
  rw [henqueuer] at hrejected
  have hnew : r.jobId ∉ s.enqueued := h.not_mem_of_status (congrArg Account.status hrejected)
  refine ⟨fun id => ?_, h.nodup, fun id hid => ?_, fun id => ?_, trivial, fun id hid _ => ?_,
    h.counters, ?_, h.mainMatches_of_joining hmain rfl rfl, h.swept⟩
  · have hplaces := h.places id
    unfold held at hplaces
    rw [henqueuer] at hplaces
    exact hplaces
  · refine (h.placed id hid).frame ?_ (fun h => by cases h) (fun h => h) (fun _ h _ => h)
      (fun h => h) Iff.rfl (fun h => h)
    exact Shared.account_send_ne fun heq => hnew (heq ▸ hid)
  · have hrecorded := h.recorded id
    rw [henqueuer] at hrecorded
    exact hrecorded
  · by_cases heq : r.jobId = id
    · subst heq
      simp only [EnqueuerMatches, Shared.account, Account.mk.injEq] at hrejected
      simp only [List.filter_append, List.append_eq_nil_iff] at hrejected
      simp [Shared.account, Shared.send, hrejected]
    · simp only
      rw [Shared.account_send_ne heq]
      refine h.strangers id hid fun r' hr' => ?_
      rw [henqueuer] at hr'
      cases hr'
      exact heq
  · exact h.producer_open (by simp [henqueuer]) (by rintro ⟨⟩)

theorem Inv.enqueue (h : Inv start s) (hmain : s.main = .joining)
    (henqueuer : s.enqueuer = .receiving) (hfresh : s.shared.Fresh id) (priority : Int)
    (now : String) (input : List WorkItem) :
    Inv start
      { s with
        input
        shared := s.shared.call (.enqueue id priority now)
        enqueuer := .pushing priority id
        enqueued := s.enqueued ++ [id]
        stored := s.stored ++ [{ id, priority, createdAt := now }] } := by
  have hnew : id ∉ s.enqueued := h.not_mem_of_status (congrArg Account.status hfresh)
  have hframe {other : Uuid} (hother : other ≠ id) :
      (s.shared.call (.enqueue id priority now)).account other = s.shared.account other :=
    Shared.account_call_ne (QueueState.statusOf_enqueue_ne _ hother _ _)
  have hself : (s.shared.call (.enqueue id priority now)).account id = ⟨some .pending, [], []⟩ :=
    Shared.account_status hfresh
      (QueueState.statusOf_enqueue_self (congrArg Account.status hfresh) _ _) rfl rfl rfl
  have hplaces (other : Uuid) : (s.enqueued ++ [id]).count other =
      (if some id = some other then 1 else 0) + (s.heap.map Entry.id).count other +
        s.holders other + s.dropped.count other + s.retired.count other := by
    have hold := h.places other
    simp only [held, henqueuer, EnqueuerPoint.holding, reduceCtorEq, if_false] at hold
    simp only [List.count_append, List.count_singleton, hold, beq_iff_eq, Option.some.injEq]
    omega
  have hnodup : (s.enqueued ++ [id]).Nodup :=
    List.Nodup.append h.nodup (List.nodup_singleton _) (by simpa using hnew)
  refine ⟨hplaces, hnodup, fun other hother => ?_, fun other => ?_, trivial,
    fun other hother _ => ?_, h.counters, ?_, h.mainMatches_of_joining hmain rfl rfl, h.swept⟩
  · by_cases heq : other = id
    · subst heq
      refine Placed.of_enqueuer ?_ rfl hself
      have hle := List.nodup_iff_count_le_one.mp hnodup other
      rw [hplaces] at hle
      exact hle
    · have hold : other ∈ s.enqueued := by
        simpa [heq] using hother
      refine (h.placed other hold).frame (hframe heq) (fun hin => ?_) (fun h => h) (fun _ h _ => h)
        (fun h => h) Iff.rfl (fun h => h)
      exact absurd (Option.some.inj hin).symm heq
  · have hrecorded := h.recorded other
    rw [henqueuer] at hrecorded
    simp only [EnqueuerPoint.unrecorded, reduceCtorEq, or_false] at hrecorded
    simp only [EnqueuerPoint.unrecorded, List.mem_append, List.mem_singleton, hrecorded,
      Option.some.injEq]
    exact or_congr_right eq_comm
  · rw [List.mem_append, not_or, List.mem_singleton] at hother
    simp only
    rw [hframe hother.2]
    refine h.strangers other hother.1 fun r hr => ?_
    rw [henqueuer] at hr
    cases hr
  · exact h.producer_open (by simp [henqueuer]) nofun

theorem Inv.push (h : Inv start s) (hmain : s.main = .joining) {priority : Int}
    (henqueuer : s.enqueuer = .pushing priority id) :
    Inv start { s.push (.of priority s.seq id) with seq := s.seq + 1, enqueuer := .recording id } := by
  have hheap : ((s.heap.orderedInsert (· ≤ ·) (Entry.of priority s.seq id)).map Entry.id).Perm
      (id :: s.heap.map Entry.id) :=
    (List.perm_orderedInsert _ _ _).map Entry.id
  have hid : id ∈ s.enqueued := by
    refine h.mem_of_held ?_
    simp [held, henqueuer, EnqueuerPoint.holding]
  have hpending := (h.placed id hid).enqueuer (by rw [henqueuer]; rfl)
  have hplaces (other : Uuid) : s.enqueued.count other =
      ((s.heap.orderedInsert (· ≤ ·) (Entry.of priority s.seq id)).map Entry.id).count other +
        s.holders other + s.dropped.count other + s.retired.count other := by
    have hold := h.places other
    simp only [held, henqueuer, EnqueuerPoint.holding, Option.some.injEq] at hold
    rw [hheap.count_eq, List.count_cons, hold]
    simp only [beq_iff_eq]
    omega
  refine ⟨fun other => ?_, h.nodup, fun other hother => ?_, fun other => ?_, trivial,
    fun other hother _ => ?_, h.counters, ?_, h.mainMatches_of_joining hmain rfl rfl, h.swept⟩
  · have hcount := hplaces other
    simp only [held, EnqueuerPoint.holding, StreamState.push, reduceCtorEq, if_false]
    simp only [holders] at hcount ⊢
    omega
  · by_cases heq : other = id
    · subst heq
      refine Placed.of_heap ?_ (hheap.mem_iff.mpr List.mem_cons_self) hpending
      have hle := List.nodup_iff_count_le_one.mp h.nodup other
      rw [hplaces] at hle
      simp only [held, EnqueuerPoint.holding, StreamState.push, reduceCtorEq, if_false]
      simp only [holders] at hle ⊢
      omega
    · refine (h.placed other hother).frame rfl (fun h => nomatch h) (fun hin => ?_)
        (fun _ h _ => h) (fun h => h) Iff.rfl (fun h => h)
      exact (List.mem_cons.mp (hheap.mem_iff.mp hin)).resolve_left heq
  · have hrecorded := h.recorded other
    rw [henqueuer] at hrecorded
    exact hrecorded
  · refine h.strangers other hother fun r hr => ?_
    rw [henqueuer] at hr
    cases hr
  · exact h.producer_open (by simp [henqueuer]) nofun

theorem Inv.record (h : Inv start s) (hmain : s.main = .joining)
    (henqueuer : s.enqueuer = .recording id) :
    Inv start { s with enqueuedIds := id :: s.enqueuedIds, enqueuer := .receiving } := by
  refine ⟨fun other => ?_, h.nodup, fun other hother => ?_, fun other => ?_, trivial,
    fun other hother _ => ?_, h.counters, ?_, h.mainMatches_of_joining hmain rfl rfl, h.swept⟩
  · have hplaces := h.places other
    unfold held at hplaces
    rw [henqueuer] at hplaces
    exact hplaces
  · exact (h.placed other hother).frame rfl (fun h => nomatch h) (fun h => h) (fun _ h _ => h)
      (fun h => h) Iff.rfl (fun h => h)
  · have hrecorded := h.recorded other
    rw [henqueuer] at hrecorded
    simp only [EnqueuerPoint.unrecorded, Option.some.injEq] at hrecorded
    simp only [hrecorded, EnqueuerPoint.unrecorded, List.mem_cons, reduceCtorEq, or_false]
    rw [or_comm, eq_comm]
  · refine h.strangers other hother fun r hr => ?_
    rw [henqueuer] at hr
    cases hr
  · exact h.producer_open (by simp [henqueuer]) nofun

/-- The identifiers that storage and the enqueuer choose are new. -/
def FreshIds (s : StreamState) : StreamAct → Prop
  | .enqueuer reply => s.enqueuer = .receiving →
    (∀ id, reply.stored = .ok id → s.shared.Fresh id) ∧ s.shared.Fresh reply.failureId
  | _ => True

theorem Inv.enqueuerStep (h : Inv start s) (hmain : s.main = .joining) {reply : MainReply}
    (hfresh : FreshIds s (.enqueuer reply)) : Inv start (s.enqueuerStep reply) := by
  unfold StreamState.enqueuerStep
  split
  case h_1 hreceiving =>
    have hidle {p : EnqueuerPoint} {input : List WorkItem} (hp : p.unrecorded = none)
        (hdone : p ≠ .done) (hmatches : s.EnqueuerMatches p) :
        Inv start { s with input, enqueuer := p } := by
      refine h.enqueuerIdle hmain (by rw [hreceiving]; rfl) hp (fun r hr => ?_) hmatches
        (h.producer_open (by simp [hreceiving]) hdone)
      rw [hreceiving] at hr
      cases hr
    split
    · exact hidle rfl nofun trivial
    · split
      · split
        · exact hidle rfl nofun trivial
        · exact h
      · split
        · exact hidle rfl nofun (hfresh hreceiving).2
        · split
          · exact hidle rfl nofun (hfresh hreceiving).2
          · exact h.enqueue hmain hreceiving ((hfresh hreceiving).1 _ ‹_›) _ _ _
  case h_2 r hcounting => exact h.enqueuerCount hmain hcounting
  case h_3 r hsending =>
    split
    · exact h.enqueuerSend hmain hsending
    · exact h
  case h_4 priority id hpushing => exact h.push hmain hpushing
  case h_5 id hrecording => exact h.record hmain hrecording
  case h_6 hclosing =>
    refine h.enqueuerIdle hmain (by rw [hclosing]; rfl) rfl (fun r hr => ?_) trivial (by simp)
    rw [hclosing] at hr
    cases hr
  case h_7 => exact h

/-! ### Steps of the pool itself -/

/-- A step that changes no place and no account. -/
theorem Inv.congr (h : Inv start s)
    (haccount : ∀ id, s'.shared.account id = s.shared.account id)
    (hfit : start.Fit s'.shared.counted s'.shared.counters)
    (hholders : ∀ id, s'.holders id = s.holders id)
    (hworkers : ∀ w ∈ s'.workers, w.holding ≠ none → w ∈ s.workers)
    (hlists : (s'.enqueuer, s'.heap, s'.dropped, s'.retired, s'.swept) =
      (s.enqueuer, s.heap, s.dropped, s.retired, s.swept))
    (hids : (s'.enqueued, s'.enqueuedIds, s'.producerDone, s'.stopped) =
      (s.enqueued, s.enqueuedIds, s.producerDone, s.stopped))
    (hmain : s'.MainMatches s'.main) : Inv start s' := by
  simp only [Prod.mk.injEq] at hlists hids
  obtain ⟨henqueuer, hheap, hdropped, hretired, hswept⟩ := hlists
  obtain ⟨henqueued, hids, hdone, hstopped⟩ := hids
  refine ⟨fun id => ?_, henqueued ▸ h.nodup, fun id hid => ?_, fun id => ?_, ?_,
    fun id hid hsending => ?_, hfit, ?_, hmain, ?_⟩
  · unfold held
    rw [henqueued, henqueuer, hheap, hholders, hdropped, hretired]
    exact h.places id
  · refine (h.placed id (henqueued ▸ hid)).frame (haccount id) (henqueuer ▸ fun h => h)
      (hheap ▸ fun h => h) (fun w hw hholds => hworkers w hw ?_) (hdropped ▸ fun h => h)
      (hswept ▸ Iff.rfl) (hretired ▸ fun h => h)
    rw [hholds]
    exact nofun
  · rw [henqueued, hids, henqueuer]
    exact h.recorded id
  · rw [henqueuer]
    have hrejected := h.rejected
    cases hpoint : s.enqueuer with
    | counting r | sending r =>
      rw [hpoint] at hrejected
      exact (haccount _).trans hrejected
    | _ => trivial
  · rw [haccount]
    rw [henqueuer] at hsending
    exact h.strangers id (henqueued ▸ hid) hsending
  · rw [hdone, henqueuer]
    exact h.producer
  · rw [hstopped, hswept]
    exact h.swept

theorem Inv.joined (h : Inv start s) (hmain : s.main ≠ .joining) : s.Joined := by
  have hmatches := h.main
  cases hpoint : s.main with
  | joining => exact absurd hpoint hmain
  | checkToken =>
    rw [hpoint] at hmatches
    exact hmatches.2
  | listing | returned =>
    rw [hpoint] at hmatches
    exact hmatches.1
  | _ =>
    rw [hpoint] at hmatches
    exact hmatches.1.1

/-- The main loop goes on. -/
theorem Inv.move (h : Inv start s) {p : StreamPoint} (hmatches : s.MainMatches p) :
    Inv start { s with main := p } :=
  h.congr (fun _ => rfl) h.counters (fun _ => rfl) (fun _ hw _ => hw) rfl rfl hmatches

theorem Inv.clearHeap (h : Inv start s) (hmain : s.main = .checkToken) :
    Inv start
      { s with
        heap := [], dropped := s.dropped ++ s.heap.map Entry.id, stopped := true, main := .listing } := by
  have hmatches := h.main
  rw [hmain] at hmatches
  obtain ⟨hstopped, hjoined⟩ := hmatches
  have hswept := h.swept hstopped
  have hplaces (id : Uuid) : s.enqueued.count id =
      (if s.enqueuer.holding = some id then 1 else 0) + 0 + s.holders id +
        (s.dropped ++ s.heap.map Entry.id).count id + s.retired.count id := by
    have hold := h.places id
    unfold held at hold
    rw [List.count_append]
    omega
  refine ⟨hplaces, h.nodup, fun id hid => ?_, h.recorded, h.rejected, h.strangers, h.counters,
    h.producer, ⟨hjoined, rfl, rfl⟩, fun h => nomatch h⟩
  by_cases hheap : id ∈ s.heap.map Entry.id
  · refine Placed.of_dropped ?_ (List.mem_append_right _ hheap) (.inl ⟨(h.placed id hid).heap hheap, ?_⟩)
    · have hle := List.nodup_iff_count_le_one.mp h.nodup id
      rw [hplaces] at hle
      exact hle
    · rw [hswept]
      exact List.not_mem_nil
  · refine (h.placed id hid).frame rfl (fun h => h) (fun h => nomatch h) (fun _ h _ => h)
      (fun hin => ?_) Iff.rfl (fun h => h)
    exact (List.mem_append.mp hin).resolve_right hheap

/-- A job that waits for the sweep is among those it goes through. -/
theorem Inv.mem_unstartedIds (h : Inv start s) (hjoined : s.Joined) (hid : id ∈ s.dropped)
    (hunswept : id ∉ s.swept) : id ∈ s.unstartedIds := by
  have henqueued := h.mem_of_dropped hid
  have haccount := ((h.placed id henqueued).dropped hid).resolve_right fun hswept =>
    hunswept hswept.2
  have hstatus : s.shared.queue.statusOf id = some .pending := congrArg Account.status haccount.1
  obtain ⟨job, hjob, hpending⟩ := Option.map_eq_some_iff.mp hstatus
  have hjob_id : job.id = id := by simpa using List.find?_some hjob
  have hrecorded : id ∈ s.enqueuedIds := by
    have hrecorded := (h.recorded id).mp henqueued
    rw [hjoined.1] at hrecorded
    exact hrecorded.resolve_right nofun
  refine List.mem_filter.mpr ⟨List.mem_map.mpr ⟨job, ?_, hjob_id⟩, by simpa using hrecorded⟩
  refine (List.mergeSort_perm _ _).mem_iff.mpr ?_
  exact List.mem_filter.mpr ⟨List.mem_of_find?_eq_some hjob, decide_eq_true hpending⟩

theorem Inv.unstartedIds_subset (h : Inv start s) : s.unstartedIds ⊆ s.enqueued := by
  intro id hid
  have hrecorded : id ∈ s.enqueuedIds := by simpa using (List.mem_filter.mp hid).2
  exact (h.recorded id).mpr (.inl hrecorded)

/-- With all tasks ended and the heap empty, a job that can be cancelled waits
for the sweep. -/
theorem Inv.dropped_of_cancellable (h : Inv start s) (hsweeping : s.Sweeping)
    (hid : id ∈ s.enqueued) (hcancellable : s.shared.queue.cancellable id = true) :
    id ∈ s.dropped ∧ id ∉ s.swept := by
  have hsettled {status : JobStatus} {counted sent : List JobResult}
      (haccount : s.shared.account id = ⟨some status, counted, sent⟩) :
      status.isTerminal = false := by
    have hstatus : s.shared.queue.statusOf id = some status := congrArg Account.status haccount
    simpa [QueueState.cancellable, hstatus] using hcancellable
  obtain ⟨hjoined, hheap, -⟩ := hsweeping
  rcases h.place hid with hholds | hin | ⟨w, hw, hholds⟩ | hdropped | hretired
  · rw [hjoined.1] at hholds
    cases hholds
  · rw [hheap] at hin
    cases hin
  · rw [hjoined.2.1 w hw] at hholds
    cases hholds
  · rcases (h.placed id hid).dropped hdropped with ⟨-, hunswept⟩ | ⟨haccount, -⟩
    · exact ⟨hdropped, hunswept⟩
    · cases hsettled haccount
  · obtain ⟨status, r, hterminal, -, haccount⟩ := (h.placed id hid).retired hretired
    rw [hsettled haccount] at hterminal
    cases hterminal

theorem Inv.sweepWrite (h : Inv start s) {ids : List Uuid} (hmain : s.main = .sweepWrite id ids)
    (now : String) :
    Inv start
      { s with
        shared := s.shared.cancelJob id now, main := .sweeping ids, swept := s.swept ++ [id] } := by
  have hmatches := h.main
  rw [hmain] at hmatches
  obtain ⟨⟨hjoined, hheap, hstopped⟩, hids, hdropped, hunswept, hcovers⟩ := hmatches
  have henqueued := h.mem_of_dropped hdropped
  have hframe {other : Uuid} (hother : other ≠ id) :
      (s.shared.cancelJob id now).account other = s.shared.account other :=
    Shared.account_cancelJob_ne now hother
  have hpending := ((h.placed id henqueued).dropped hdropped).resolve_right fun hswept =>
    hunswept hswept.2
  have hself : (s.shared.cancelJob id now).account id = ⟨some .cancelled, [], []⟩ := by
    refine Shared.account_status hpending.1 ?_ rfl rfl rfl
    have hstatus : s.shared.queue.statusOf id = some .pending := congrArg Account.status hpending.1
    simp [Shared.cancelJob, QueueState.statusOf_write_self, hstatus, JobCall.update]
  refine ⟨h.places, h.nodup, fun other hother => ?_, h.recorded, ?_, fun other hother hsending => ?_,
    h.counters, h.producer, ⟨⟨hjoined, hheap, hstopped⟩, hids, fun other hother hnot => ?_⟩,
    fun hrunning => absurd (hstopped.symm.trans hrunning) (by rintro ⟨⟩)⟩
  · by_cases heq : other = id
    · subst heq
      refine Placed.of_dropped (h.held_le_one other) hdropped (.inr ⟨hself, ?_⟩)
      exact List.mem_append_right _ (List.mem_singleton_self _)
    · refine (h.placed other hother).frame (hframe heq) (fun h => h) (fun h => h) (fun _ h _ => h)
        (fun h => h) ?_ (fun h => h)
      simp [heq]
  · simp only [hjoined.1]
    trivial
  · simp only
    rw [hframe fun heq => hother (heq ▸ henqueued)]
    exact h.strangers other hother hsending
  · rw [List.mem_append, not_or, List.mem_singleton] at hnot
    exact (List.mem_cons.mp (hcovers other hother hnot.1)).resolve_left hnot.2

theorem Inv.mainStep (h : Inv start s) (now : String) : Inv start (s.mainStep now) := by
  have hmatches := h.main
  unfold StreamState.mainStep
  split
  case h_1 hmain =>
    split
    · rename_i hended
      rw [hmain] at hmatches
      refine h.move ⟨hmatches, h.producer.mp hended.1, fun w hw => ?_, hended.2.2⟩
      have hexited := List.all_eq_true.mp hended.2.1 w hw
      cases w with
      | exited => rfl
      | _ => cases hexited
    · exact h
  case h_2 hmain =>
    rw [hmain] at hmatches
    split
    · exact h.clearHeap hmain
    · exact h.move ⟨hmatches.2, fun hstopped => absurd (hstopped.symm.trans hmatches.1)
        (by rintro ⟨⟩)⟩
  case h_3 hmain =>
    rw [hmain] at hmatches
    exact h.move ⟨hmatches, h.unstartedIds_subset, fun id hid => h.mem_unstartedIds hmatches.1 hid⟩
  case h_4 hmain =>
    rw [hmain] at hmatches
    obtain ⟨⟨hjoined, hheap, -⟩, -, hcovers⟩ := hmatches
    refine h.move ⟨hjoined, fun _ => ⟨hheap, fun id hid => ?_⟩⟩
    by_contra hunswept
    cases hcovers id hid hunswept
  case h_5 id ids hmain =>
    rw [hmain] at hmatches
    obtain ⟨hsweeping, hids, hcovers⟩ := hmatches
    have hrest : ids ⊆ s.enqueued := fun other hother => hids (List.mem_cons_of_mem _ hother)
    split
    · rename_i hcancellable
      obtain ⟨hdropped, hunswept⟩ :=
        h.dropped_of_cancellable hsweeping (hids List.mem_cons_self) hcancellable
      exact h.move ⟨hsweeping, hrest, hdropped, hunswept, hcovers⟩
    · rename_i hsettled
      refine h.move ⟨hsweeping, hrest, fun other hother hunswept => ?_⟩
      refine (List.mem_cons.mp (hcovers other hother hunswept)).resolve_left ?_
      rintro rfl
      have haccount := ((h.placed other (h.mem_of_dropped hother)).dropped hother).resolve_right
        fun hswept => hunswept hswept.2
      have hstatus : s.shared.queue.statusOf other = some .pending :=
        congrArg Account.status haccount.1
      exact hsettled (by simp [QueueState.cancellable, hstatus, JobStatus.isTerminal])
  case h_6 id ids hmain => exact h.sweepWrite hmain now
  case h_7 => exact h

/-- A worker that waits for the gate holds no job. -/
theorem Inv.notify (h : Inv start s) (hmain : s.main = .joining) : Inv start s.notify := by
  refine h.congr (fun _ => rfl) h.counters (fun id => ?_) (fun w hw hholds => ?_) rfl rfl
    (h.mainMatches_of_joining hmain rfl rfl)
  · simp only [holders, StreamState.notify, List.countP_map]
    refine List.countP_congr fun w _ => ?_
    cases w <;> exact Iff.rfl
  · obtain ⟨old, hold, rfl⟩ := List.mem_map.mp hw
    cases old with
    | waiting => exact absurd rfl hholds
    | _ => exact hold

theorem Inv.receive (h : Inv start s) (hmain : s.main = .joining) :
    Inv start { s with shared := s.shared.receive } := by
  refine h.congr (fun _ => Shared.account_receive) ?_ (fun _ => rfl) (fun _ hw _ => hw) rfl rfl
    (h.mainMatches_of_joining hmain rfl rfl)
  simp only [Shared.receive]
  split <;> exact h.counters

/-- When all tasks have ended, only the pool itself takes steps. -/
theorem Joined.step_eq (h : s.Joined) {act : StreamAct}
    (hact : (∃ reply, act = .enqueuer reply) ∨ (∃ i reply, act = .worker i reply) ∨
      act = .notify ∨ act = .collect) : s.step config act = s := by
  obtain ⟨henqueuer, hworkers, hchannel⟩ := h
  rcases hact with ⟨reply, rfl⟩ | ⟨i, reply, rfl⟩ | rfl | rfl
  · simp only [StreamState.step, StreamState.enqueuerStep, henqueuer]
  · simp only [StreamState.step, StreamState.workerStep]
    cases hi : s.workers[i]? with
    | none => rfl
    | some w =>
      rw [hworkers w (List.mem_of_getElem? hi)]
  · have hmap : s.workers.map WorkerPoint.wake = s.workers := by
      refine (List.map_congr_left fun w hw => ?_).trans (List.map_id _)
      rw [hworkers w hw]
      rfl
    simp only [StreamState.step, StreamState.notify, hmap]
  · simp only [StreamState.step, Shared.receive, hchannel]

theorem Inv.step (h : Inv start s) {act : StreamAct} (hfresh : FreshIds s act) :
    Inv start (s.step config act) := by
  cases act with
  | produce item =>
    simp only [StreamState.step]
    split
    · exact h
    · exact h.congr (fun _ => rfl) h.counters (fun _ => rfl) (fun _ hw _ => hw) rfl rfl h.main
  | close => exact h.congr (fun _ => rfl) h.counters (fun _ => rfl) (fun _ hw _ => hw) rfl rfl h.main
  | cancel =>
    exact h.congr (fun _ => rfl) h.counters (fun _ => rfl) (fun _ hw _ => hw) rfl rfl h.main
  | main now => exact h.mainStep now
  | enqueuer reply =>
    by_cases hmain : s.main = .joining
    · exact h.enqueuerStep hmain hfresh
    · rw [(h.joined hmain).step_eq (.inl ⟨reply, rfl⟩)]
      exact h
  | worker i reply =>
    by_cases hmain : s.main = .joining
    · exact h.workerStep hmain i reply
    · rw [(h.joined hmain).step_eq (.inr (.inl ⟨i, reply, rfl⟩))]
      exact h
  | notify =>
    by_cases hmain : s.main = .joining
    · exact h.notify hmain
    · rw [(h.joined hmain).step_eq (.inr (.inr (.inl rfl)))]
      exact h
  | collect =>
    by_cases hmain : s.main = .joining
    · exact h.receive hmain
    · rw [(h.joined hmain).step_eq (.inr (.inr (.inr rfl)))]
      exact h

theorem initial_inv (config : PoolConfig) (queue : QueueState) (counters : Counters)
    (cancelled : Bool) : Inv counters (initial config queue counters cancelled) := by
  refine ⟨fun id => ?_, .nil, ?_, fun id => ?_, trivial, fun _ _ _ => rfl, ⟨rfl, rfl, rfl⟩, ?_, rfl,
    fun _ => rfl⟩
  · have hnone : (List.replicate config.workers WorkerPoint.spawned).countP
        (·.holding = some id) = 0 := by
      rw [List.countP_eq_zero]
      intro w hw
      rw [List.eq_of_mem_replicate hw]
      exact nofun
    simp [initial, held, holders, hnone, EnqueuerPoint.holding]
  · exact fun _ h => nomatch h
  · simp [initial, EnqueuerPoint.unrecorded]
  · simp [initial]

/-! ### The end of a run -/

/-- A pool that returned has an account for every job, if no job was left in the
heap or dropped without being swept. -/
theorem Inv.accounted (h : Inv start s) (hreturned : s.main = .returned)
    (hnone : s.stopped = false → s.heap = [] ∧ s.dropped = []) :
    Accounted start s.shared.queue s.enqueued s.swept s.shared.received s.shared.counters := by
  have hmatches := h.main
  rw [hreturned] at hmatches
  obtain ⟨⟨henqueuer, hworkers, hchannel⟩, hswept⟩ := hmatches
  have hheap : s.heap = [] := by
    cases hstopped : s.stopped with
    | false => exact (hnone hstopped).1
    | true => exact (hswept hstopped).1
  have hdropped : ∀ id ∈ s.dropped, id ∈ s.swept := by
    cases hstopped : s.stopped with
    | false =>
      rw [(hnone hstopped).2]
      exact fun _ h => nomatch h
    | true => exact (hswept hstopped).2
  have hplace {id : Uuid} (hid : id ∈ s.enqueued) : (s.shared.account id).Closed id ∨
      id ∈ s.swept ∧ s.shared.account id = ⟨some .cancelled, [], []⟩ := by
    rcases h.place hid with hholds | hin | ⟨w, hw, hholds⟩ | hin | hin
    · rw [henqueuer] at hholds
      cases hholds
    · rw [hheap] at hin
      cases hin
    · rw [hworkers w hw] at hholds
      cases hholds
    · rcases (h.placed id hid).dropped hin with ⟨-, hunswept⟩ | ⟨haccount, hswept⟩
      · exact absurd (hdropped id hin) hunswept
      · exact .inr ⟨hswept, haccount⟩
    · exact .inl ((h.placed id hid).retired hin)
  exact accounted_of_accounts hchannel hplace
    (fun id hid => h.strangers id hid fun r hr => by rw [henqueuer] at hr; cases hr) h.counters

end StreamState

end Voom.JobManager
