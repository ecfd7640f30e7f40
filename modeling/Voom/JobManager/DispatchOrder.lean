-- SUMMARY: The order jobs start in: repeated claims and the stream follow priority, the batch only if its items do.
import Voom.JobManager.Accounting
import Voom.Lib.Sorting

/-!
# Dispatch order

Jobs should start by priority and, among equal priorities, in the order they
were enqueued. Repeated claims of the next job do so, and a streaming worker
does if the gate opens when all jobs are in the heap. The batch pool starts jobs
in the order they were enqueued, whatever their priorities.
-/

namespace Voom.JobManager

open Voom.Lib

/-! ## The order -/

/-- The heap entry of a job with its position. -/
def Entry.ofJob (p : Job × Nat) : Entry := .of p.1.priority p.2 p.1.id

def entries (stored : List Job) : List Entry := stored.zipIdx.map Entry.ofJob

/-- By priority, and among equal priorities in the order of the list. -/
def inOrder (stored : List Job) : List Uuid :=
  ((entries stored).mergeSort fun a b => decide (a ≤ b)).map Entry.id

/-- Repeated `claim_next_job`. -/
def claimOrder (worker now : String) : Nat → List Job → List Uuid
  | 0, _ => []
  | n + 1, jobs =>
    match claimNextJob worker now jobs with
    | (none, _) => []
    | (some job, jobs) => job.id :: claimOrder worker now n jobs

theorem Entry.of_le_of {priority priority' : Int} {seq seq' : Nat} {id id' : Uuid} :
    Entry.of priority seq id ≤ Entry.of priority' seq' id' ↔
      priority < priority' ∨ priority = priority' ∧ (seq < seq' ∨ seq = seq' ∧ id ≤ id') := by
  simp [Entry.of, Prod.Lex.toLex_le_toLex]

theorem entries_map_id (stored : List Job) : (entries stored).map Entry.id = stored.map (·.id) := by
  simp only [entries, List.map_map]
  exact (List.map_map (f := Prod.fst) (g := Job.id) (l := stored.zipIdx)).symm.trans
    (congrArg _ (List.zipIdx_map_fst 0 stored))

theorem mergeSort_pairwise (l : List Entry) :
    (l.mergeSort fun a b => decide (a ≤ b)).Pairwise (· ≤ ·) := by
  refine List.Pairwise.imp of_decide_eq_true (List.pairwise_mergeSort ?_ ?_ l)
  · intro a b c hab hbc
    exact decide_eq_true ((of_decide_eq_true hab).trans (of_decide_eq_true hbc))
  · intro a b
    simpa using le_total a b

/-- An order that a list already has is the only one. -/
theorem mergeSort_eq_of_perm {l l' : List Entry} (hperm : l.Perm l')
    (hsorted : l.Pairwise (· ≤ ·)) : l'.mergeSort (fun a b => decide (a ≤ b)) = l := by
  refine List.Perm.eq_of_pairwise (fun a b _ _ hab hba => le_antisymm hab hba) (mergeSort_pairwise l')
    hsorted ?_
  exact (List.mergeSort_perm _ _).trans hperm.symm

/-! ## Repeated claims -/

/-- The pending jobs after a claim are the others. -/
theorem pending_updateJob (worker now : String) (id : Uuid) (jobs : List Job) :
    (updateJob id (claimUpdate worker now) jobs).filter (·.status = .pending) =
      (jobs.filter (·.status = .pending)).filter (·.id ≠ id) := by
  induction jobs with
  | nil => rfl
  | cons job jobs ih =>
    have hrunning : ¬ decide (((claimUpdate worker now).apply job).status = .pending) = true := by
      simp [claimUpdate]
    simp only [updateJob, Table.modify, List.map_cons] at ih ⊢
    by_cases hid : job.id = id
    · rw [if_pos hid, List.filter_cons, if_neg hrunning]
      by_cases hpending : job.status = .pending <;> simpa [hid, hpending] using ih
    · by_cases hpending : job.status = .pending <;>
        simpa [hid, hpending] using ih

/-- Repeated claims give the pending jobs by priority and time. -/
theorem claimOrder_eq (worker now : String) {n : Nat} {jobs : List Job}
    (hkeyed : Table.Keyed Job.id jobs) (hn : (jobs.filter (·.status = .pending)).length ≤ n) :
    claimOrder worker now n jobs =
      ((jobs.filter (·.status = .pending)).mergeSort Job.le).map (·.id) := by
  induction n generalizing jobs with
  | zero =>
    rw [List.length_eq_zero_iff.mp (Nat.le_zero.mp hn)]
    simp [claimOrder]
  | succ n ih =>
    cases hsorted : (jobs.filter (·.status = .pending)).mergeSort Job.le with
    | nil => simp [claimOrder, claimNextJob, hsorted]
    | cons job rest =>
      have hperm := List.mergeSort_perm (jobs.filter (·.status = .pending)) Job.le
      rw [hsorted] at hperm
      have hids : (job.id :: rest.map Job.id).Nodup :=
        (hperm.map Job.id).nodup_iff.mpr
          (List.Nodup.sublist (List.filter_sublist.map Job.id) hkeyed)
      have hrest : (job :: rest).filter (·.id ≠ job.id) = rest := by
        rw [List.filter_cons_of_neg (by simp), List.filter_eq_self]
        intro other hother
        refine decide_eq_true fun heq => (List.nodup_cons.mp hids).1 ?_
        exact heq ▸ List.mem_map_of_mem hother
      have hlength : ((updateJob job.id (claimUpdate worker now) jobs).filter
          (·.status = .pending)).length ≤ n := by
        rw [pending_updateJob, ← (hperm.filter _).length_eq, hrest]
        have hlength := hperm.length_eq
        rw [List.length_cons] at hlength
        omega
      have hkeyed' : Table.Keyed Job.id (updateJob job.id (claimUpdate worker now) jobs) :=
        hkeyed.modify fun _ _ _ => rfl
      simp only [claimOrder, claimNextJob, hsorted, List.head?_cons, JobUpdate.apply_id,
        List.map_cons]
      rw [ih hkeyed' hlength, pending_updateJob, ← filter_mergeSort ?_ Job.le_total, hsorted, hrest]
      exact fun a b c hab hbc => Job.le_trans hab hbc

/-- If the times do not go back, that is by priority and position. -/
theorem mergeSort_le_eq_inOrder {stored : List Job}
    (hclock : stored.Pairwise fun a b => a.createdAt ≤ b.createdAt) :
    (stored.mergeSort Job.le).map (·.id) = inOrder stored := by
  have htimes {p q : Job × Nat} (hp : p ∈ stored.zipIdx) (hq : q ∈ stored.zipIdx)
      (hlt : p.2 < q.2) : p.1.createdAt ≤ q.1.createdAt := by
    obtain ⟨hp', hp⟩ := List.mem_zipIdx' hp
    obtain ⟨hq', hq⟩ := List.mem_zipIdx' hq
    rw [hp, hq]
    exact List.pairwise_iff_getElem.mp hclock p.2 q.2 hp' hq' hlt
  have hsame {p q : Job × Nat} (hp : p ∈ stored.zipIdx) (hq : q ∈ stored.zipIdx)
      (heq : p.2 = q.2) : p.1 = q.1 := by
    obtain ⟨hp', hp⟩ := List.mem_zipIdx' hp
    obtain ⟨hq', hq⟩ := List.mem_zipIdx' hq
    rw [hp, hq]
    simp only [heq]
  have hle (p : Job × Nat) (hp : p ∈ stored.zipIdx) (q : Job × Nat) (hq : q ∈ stored.zipIdx) :
      List.zipIdxLE Job.le p q = decide (Entry.ofJob p ≤ Entry.ofJob q) := by
    have hzip : List.zipIdxLE Job.le p q = true ↔
        p.1.le q.1 = true ∧ (q.1.le p.1 = true → p.2 ≤ q.2) := by
      unfold List.zipIdxLE
      (repeat' split) <;> simp_all
    rw [Bool.eq_iff_iff, hzip, decide_eq_true_eq, Entry.ofJob, Entry.ofJob, Entry.of_le_of,
      Job.le_iff, Job.le_iff]
    rcases lt_trichotomy p.2 q.2 with hlt | heq | hgt
    · simp [htimes hp hq hlt, hlt, hlt.le]
    · simp [hsame hp hq heq, heq]
    · have htime := htimes hq hp hgt
      simp only [htime, and_true, not_lt_of_gt hgt, hgt.ne', false_and, or_self, and_false, or_false,
        Nat.not_le_of_gt hgt, imp_false, not_or]
      omega
  rw [← List.mergeSort_zipIdx, inOrder, entries, ← List.map_mergeSort hle, List.map_map, List.map_map]
  rfl

/-! ## The batch -/

namespace BatchState

variable {config : PoolConfig} {start : Counters} {base : List Uuid} {s : BatchState}

/-- The tasks run one after the other, in the order the jobs were enqueued. -/
structure Line (base : List Uuid) (s : BatchState) : Prop where
  order : s.enqueued = s.tasks.map Prod.fst ++ s.main.unstarted
  stored : s.stored.map Job.id = s.enqueued
  claimed : s.shared.queue.claimed = base ++ (s.tasks.filter (·.2.isClaimed)).map Prod.fst
  earlier : ∀ t ∈ s.tasks.dropLast, t.2.isFinished = true
  main : ∀ id ids, s.main ≠ .sweeping ids ∧ s.main ≠ .sweepWrite id ids

theorem isClaimed_of_isFinished {p : TaskPoint} (h : p.isFinished = true) : p.isClaimed = true := by
  cases p with
  | finished => rfl
  | _ => cases h

theorem Line.mainStep (h : Line base s) (hone : config.workers = 1)
    (hrunning : s.shared.cancelled = false) (reply : MainReply) :
    Line base (s.mainStep config reply) := by
  have hmove {p : BatchPoint} (hunstarted : p.unstarted = s.main.unstarted)
      (hmain : ∀ id ids, p ≠ .sweeping ids ∧ p ≠ .sweepWrite id ids) :
      Line base { s with main := p } :=
    ⟨hunstarted ▸ h.order, h.stored, h.claimed, h.earlier, hmain⟩
  have hreject {id : Uuid} {error : String} {items : List WorkItem} {ids : List Uuid}
      (hunstarted : ids = s.main.unstarted) :
      Line base { s.reject id error with main := .enqueuing items ids } :=
    ⟨hunstarted ▸ h.order, h.stored, h.claimed, h.earlier, fun _ _ => ⟨by rintro ⟨⟩, by rintro ⟨⟩⟩⟩
  have horder := h.order
  unfold BatchState.mainStep
  split
  case h_1 hmain => exact hmove (by rw [hmain]; rfl) fun _ _ => ⟨by rintro ⟨⟩, by rintro ⟨⟩⟩
  case h_2 hmain =>
    rw [hmain] at horder
    split
    · exact hreject (by rw [hmain]; rfl)
    · split
      · exact hreject (by rw [hmain]; rfl)
      · refine ⟨?_, ?_, ?_, h.earlier, fun _ _ => ⟨by rintro ⟨⟩, by rintro ⟨⟩⟩⟩
        · simp only [horder, BatchPoint.unstarted, List.append_assoc]
        · simp only [List.map_append, h.stored, List.map_singleton]
        · refine Eq.trans ?_ h.claimed
          simp only [Shared.call, QueueState.step, QueueState.enqueue]
          split <;> rfl
  case h_3 hmain => exact hmove (by rw [hmain]; rfl) fun _ _ => ⟨by rintro ⟨⟩, by rintro ⟨⟩⟩
  case h_4 id ids hmain =>
    rw [hmain] at horder
    simp only [hrunning, Bool.false_eq_true, false_and, if_false]
    split
    · rename_i hfree
      -- The one permit is free, so all tasks so far have finished.
      have hfinished : ∀ t ∈ s.tasks, t.2.isFinished = true := by
        rw [hone, Nat.lt_one_iff, active, List.countP_eq_zero] at hfree
        exact fun t ht => by simpa using hfree t ht
      refine ⟨?_, h.stored, ?_, ?_, fun _ _ => ⟨by rintro ⟨⟩, by rintro ⟨⟩⟩⟩
      · simp only [horder, BatchPoint.unstarted, List.map_append, List.map_singleton,
          List.append_assoc, List.singleton_append]
      · simp only [List.filter_append, h.claimed]
        simp [TaskPoint.isClaimed]
      · rw [List.dropLast_concat]
        exact hfinished
    · exact h
  case h_5 hmain => exact absurd hmain (h.main 0 []).1
  case h_6 id ids hmain => exact absurd hmain (h.main id _).1
  case h_7 id ids hmain => exact absurd hmain (h.main id ids).2
  case h_8 hmain =>
    split
    · refine ⟨h.order, h.stored, Eq.trans ?_ h.claimed, h.earlier, h.main⟩
      simp only [Shared.receive]
      split <;> rfl
    · split
      · exact hmove (by rw [hmain]; rfl) fun _ _ => ⟨by rintro ⟨⟩, by rintro ⟨⟩⟩
      · exact h
  case h_9 => exact h

theorem filter_isClaimed {tasks : List (Uuid × TaskPoint)}
    (h : ∀ t ∈ tasks, t.2.isFinished = true) : tasks.filter (·.2.isClaimed) = tasks :=
  List.filter_eq_self.mpr fun t ht => isClaimed_of_isFinished (h t ht)

/-- A task that has not finished is the last. -/
theorem Line.last (h : Line base s) {id : Uuid} {p : TaskPoint} (hmem : (id, p) ∈ s.tasks)
    (hp : p.isFinished = false) : ∃ init, s.tasks = init ++ [(id, p)] ∧
      ∀ t ∈ init, t.2.isFinished = true := by
  have hearlier := h.earlier
  rcases s.tasks.eq_nil_or_concat with hnil | ⟨init, last, hconcat⟩
  · rw [hnil] at hmem
    cases hmem
  · rw [List.concat_eq_append] at hconcat
    rw [hconcat] at hmem hearlier ⊢
    rw [List.dropLast_concat] at hearlier
    rcases List.mem_append.mp hmem with hin | hin
    · rw [hearlier _ hin] at hp
      cases hp
    · rw [List.mem_singleton] at hin
      exact ⟨init, by rw [hin], hearlier⟩

/-- The task that runs goes on, and adds its job to the claims when it claims it. -/
theorem Line.advance (h : Line base s) {init : List (Uuid × TaskPoint)} {id : Uuid}
    {p p' : TaskPoint} {shared : Shared} (htasks : s.tasks = init ++ [(id, p)])
    (hinit : ∀ t ∈ init, t.2.isFinished = true)
    (hclaimed : p'.isClaimed = p.isClaimed ∧ shared.queue.claimed = s.shared.queue.claimed ∨
      p.isClaimed = false ∧ p'.isClaimed = true ∧
        shared.queue.claimed = s.shared.queue.claimed ++ [id]) :
    Line base { s with shared, tasks := init ++ [(id, p')] } := by
  have hold := h.claimed
  rw [htasks, List.filter_append, filter_isClaimed hinit] at hold
  refine ⟨?_, h.stored, ?_, ?_, h.main⟩
  · simpa [htasks] using h.order
  · simp only [List.filter_append, filter_isClaimed hinit]
    rcases hclaimed with ⟨hpoint, hqueue⟩ | ⟨hp, hp', hqueue⟩
    · rw [hqueue, hold]
      simp [List.filter_cons, hpoint, apply_ite]
    · rw [hqueue, hold]
      simp [hp, hp']
  · rw [List.dropLast_concat]
    exact hinit

theorem Line.taskStep (h : Line base s) (hinv : Inv start s) (hrunning : s.shared.cancelled = false)
    {id : Uuid} {reply : Reply} (hclaim : reply.claimError = none) :
    Line base (s.taskStep config id reply) := by
  unfold BatchState.taskStep
  split
  · exact h
  · rename_i other p hfind
    obtain rfl : other = id := by simpa using List.find?_some hfind
    have hmem : (other, p) ∈ s.tasks := List.mem_of_find?_eq_some hfind
    have hkeys : Table.Keyed Prod.fst s.tasks := by
      have hnodup := hinv.places.nodup_iff.mp hinv.nodup
      rw [List.append_assoc] at hnodup
      exact (List.nodup_append.mp hnodup).1
    cases hp : p.isFinished with
    | true =>
      obtain rfl : p = .finished := by
        cases p <;> first | rfl | cases hp
      have htasks : Table.modify Prod.fst other (fun _ => (other, .finished)) s.tasks = s.tasks := by
        refine (List.map_congr_left fun t ht => ?_).trans (List.map_id _)
        split
        · exact (hkeys.eq_of_key ht hmem ‹_›).symm
        · rfl
      simp only [JobManager.advance, htasks]
      exact h
    | false =>
      obtain ⟨init, htasks, hinit⟩ := h.last hmem hp
      have hmodify (p' : TaskPoint) :
          Table.modify Prod.fst other (fun _ => (other, p')) s.tasks = init ++ [(other, p')] := by
        have hnew : ∀ t ∈ init, t.1 ≠ other := by
          unfold Table.Keyed at hkeys
          rw [htasks, List.map_append, List.nodup_append] at hkeys
          exact fun t ht => hkeys.2.2 t.1 (List.mem_map_of_mem ht) other (by simp)
        rw [htasks, Table.modify, List.map_append]
        congr 1
        · exact (List.map_congr_left fun t ht => if_neg (hnew t ht)).trans (List.map_id _)
        · simp
      simp only [hmodify]
      refine h.advance htasks hinit ?_
      cases hpoint : p.isClaimed with
      | true => exact .inl ⟨advance_isClaimed _ _ _ _ hpoint, advance_claimed _ _ _ _ hpoint⟩
      | false =>
        cases p with
        | start => exact .inl (by simp [JobManager.advance, hrunning, TaskPoint.isClaimed])
        | claiming =>
          have hpending : s.shared.queue.statusOf other = some .pending :=
            congrArg Account.status (hinv.tasks _ hmem)
          obtain ⟨job, -, hfound⟩ :=
            QueueState.claimJobById_of_pending hpending reply.worker reply.now
          refine .inr ⟨rfl, ?_⟩
          simp only [JobManager.advance, hclaim, hfound]
          exact ⟨rfl, QueueState.claimed_step_claimById hpending _ _⟩
        | _ => cases hpoint

/-- No claim fails. -/
def ClaimsOk (_ : BatchState) (act : BatchAct) : Prop :=
  ∀ id reply, act = .task id reply → reply.claimError = none

/-- As long as the token is not cancelled, the jobs are accounted for and in line. -/
theorem line_step (hone : config.workers = 1) {act : BatchAct} (hfresh : FreshIds s act)
    (hclaim : ClaimsOk s act)
    (h : s.shared.cancelled = false → Inv start s ∧ Line base s)
    (hrunning : (s.step config act).shared.cancelled = false) :
    Inv start (s.step config act) ∧ Line base (s.step config act) := by
  have hbefore : s.shared.cancelled = false := by
    by_contra hcancelled
    rw [cancelled_step act (by simpa using hcancelled)] at hrunning
    cases hrunning
  obtain ⟨hinv, hline⟩ := h hbefore
  cases act with
  | main reply => exact ⟨hinv.mainStep hfresh, hline.mainStep hone hbefore reply⟩
  | task id reply =>
    refine ⟨hinv.taskStep ⟨fun _ _ _ _ => hbefore, fun id reply heq _ => hclaim id reply heq⟩, ?_⟩
    exact hline.taskStep hinv hbefore (hclaim id reply rfl)
  | cancel => cases hrunning

theorem Line.claimed_eq (h : Line base s) (hinv : Inv start s) (hreturned : s.main = .returned) :
    s.shared.queue.claimed = base ++ s.stored.map Job.id := by
  have horder := h.order
  rw [hreturned] at horder
  rw [h.claimed, filter_isClaimed (hinv.returned hreturned).2, h.stored, horder]
  exact congrArg _ (List.append_nil _).symm

/-- With one worker and no cancellation, the batch starts its jobs as they were
enqueued. -/
theorem claimed_eq_stored (hone : config.workers = 1) {items : List WorkItem} {queue : QueueState}
    {counters : Counters} {acts : List BatchAct}
    (hrun : Along (step config) (fun s act => FreshIds s act ∧ ClaimsOk s act)
      (initial items queue counters false) acts)
    (hreturned : ((initial items queue counters false).run config acts).main = .returned)
    (hrunning : ((initial items queue counters false).run config acts).shared.cancelled = false) :
    ((initial items queue counters false).run config acts).shared.queue.claimed =
        queue.claimed ++ ((initial items queue counters false).run config acts).stored.map Job.id ∧
      Table.Keyed Job.id ((initial items queue counters false).run config acts).stored := by
  have hline : Line queue.claimed (initial items queue counters false) :=
    ⟨rfl, rfl, (List.append_nil _).symm, nofun, fun _ _ => ⟨nofun, nofun⟩⟩
  have hstep (s : BatchState) (act : BatchAct)
      (hs : s.shared.cancelled = false → Inv counters s ∧ Line queue.claimed s)
      (h : FreshIds s act ∧ ClaimsOk s act) :
      (s.step config act).shared.cancelled = false →
        Inv counters (s.step config act) ∧ Line queue.claimed (s.step config act) :=
    line_step hone h.1 h.2 hs
  have hend := Along.invariant hstep (fun _ => ⟨initial_inv items queue counters false, hline⟩) hrun
  obtain ⟨hinv, hline⟩ := hend hrunning
  exact ⟨hline.claimed_eq hinv hreturned, (congrArg List.Nodup hline.stored).mpr hinv.nodup⟩

end BatchState

/-! ## The stream -/

/-- The job a worker has popped and not claimed. -/
def WorkerPoint.inHand : WorkerPoint → List Uuid
  | .claiming id => [id]
  | _ => []

/-- A worker that the gate keeps. -/
def WorkerPoint.Gated (w : WorkerPoint) : Prop := w = .spawned ∨ w = .waiting

namespace StreamState

variable {config : PoolConfig} {start : Counters} {base : List Uuid} {s : StreamState}

/-- The entries pushed so far. -/
def pushed (s : StreamState) : List Entry := (entries s.stored).take s.seq

/-- A single worker takes the jobs in order. While the enqueuer is at work the gate
keeps the worker; after that, what was claimed is followed by the job in hand and
the heap. -/
structure Line (base : List Uuid) (s : StreamState) : Prop where
  one : ∃ w, s.workers = [w]
  seq : ∀ priority id, s.enqueuer = .pushing priority id → s.stored.length = s.seq + 1 ∧
    (entries s.stored)[s.seq]? = some (.of priority s.seq id)
  all : (∀ priority id, s.enqueuer ≠ .pushing priority id) → s.seq = s.stored.length
  gated : s.enqueuer ≠ .done → (∀ w ∈ s.workers, w.Gated) ∧ s.shared.queue.claimed = base ∧
    s.heap.Pairwise (· ≤ ·) ∧ s.heap.Perm s.pushed
  started : s.enqueuer = .done → ∃ claimed, s.shared.queue.claimed = base ++ claimed ∧
    claimed ++ s.workers.flatMap WorkerPoint.inHand ++ s.heap.map Entry.id = inOrder s.stored
  stopped : s.stopped = false

/-- The gate opens when the enqueuer is done, and no claim fails. -/
structure InTurn (s : StreamState) (act : StreamAct) : Prop where
  gate : act = .notify → s.enqueuer = .done
  claim : ∀ i reply, act = .worker i reply → reply.claimError = none

theorem entries_append (stored : List Job) (job : Job) :
    entries (stored ++ [job]) = entries stored ++ [.of job.priority stored.length job.id] := by
  simp [entries, List.zipIdx_append, Entry.ofJob]

@[simp] theorem length_entries (stored : List Job) : (entries stored).length = stored.length := by
  simp [entries]

theorem Line.enqueuerStep (h : Line base s) (hrunning : s.shared.cancelled = false)
    (reply : MainReply) : Line base (s.enqueuerStep reply) := by
  -- The enqueuer goes on without a job to push.
  have hmove {p : EnqueuerPoint} {input : List WorkItem} {shared : Shared} {ids : List Uuid}
      (hold : ∀ priority id, s.enqueuer ≠ .pushing priority id) (hopen : s.enqueuer ≠ .done)
      (hnew : ∀ priority id, p ≠ .pushing priority id) (hdone : p ≠ .done)
      (hclaimed : shared.queue.claimed = s.shared.queue.claimed) :
      Line base { s with input, shared, enqueuedIds := ids, enqueuer := p } := by
    obtain ⟨hgated, hbase, hsorted, hperm⟩ := h.gated hopen
    exact ⟨h.one, fun priority id hp => absurd hp (hnew priority id), fun _ => h.all hold,
      fun _ => ⟨hgated, hclaimed.trans hbase, hsorted, hperm⟩, fun hp => absurd hp hdone, h.stopped⟩
  unfold StreamState.enqueuerStep
  split
  case h_1 hpoint =>
    have hold : ∀ priority id, s.enqueuer ≠ .pushing priority id := by
      rw [hpoint]
      rintro _ _ ⟨⟩
    have hopen : s.enqueuer ≠ .done := by
      rw [hpoint]
      rintro ⟨⟩
    simp only [hrunning, Bool.false_eq_true, if_false]
    split
    · split
      · exact hmove hold hopen (fun _ _ => by rintro ⟨⟩) (by rintro ⟨⟩) rfl
      · exact h
    · rename_i item input _
      split
      · exact hmove hold hopen (fun _ _ => by rintro ⟨⟩) (by rintro ⟨⟩) rfl
      · split
        · exact hmove hold hopen (fun _ _ => by rintro ⟨⟩) (by rintro ⟨⟩) rfl
        · rename_i id _
          -- The row of the new job comes after those that were pushed.
          have hall := h.all hold
          have hpushed (job : Job) : (entries (s.stored ++ [job])).take s.seq = s.pushed := by
            rw [entries_append, List.take_append_of_le_length (by simp [hall])]
            rfl
          obtain ⟨hgated, hbase, hsorted, hperm⟩ := h.gated hopen
          refine ⟨h.one, fun priority id' heq => ?_, fun hnew => ?_, fun _ => ?_, by rintro ⟨⟩,
            h.stopped⟩
          · cases heq
            refine ⟨by simp [hall], ?_⟩
            rw [entries_append, hall]
            simp
          · exact absurd rfl (hnew item.priority id)
          · refine ⟨hgated, Eq.trans ?_ hbase, hsorted, hperm.trans (.of_eq (hpushed _).symm)⟩
            simp only [Shared.call, QueueState.step, QueueState.enqueue]
            split <;> rfl
  case h_2 r hpoint =>
    exact hmove (by simp [hpoint]) (by simp [hpoint]) (fun _ _ => by rintro ⟨⟩) (by rintro ⟨⟩) rfl
  case h_3 r hpoint =>
    split
    · exact hmove (by simp [hpoint]) (by simp [hpoint]) (fun _ _ => by rintro ⟨⟩) (by rintro ⟨⟩) rfl
    · exact h
  case h_4 priority id hpoint =>
    obtain ⟨hlength, hentry⟩ := h.seq priority id hpoint
    obtain ⟨hgated, hbase, hsorted, hperm⟩ := h.gated (by simp [hpoint])
    refine ⟨h.one, fun _ _ => by rintro ⟨⟩, fun _ => hlength.symm,
      fun _ => ⟨hgated, hbase, ?_, ?_⟩, by rintro ⟨⟩, h.stopped⟩
    · exact hsorted.orderedInsert _ _
    · refine (List.perm_orderedInsert _ _ _).trans ?_
      change (Entry.of priority s.seq id :: s.heap).Perm ((entries s.stored).take (s.seq + 1))
      rw [List.take_add_one, hentry]
      exact (hperm.cons _).trans (List.perm_append_singleton _ _).symm
  case h_5 id hpoint =>
    exact hmove (by simp [hpoint]) (by simp [hpoint]) (fun _ _ => by rintro ⟨⟩) (by rintro ⟨⟩) rfl
  case h_6 hpoint =>
    obtain ⟨hgated, hbase, hsorted, hperm⟩ := h.gated (by simp [hpoint])
    have hall := h.all (by simp [hpoint])
    have hhand : s.workers.flatMap WorkerPoint.inHand = [] := by
      rw [List.flatMap_eq_nil_iff]
      intro w hw
      rcases hgated w hw with rfl | rfl <;> rfl
    have hheap : s.heap.map Entry.id = inOrder s.stored := by
      have hpushed : s.pushed = entries s.stored := List.take_of_length_le (by simp [hall])
      rw [inOrder, mergeSort_eq_of_perm (hpushed ▸ hperm) hsorted]
    refine ⟨h.one, fun _ _ => by rintro ⟨⟩, fun _ => hall, fun hopen => absurd rfl hopen, fun _ => ?_,
      h.stopped⟩
    exact ⟨[], by simpa using hbase, by simpa [hhand] using hheap⟩
  case h_7 => exact h

/-- The worker goes on; what it claims comes from its hand and the heap, in order. -/
theorem Line.setWorker (h : Line base s) {i : Nat} {w w' : WorkerPoint}
    (hi : s.workers[i]? = some w) (hopen : s.enqueuer ≠ .done → w.Gated → w'.Gated)
    {shared : Shared} {heap : List Entry} {retired : List Uuid} (more : List Uuid)
    (hgated : s.enqueuer ≠ .done → w.Gated → heap = s.heap ∧ more = [])
    (hclaimed : shared.queue.claimed = s.shared.queue.claimed ++ more)
    (hhand : more ++ w'.inHand ++ heap.map Entry.id = w.inHand ++ s.heap.map Entry.id) :
    Line base ({ s with shared, heap, retired }.setWorker i w') := by
  obtain ⟨v, hone⟩ := h.one
  obtain ⟨rfl, rfl⟩ : i = 0 ∧ v = w := by
    rw [hone] at hi
    cases i with
    | zero => exact ⟨rfl, by simpa using hi⟩
    | succ i => simp at hi
  have hset : s.workers.set 0 w' = [w'] := by rw [hone]; rfl
  refine ⟨⟨w', hset⟩, h.seq, h.all, fun hne => ?_, fun hdone => ?_, h.stopped⟩
  · obtain ⟨hworkers, hbase, hsorted, hperm⟩ := h.gated hne
    have hv := hworkers v (by rw [hone]; exact List.mem_singleton_self v)
    obtain ⟨rfl, rfl⟩ := hgated hne hv
    refine ⟨fun u hu => ?_, hclaimed.trans (by rw [List.append_nil, hbase]), hsorted,
      hperm⟩
    simp only [StreamState.setWorker, hset, List.mem_singleton] at hu
    exact hu ▸ hopen hne hv
  · obtain ⟨claimed, hbase, horder⟩ := h.started hdone
    refine ⟨claimed ++ more, ?_, ?_⟩
    · simp [StreamState.setWorker, hclaimed, hbase]
    · simp only [hone, List.flatMap_singleton, List.append_assoc] at horder
      simp only [StreamState.setWorker, hset, List.flatMap_singleton, List.append_assoc]
      rw [← horder, ← hhand, List.append_assoc]

theorem Line.workerStep (h : Line base s) (hinv : Inv start s)
    (hrunning : s.shared.cancelled = false) (i : Nat) {reply : Reply}
    (hclaim : reply.claimError = none) : Line base (s.workerStep config i reply) := by
  -- A worker that holds no job and touches nothing shared.
  have hidle {w w' : WorkerPoint} (hi : s.workers[i]? = some w) (hw : w.inHand = [])
      (hw' : w'.inHand = []) (hopen : w.Gated → w'.Gated) : Line base (s.setWorker i w') :=
    h.setWorker hi (fun _ => hopen) [] (fun _ _ => ⟨rfl, rfl⟩) (List.append_nil _).symm
      (by rw [hw, hw']; rfl)
  unfold StreamState.workerStep
  split
  case h_1 => exact h
  case h_2 hi =>
    rw [hrunning]
    exact hidle hi rfl rfl fun _ => .inr rfl
  case h_3 hi =>
    rw [hrunning]
    exact h
  case h_4 hi => exact hidle hi rfl (by split <;> rfl) (fun hw => by cases hw <;> contradiction)
  case h_5 hi =>
    split
    · exact hidle hi rfl rfl (fun hw => by cases hw <;> contradiction)
    · rename_i e heap hheap
      refine h.setWorker hi (fun _ hw => by cases hw <;> contradiction) []
        (fun _ hw => by cases hw <;> contradiction) (List.append_nil _).symm ?_
      rw [hheap]
      rfl
  case h_6 hi => exact hidle hi rfl (by split <;> rfl) (fun hw => by cases hw <;> contradiction)
  case h_7 hi => exact hidle hi rfl (by split <;> rfl) (fun hw => by cases hw <;> contradiction)
  case h_8 id hi =>
    have hid : id ∈ s.enqueued := hinv.mem_of_holds (List.mem_of_getElem? hi) rfl
    have hpending := (hinv.placed id hid).workers _ (List.mem_of_getElem? hi) rfl
    have hstatus : s.shared.queue.statusOf id = some .pending := congrArg Account.status hpending
    obtain ⟨job, -, hfound⟩ := QueueState.claimJobById_of_pending hstatus reply.worker reply.now
    rw [hclaim, hfound]
    exact h.setWorker hi (fun _ hw => by cases hw <;> contradiction) [id]
      (fun _ hw => by cases hw <;> contradiction)
      (QueueState.claimed_step_claimById hstatus _ _) rfl
  case h_9 id hi => exact hidle hi rfl rfl (fun hw => by cases hw <;> contradiction)
  case h_10 id pre p hi =>
    have hid : id ∈ s.enqueued := hinv.mem_of_holds (List.mem_of_getElem? hi) rfl
    obtain ⟨hpoint, -, -⟩ := (hinv.placed id hid).workers _ (List.mem_of_getElem? hi) rfl
    have hclaimed := advance_claimed config.strategy s.capacity id reply (s := s.shared) hpoint
    generalize advance config.strategy s.capacity id reply s.shared p = next at *
    simp only
    split
    all_goals
      exact h.setWorker hi (fun _ hw => by cases hw <;> contradiction) []
        (fun _ hw => by cases hw <;> contradiction)
        (hclaimed.trans (List.append_nil _).symm) rfl
  case h_11 hi => exact hidle hi rfl (by split <;> rfl) (fun hw => by cases hw <;> contradiction)
  case h_12 => exact h

theorem Line.mainStep (h : Line base s) (hinv : Inv start s) (hrunning : s.shared.cancelled = false)
    (now : String) : Line base (s.mainStep now) := by
  have hmove {p : StreamPoint} : Line base { s with main := p } :=
    ⟨h.one, h.seq, h.all, h.gated, h.started, h.stopped⟩
  -- A pool that was not stopped does not sweep.
  have hsweeping (hs : s.Sweeping) : False := by
    have hstopped := hs.2.2
    rw [h.stopped] at hstopped
    cases hstopped
  have hmatches := hinv.main
  unfold StreamState.mainStep
  split
  case h_1 => split <;> exact hmove
  case h_2 =>
    rw [hrunning]
    exact hmove
  case h_7 => exact h
  all_goals
    rename_i hmain
    rw [hmain] at hmatches
  case h_3 => exact (hsweeping hmatches).elim
  all_goals exact (hsweeping hmatches.1).elim

theorem Line.step (h : Line base s) (hinv : Inv start s) (hrunning : s.shared.cancelled = false)
    {act : StreamAct} (hturn : InTurn s act) (hact : act ≠ .cancel) :
    Line base (s.step config act) := by
  cases act with
  | produce item =>
    simp only [StreamState.step]
    split
    · exact h
    · exact ⟨h.one, h.seq, h.all, h.gated, h.started, h.stopped⟩
  | close => exact ⟨h.one, h.seq, h.all, h.gated, h.started, h.stopped⟩
  | cancel => exact absurd rfl hact
  | enqueuer reply => exact h.enqueuerStep hrunning reply
  | worker i reply => exact h.workerStep hinv hrunning i (hturn.claim i reply rfl)
  | main now => exact h.mainStep hinv hrunning now
  | collect =>
    have hclaimed : s.shared.receive.queue.claimed = s.shared.queue.claimed := by
      unfold Shared.receive
      split <;> rfl
    refine ⟨h.one, h.seq, h.all, fun hopen => ?_, fun hdone => ?_, h.stopped⟩
    · obtain ⟨hgated, hbase, hrest⟩ := h.gated hopen
      exact ⟨hgated, hclaimed.trans hbase, hrest⟩
    · obtain ⟨claimed, hbase, horder⟩ := h.started hdone
      exact ⟨claimed, hclaimed.trans hbase, horder⟩
  | notify =>
    have hdone := hturn.gate rfl
    obtain ⟨w, hone⟩ := h.one
    have hwake : s.workers.map WorkerPoint.wake = [w.wake] := by rw [hone]; rfl
    have hhand : w.wake.inHand = w.inHand := by cases w <;> rfl
    refine ⟨⟨w.wake, hwake⟩, h.seq, h.all, fun hopen => absurd hdone hopen, fun _ => ?_, h.stopped⟩
    obtain ⟨claimed, hbase, horder⟩ := h.started hdone
    refine ⟨claimed, hbase, ?_⟩
    simp only [StreamState.step, StreamState.notify, hwake, List.flatMap_singleton, hhand]
    simpa only [hone, List.flatMap_singleton] using horder

theorem cancelled_step (act : StreamAct) (h : s.shared.cancelled = true) :
    (s.step config act).shared.cancelled = true := by
  cases act with
  | produce item =>
    simp only [StreamState.step]
    split <;> exact h
  | close | notify => exact h
  | cancel => rfl
  | enqueuer reply =>
    simp only [StreamState.step, StreamState.enqueuerStep]
    (repeat' split) <;> exact h
  | worker i reply =>
    simp only [StreamState.step, StreamState.workerStep]
    split
    case h_10 id pre p hi =>
      have hcancelled := advance_cancelled config.strategy s.capacity id reply p h
      generalize advance config.strategy s.capacity id reply s.shared p = next at *
      split <;> exact hcancelled
    all_goals (repeat' split) <;> exact h
  | collect =>
    simp only [StreamState.step, Shared.receive]
    split <;> exact h
  | main now =>
    simp only [StreamState.step, StreamState.mainStep]
    (repeat' split) <;> exact h

/-- What a run with one worker keeps as long as the token is not cancelled. -/
def Orderly (config : PoolConfig) (start : Counters) (base : List Uuid) (s : StreamState) : Prop :=
  Inv start s ∧ (s.shared.cancelled = false → Exits config s ∧ Line base s)

theorem Orderly.step (h : Orderly config start base s) {act : StreamAct} (hfresh : FreshIds s act)
    (hturn : InTurn s act) : Orderly config start base (s.step config act) := by
  refine ⟨h.1.step hfresh, fun hrunning => ?_⟩
  have hbefore : s.shared.cancelled = false := by
    by_contra hcancelled
    rw [cancelled_step act (by simpa using hcancelled)] at hrunning
    cases hrunning
  obtain ⟨hexits, hline⟩ := h.2 hbefore
  have hguard : Guarded config s act := by
    refine ⟨fun i reply id hact _ => hturn.claim i reply hact, fun _ reply r _ hcounting w hw => ?_⟩
    rcases (hline.gated (by rw [hcounting]; exact nofun)).1 w hw with rfl | rfl <;> rfl
  have hact : act ≠ .cancel := by
    rintro rfl
    cases hrunning
  exact ⟨hexits.step h.1 hguard, hline.step h.1 hbefore hturn hact⟩

/-- With one worker, no cancellation and the gate opened when all jobs are in the
heap, the stream starts its jobs in order. -/
theorem claimed_eq_inOrder (hone : config.workers = 1) {queue : QueueState} {counters : Counters}
    {acts : List StreamAct}
    (hrun : Along (step config) (fun s act => FreshIds s act ∧ InTurn s act)
      (initial config queue counters false) acts)
    (hreturned : ((initial config queue counters false).run config acts).main = .returned)
    (hrunning : ((initial config queue counters false).run config acts).shared.cancelled = false) :
    ((initial config queue counters false).run config acts).shared.queue.claimed =
      queue.claimed ++ inOrder ((initial config queue counters false).run config acts).stored := by
  have hworkers : (initial config queue counters false).workers = [.spawned] := by
    simp [initial, hone]
  have hline : Line queue.claimed (initial config queue counters false) := by
    refine ⟨⟨_, hworkers⟩, fun _ _ => by rintro ⟨⟩, fun _ => rfl,
      fun _ => ⟨fun w hw => ?_, rfl, .nil, .nil⟩, by rintro ⟨⟩, rfl⟩
    rw [hworkers, List.mem_singleton] at hw
    exact .inl hw
  have horderly : Orderly config counters queue.claimed
      ((initial config queue counters false).run config acts) :=
    Along.invariant (fun _ _ hs h => hs.step h.1 h.2)
      ⟨initial_inv config queue counters false,
        fun _ => ⟨initial_exits config (by omega) queue counters false, hline⟩⟩ hrun
  obtain ⟨hinv, hend⟩ := horderly
  obtain ⟨hexits, hline⟩ := hend hrunning
  have hheap := hexits.returned hreturned hline.stopped
  obtain ⟨hdone, hexited, -⟩ := hinv.joined (by rw [hreturned]; rintro ⟨⟩)
  obtain ⟨claimed, hclaimed, horder⟩ := hline.started hdone
  have hhand : ((initial config queue counters false).run config acts).workers.flatMap
      WorkerPoint.inHand = [] := by
    rw [List.flatMap_eq_nil_iff]
    intro w hw
    rw [hexited w hw]
    rfl
  rw [hheap, hhand, List.append_nil, List.map_nil, List.append_nil] at horder
  rw [hclaimed, horder]

/-! ### Any number of workers -/

/-- A worker that takes a job takes the first in the heap. -/
def TakesFirst (config : PoolConfig) (s : StreamState) (act : StreamAct) : Prop :=
  ∀ (i : Nat) (id : Uuid), (s.step config act).workers[i]? = some (.claiming id) →
    s.workers[i]? ≠ some (.claiming id) → ∃ e ∈ s.heap, e.id = id ∧ ∀ other ∈ s.heap, e ≤ other

/-- The entries are always in the order they are popped. -/
theorem heap_sorted_step (h : s.heap.Pairwise (· ≤ ·)) (act : StreamAct) :
    (s.step config act).heap.Pairwise (· ≤ ·) := by
  cases act with
  | produce item =>
    simp only [StreamState.step]
    split <;> exact h
  | enqueuer reply =>
    simp only [StreamState.step, StreamState.enqueuerStep]
    split
    case h_4 => exact h.orderedInsert _ _
    all_goals (repeat' split) <;> exact h
  | worker i reply =>
    simp only [StreamState.step, StreamState.workerStep]
    split
    case h_5 =>
      split
      · exact h
      · rename_i e heap hheap
        rw [hheap] at h
        exact (List.pairwise_cons.mp h).2
    all_goals (repeat' split) <;> exact h
  | main now =>
    simp only [StreamState.step, StreamState.mainStep]
    (repeat' split) <;> first | exact h | exact .nil
  | _ => exact h

theorem takesFirst_of_sorted (h : s.heap.Pairwise (· ≤ ·)) (act : StreamAct) :
    TakesFirst config s act := by
  intro i id hafter hbefore
  have hset {j : Nat} {w : WorkerPoint} (hw : (s.workers.set j w)[i]? = some (.claiming id)) :
      w = .claiming id := by
    rw [List.getElem?_set] at hw
    split at hw
    · split at hw
      · exact Option.some.inj hw
      · cases hw
    · exact absurd hw hbefore
  cases act with
  | worker j reply =>
    simp only [StreamState.step, StreamState.workerStep] at hafter
    split at hafter
    case h_5 hi =>
      split at hafter
      · cases hset hafter
      · rename_i e heap hheap
        have hid : e.id = id := by simpa using hset hafter
        rw [hheap] at h ⊢
        refine ⟨e, List.mem_cons_self, hid, fun other hother => ?_⟩
        rcases List.mem_cons.mp hother with rfl | hother
        · exact le_refl _
        · exact (List.pairwise_cons.mp h).1 other hother
    case h_10 => 
      split at hafter
      · cases hset hafter
      · cases hset hafter
    all_goals
      (repeat' split at hafter) <;>
        first
        | exact absurd hafter hbefore
        | cases hset hafter
  | notify =>
    simp only [StreamState.step, StreamState.notify, List.getElem?_map, Option.map_eq_some_iff] at hafter
    obtain ⟨w, hw, hwake⟩ := hafter
    cases w with
    | claiming other =>
      cases hwake
      exact absurd hw hbefore
    | _ => cases hwake
  | produce item =>
    simp only [StreamState.step] at hafter
    split at hafter <;> exact absurd hafter hbefore
  | enqueuer reply =>
    simp only [StreamState.step, StreamState.enqueuerStep] at hafter
    (repeat' split at hafter) <;> exact absurd hafter hbefore
  | main now =>
    simp only [StreamState.step, StreamState.mainStep] at hafter
    (repeat' split at hafter) <;> exact absurd hafter hbefore
  | _ => exact absurd hafter hbefore

end StreamState

/-! ## Both pools -/

/-- Entries are in order exactly if the priorities are. -/
theorem entries_pairwise_iff (stored : List Job) :
    (entries stored).Pairwise (· ≤ ·) ↔ stored.Pairwise fun a b => a.priority ≤ b.priority := by
  have hentry (i j : Nat) (hi : i < stored.length) (hj : j < stored.length) (hij : i < j) :
      Entry.of stored[i].priority i stored[i].id ≤ Entry.of stored[j].priority j stored[j].id ↔
        stored[i].priority ≤ stored[j].priority := by
    simp only [Entry.of_le_of, hij, true_or, and_true]
    exact le_iff_lt_or_eq.symm
  rw [List.pairwise_iff_getElem, List.pairwise_iff_getElem]
  constructor
  · intro h i j hi hj hij
    have hle := h i j (by simpa [entries] using hi) (by simpa [entries] using hj) hij
    simp only [entries, List.getElem_map, List.getElem_zipIdx, Nat.zero_add] at hle
    exact (hentry i j hi hj hij).mp hle
  · intro h i j hi hj hij
    have hi' : i < stored.length := by simpa [entries] using hi
    have hj' : j < stored.length := by simpa [entries] using hj
    simp only [entries, List.getElem_map, List.getElem_zipIdx, Nat.zero_add]
    exact (hentry i j hi' hj' hij).mpr (h i j hi' hj' hij)

/-- Elements with the same keys in the same places are the same. -/
theorem eq_of_perm_of_map_id {l l' : List Entry} (hperm : l'.Perm l) (hids : (l.map Entry.id).Nodup)
    (hmap : l.map Entry.id = l'.map Entry.id) : l = l' := by
  refine List.ext_getElem hperm.length_eq.symm fun i hi hi' => ?_
  refine List.inj_on_of_nodup_map hids (List.getElem_mem hi)
    (hperm.mem_iff.mp (List.getElem_mem hi')) ?_
  have hget : (l.map Entry.id)[i]? = (l'.map Entry.id)[i]? := by rw [hmap]
  simpa [hi, hi'] using hget

/-- The order of the jobs is that of their priorities exactly if these do not
decrease. -/
theorem map_id_eq_inOrder_iff {stored : List Job} (hkeyed : Table.Keyed Job.id stored) :
    stored.map Job.id = inOrder stored ↔ stored.Pairwise fun a b => a.priority ≤ b.priority := by
  have hids : (entries stored).map Entry.id = stored.map Job.id := entries_map_id stored
  rw [← entries_pairwise_iff, ← hids]
  constructor
  · intro horder
    rw [eq_of_perm_of_map_id (List.mergeSort_perm _ _) (hids ▸ hkeyed) horder]
    exact mergeSort_pairwise _
  · intro hsorted
    rw [inOrder, mergeSort_eq_of_perm (List.Perm.refl _) hsorted]

/-- Repeated claims and the stream follow the priorities in every run, and no
worker passes over a smaller entry; the batch follows them exactly if its items
come in their order. -/
theorem dispatch_by_priority (config : PoolConfig) :
    (∀ worker now (stored : List Job), Table.Keyed Job.id stored →
      (∀ job ∈ stored, job.status = .pending) →
      (stored.Pairwise fun a b => a.createdAt ≤ b.createdAt) →
      claimOrder worker now stored.length stored = inOrder stored) ∧
    (∀ queue counters acts, config.workers = 1 →
      let s := StreamState.initial config queue counters false
      let s' := s.run config acts
      Along (StreamState.step config)
        (fun s act => StreamState.FreshIds s act ∧ StreamState.InTurn s act) s acts →
      s'.main = .returned → s'.shared.cancelled = false →
      s'.shared.queue.claimed = queue.claimed ++ inOrder s'.stored) ∧
    (∀ queue counters cancelled acts,
      Along (StreamState.step config) (StreamState.TakesFirst config)
        (StreamState.initial config queue counters cancelled) acts) ∧
    ∀ items queue counters acts, config.workers = 1 →
      let s := BatchState.initial items queue counters false
      let s' := s.run config acts
      Along (BatchState.step config)
        (fun s act => BatchState.FreshIds s act ∧ BatchState.ClaimsOk s act) s acts →
      s'.main = .returned → s'.shared.cancelled = false →
      (s'.shared.queue.claimed = queue.claimed ++ inOrder s'.stored ↔
        s'.stored.Pairwise fun a b => a.priority ≤ b.priority) := by
  refine ⟨fun worker now stored hkeyed hpending hclock => ?_,
    fun queue counters acts hone hrun hreturned hrunning => ?_,
    fun queue counters cancelled acts => ?_,
    fun items queue counters acts hone hrun hreturned hrunning => ?_⟩
  · have hall : stored.filter (·.status = .pending) = stored :=
      List.filter_eq_self.mpr fun job hjob => decide_eq_true (hpending job hjob)
    rw [claimOrder_eq worker now hkeyed (List.length_filter_le _ _), hall]
    exact mergeSort_le_eq_inOrder hclock
  · exact StreamState.claimed_eq_inOrder hone hrun hreturned hrunning
  · have hsorted (s : StreamState) (act : StreamAct) (h : s.heap.Pairwise (· ≤ ·))
        (_ : True) : (s.step config act).heap.Pairwise (· ≤ ·) :=
      StreamState.heap_sorted_step h act
    exact Along.of_invariant hsorted (fun s act h _ => StreamState.takesFirst_of_sorted h act) .nil
      (Along.of_forall_mem (fun _ _ _ => trivial) _)
  · obtain ⟨hclaimed, hkeyed⟩ := BatchState.claimed_eq_stored hone hrun hreturned hrunning
    rw [hclaimed, List.append_cancel_left_eq]
    exact map_id_eq_inOrder_iff hkeyed

namespace SamplePool

theorem pair_orderly (first second : Int) :
    Along (BatchState.step config) (fun s act => BatchState.FreshIds s act ∧ BatchState.ClaimsOk s act)
      (pairState first second) pair :=
  (pair_fresh first second).and
    (Along.of_forall_mem (fun _ hact _ _ _ heq => pair_claims (heq ▸ hact)) _)

theorem stream_inTurn :
    Along (StreamState.step config) StreamState.InTurn (.initial config {} {} false) stream := by
  have hgate : Along (StreamState.step config)
      (fun s act => act = .notify → s.enqueuer = .done) (.initial config {} {} false) stream := by
    refine ⟨?_, ?_, ?_, ?_, ?_, ?_, ?_, ?_, ?_, ?_, ?_, ?_, fun _ => rfl,
      Along.of_forall_mem (fun act hact s heq => ?_) _⟩
    any_goals rintro ⟨⟩
    subst heq
    simp at hact
  exact Along.mono (fun s act h => ⟨h.1, fun _ _ heq => stream_claims (heq ▸ h.2)⟩)
    (hgate.and (Along.of_forall_mem (P := fun _ act => act ∈ stream) (fun _ hact _ => hact) _))

/-- The stream and the batch, two jobs each, in the order of their priorities. -/
theorem orders_agree :
    (let s := (StreamState.initial config {} {} false).run config stream;
      s.shared.queue.claimed = [] ++ inOrder s.stored) ∧
    (let s := (pairState 10 100).run config pair; s.shared.queue.claimed = [] ++ inOrder s.stored) := by
  obtain ⟨-, hstream, -, hbatch⟩ := dispatch_by_priority config
  refine ⟨hstream {} {} stream rfl (stream_fresh.and stream_inTurn) rfl rfl, ?_⟩
  refine (hbatch _ {} {} pair rfl (pair_orderly 10 100) rfl rfl).mpr ?_
  decide

/-- The batch starts the less urgent job first. -/
theorem pair_out_of_order :
    let s := (pairState 100 10).run config pair
    Along (BatchState.step config)
        (fun s act => BatchState.FreshIds s act ∧ BatchState.ClaimsOk s act) (pairState 100 10) pair ∧
      s.main = .returned ∧ s.shared.cancelled = false ∧
      s.shared.queue.claimed = [1, 2] ∧ inOrder s.stored = [2, 1] := by
  have hsorted : ((entries ((pairState 100 10).run config pair).stored).mergeSort
      fun a b => decide (a ≤ b)) = [.of 10 1 2, .of 100 0 1] :=
    mergeSort_eq_of_perm (List.Perm.swap _ _ _) (by decide)
  refine ⟨pair_orderly 100 10, rfl, rfl, by decide, ?_⟩
  rw [inOrder, hsorted]
  rfl

end SamplePool

end Voom.JobManager
