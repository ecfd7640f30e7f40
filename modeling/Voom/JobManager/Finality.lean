-- SUMMARY: Terminal job states are final in the runs whose unguarded writes meet unsettled jobs, and in no others.
import Voom.JobManager.Queue

/-!
# Finality

`Lawful` says of a run what the queue is meant to guarantee. Claims keep their
part of it in every run. A write that settles a job, and a deletion by status,
are `Guarded` if they meet no job they must not change; a run is lawful exactly
if all its calls are.
-/

namespace Voom.JobManager

open Voom.Lib

def JobCall.deletes : JobCall → Bool
  | .deleteJobs _ | .pruneOldJobs _ => true
  | _ => false

namespace QueueState

/-! ## The law -/

/-- The job a claim returns, of those that are pending, comes first. -/
def ClaimsFirst (s : QueueState) (c : JobCall) : Prop :=
  ∀ worker now claimed, c = .claim worker now →
    (claimNextJob worker now s.jobs).1 = some claimed →
    ∃ job ∈ s.jobs, job.id = claimed.id ∧ job.status = .pending ∧
      ∀ other ∈ s.jobs, other.status = .pending → job.le other

/-- What holds of every call. -/
structure StepLaw (s : QueueState) (c : JobCall) : Prop where
  started : ∀ job ∈ s.jobs, ∀ job' ∈ (s.step c).jobs, job'.id = job.id → job.status = .pending →
    job'.status = .running → s.claims c = some job.id
  first : s.ClaimsFirst c
  kept : c.deletes = true → ∀ job ∈ s.jobs, job.status.isTerminal = false →
    ∃ job' ∈ (s.step c).jobs, job'.id = job.id

/-- Terminal states are final, and each job is claimed at most once. -/
structure Lawful (s : QueueState) (calls : List JobCall) : Prop where
  final : ∀ before later rest, calls = before ++ later ++ rest →
    ∀ job ∈ (s.run before).jobs, job.status.isTerminal = true →
    ∀ job' ∈ (s.run (before ++ later)).jobs, job'.id = job.id → job'.status = job.status
  steps : Along step StepLaw s calls
  once : (s.run calls).claimed.Nodup

/-- No settled job is settled in another way, and no unsettled one deleted. -/
structure Guarded (s : QueueState) (c : JobCall) : Prop where
  settles : ∀ id status, s.settles c = some (id, status) → ∀ job ∈ s.jobs, job.id = id →
    job.status.isTerminal = true → job.status = status
  deletes : ∀ status, c = .deleteJobs (some status) → ∀ job ∈ s.jobs, job.status = status →
    status.isTerminal = true

/-- A job gets an identifier that was not given out before. -/
def FreshId (s : QueueState) (c : JobCall) : Prop :=
  ∀ id priority now, c = .enqueue id priority now → id ∉ s.issued

/-- What the table and its history have to do with each other. -/
structure Consistent (s : QueueState) : Prop where
  keyed : Table.Keyed Job.id s.jobs
  issued : ∀ job ∈ s.jobs, job.id ∈ s.issued
  claimed_issued : ∀ id ∈ s.claimed, id ∈ s.issued
  claimed : ∀ job ∈ s.jobs, job.id ∈ s.claimed → job.status ≠ .pending
  once : s.claimed.Nodup

/-! ## Effects on one job -/

section

variable {s : QueueState} {c : JobCall} {s' : QueueState}

theorem isTerminal_of_settles {id : Uuid} {status : JobStatus}
    (h : s.settles c = some (id, status)) : status.isTerminal = true := by
  cases c with
  | complete | fail =>
    cases h
    rfl
  | cancelWrite call now =>
    obtain ⟨target, _, hsome⟩ := Option.map_eq_some_iff.mp h
    cases hsome
    rfl
  | _ => cases h

/-- A job after a call is new, or was there and has a status it can have. -/
theorem Effect.origin (hkeyed : Table.Keyed Job.id s.jobs) (h : Effect s c s') {job' : Job}
    (hjob' : job' ∈ s'.jobs) :
    (∃ priority now, c = .enqueue job'.id priority now ∧ job'.status = .pending) ∨
      ∃ job ∈ s.jobs, job.id = job'.id ∧
        (job'.status = job.status ∨
          s.claims c = some job.id ∧ job.status = .pending ∧ job'.status = .running ∨
          s.settles c = some (job.id, job'.status)) := by
  cases h with
  | insert id priority now call new jobs issued claimed =>
    rw [jobs] at hjob'
    rcases List.mem_append.mp hjob' with hjob' | hjob'
    · exact .inr ⟨job', hjob', rfl, .inl rfl⟩
    · obtain rfl := List.mem_singleton.mp hjob'
      exact .inl ⟨priority, now, call, rfl⟩
  | claim job worker now call settles mem pending jobs issued claimed =>
    rw [jobs] at hjob'
    obtain ⟨old, hold, rfl⟩ := Table.mem_modify.mp hjob'
    split
    · rename_i hid
      obtain rfl := hkeyed.eq_of_key hold mem hid
      exact .inr ⟨old, hold, rfl, .inr (.inl ⟨call, pending, rfl⟩)⟩
    · exact .inr ⟨old, hold, rfl, .inl rfl⟩
  | write id u call status jobs issued claimed =>
    rw [jobs] at hjob'
    obtain ⟨old, hold, rfl⟩ := Table.mem_modify.mp hjob'
    split
    · rename_i hid
      refine .inr ⟨old, hold, rfl, ?_⟩
      rcases status with ⟨-, hnone⟩ | ⟨status, hsettles, hsome⟩
      · exact .inl (by simp [hnone])
      · exact .inr (.inr (by simp [hsettles, hsome, hid]))
    · exact .inr ⟨old, hold, rfl, .inl rfl⟩
  | keep call settles jobs removed issued claimed =>
    exact .inr ⟨job', jobs.subset hjob', rfl, .inl rfl⟩

/-- A call that settles a job leaves it so. -/
theorem Effect.settled (h : Effect s c s') {id : Uuid} {status : JobStatus}
    (hsettles : s.settles c = some (id, status)) {job : Job} (hjob : job ∈ s.jobs)
    (hid : job.id = id) : ∃ job' ∈ s'.jobs, job'.id = id ∧ job'.status = status := by
  cases h with
  | insert id' priority now call new jobs issued claimed =>
    rw [call] at hsettles
    cases hsettles
  | claim _ _ _ _ settles =>
    rw [settles] at hsettles
    cases hsettles
  | write id' u call hstatus jobs issued claimed =>
    rcases hstatus with ⟨hnone, -⟩ | ⟨status', hsome, hu⟩
    · rw [hnone] at hsettles
      cases hsettles
    · obtain ⟨rfl, rfl⟩ : id' = id ∧ status' = status := by simpa [hsome] using hsettles
      refine ⟨u.apply job, ?_, hid, by simp [hu]⟩
      rw [jobs]
      exact Table.mem_modify_self hjob hid
  | keep call settles jobs removed issued claimed =>
    rw [settles] at hsettles
    cases hsettles

/-- A call leaves a job in the table, unless that is settled or deleted by its status. -/
theorem Effect.kept (h : Effect s c s') {job : Job} (hjob : job ∈ s.jobs) :
    (∃ job' ∈ s'.jobs, job'.id = job.id) ∨ job.status.isTerminal = true ∨
      c = .deleteJobs (some job.status) := by
  have hmodify (id : Uuid) (u : JobUpdate) : ∃ job' ∈ updateJob id u s.jobs, job'.id = job.id := by
    refine ⟨_, Table.mem_modify.mpr ⟨job, hjob, rfl⟩, ?_⟩
    split <;> rfl
  cases h with
  | insert id priority now call new jobs issued claimed =>
    exact .inl ⟨job, jobs ▸ List.mem_append_left _ hjob, rfl⟩
  | claim job' worker now call settles mem pending jobs issued claimed =>
    exact .inl (jobs ▸ hmodify _ _)
  | write id u call status jobs issued claimed => exact .inl (jobs ▸ hmodify _ _)
  | keep call settles jobs removed issued claimed =>
    rcases Classical.em (job ∈ s'.jobs) with hin | hgone
    · exact .inl ⟨job, hin, rfl⟩
    · exact .inr (removed job hjob hgone)

/-- Identifiers stay given out. -/
theorem Effect.issued_subset (h : Effect s c s') : s.issued ⊆ s'.issued := by
  cases h with
  | insert _ _ _ _ _ _ issued => exact issued ▸ List.subset_append_left _ _
  | claim _ _ _ _ _ _ _ _ issued => exact issued ▸ List.Subset.refl _
  | write _ _ _ _ _ issued => exact issued ▸ List.Subset.refl _
  | keep _ _ _ _ issued => exact issued ▸ List.Subset.refl _

/-! ## One call -/

theorem Consistent.step (hs : Consistent s) (hfresh : FreshId s c) : Consistent (s.step c) := by
  have heffect := step_effect hs.keyed c
  generalize s.step c = s' at heffect
  cases heffect with
  | insert id priority now call new jobs issued claimed =>
    have hid : id ∉ s.issued := hfresh id priority now call
    refine ⟨?_, ?_, ?_, ?_, claimed ▸ hs.once⟩
    · rw [jobs]
      exact hs.keyed.append new
    · rw [jobs, issued]
      intro job hjob
      rcases List.mem_append.mp hjob with hjob | hjob
      · exact List.mem_append_left _ (hs.issued job hjob)
      · obtain rfl := List.mem_singleton.mp hjob
        exact List.mem_append_right _ (List.mem_singleton_self _)
    · rw [claimed, issued]
      exact fun id hid => List.mem_append_left _ (hs.claimed_issued id hid)
    · rw [jobs, claimed]
      intro job hjob hclaimed
      rcases List.mem_append.mp hjob with hjob | hjob
      · exact hs.claimed job hjob hclaimed
      · obtain rfl := List.mem_singleton.mp hjob
        exact absurd (hs.claimed_issued id hclaimed) hid
  | claim job worker now call settles mem pending jobs issued claimed =>
    have hnew : job.id ∉ s.claimed := fun hclaimed => hs.claimed job mem hclaimed pending
    refine ⟨?_, ?_, ?_, ?_, ?_⟩
    · rw [jobs]
      exact hs.keyed.modify fun _ _ _ => rfl
    · rw [jobs, issued]
      intro job' hjob'
      obtain ⟨old, hold, rfl⟩ := Table.mem_modify.mp hjob'
      have hissued := hs.issued old hold
      split <;> exact hissued
    · rw [claimed, issued]
      intro id hid
      rcases List.mem_append.mp hid with hid | hid
      · exact hs.claimed_issued id hid
      · obtain rfl := List.mem_singleton.mp hid
        exact hs.issued job mem
    · rw [jobs, claimed]
      intro job' hjob' hclaimed
      obtain ⟨old, hold, rfl⟩ := Table.mem_modify.mp hjob'
      split at hclaimed
      · rename_i hid
        rw [if_pos hid]
        exact fun h => nomatch h
      · rename_i hid
        rw [if_neg hid]
        rcases List.mem_append.mp hclaimed with hclaimed | hclaimed
        · exact hs.claimed old hold hclaimed
        · exact absurd (List.mem_singleton.mp hclaimed) hid
    · rw [claimed]
      refine List.Nodup.append hs.once (List.nodup_singleton _) ?_
      simpa using hnew
  | write id u call status jobs issued claimed =>
    have hstatus : ∀ old : Job, old.status ≠ .pending → (u.apply old).status ≠ .pending := by
      intro old hold hpending
      rcases status with ⟨-, hnone⟩ | ⟨status, hsettles, hsome⟩
      · exact hold (by simpa [hnone] using hpending)
      · have hterminal := isTerminal_of_settles hsettles
        rw [show status = .pending by simpa [hsome] using hpending] at hterminal
        cases hterminal
    refine ⟨?_, ?_, ?_, ?_, claimed ▸ hs.once⟩
    · rw [jobs]
      exact hs.keyed.modify fun _ _ _ => rfl
    · rw [jobs, issued]
      intro job' hjob'
      obtain ⟨old, hold, rfl⟩ := Table.mem_modify.mp hjob'
      have hissued := hs.issued old hold
      split <;> exact hissued
    · rw [claimed, issued]
      exact hs.claimed_issued
    · rw [jobs, claimed]
      intro job' hjob' hclaimed
      obtain ⟨old, hold, rfl⟩ := Table.mem_modify.mp hjob'
      split at hclaimed
      · rename_i hid
        rw [if_pos hid]
        exact hstatus old (hs.claimed old hold hclaimed)
      · rename_i hid
        rw [if_neg hid]
        exact hs.claimed old hold hclaimed
  | keep call settles jobs removed issued claimed =>
    refine ⟨List.Nodup.sublist (jobs.map Job.id) hs.keyed, ?_, ?_, ?_, claimed ▸ hs.once⟩
    · rw [issued]
      exact fun job hjob => hs.issued job (jobs.subset hjob)
    · rw [claimed, issued]
      exact hs.claimed_issued
    · rw [claimed]
      exact fun job hjob => hs.claimed job (jobs.subset hjob)

/-- Claims keep the law by themselves; a deletion needs its guard. -/
theorem Guarded.stepLaw (hkeyed : Table.Keyed Job.id s.jobs) (hguard : Guarded s c) :
    StepLaw s c := by
  refine ⟨?_, ?_, ?_⟩
  · intro job hjob job' hjob' hid hpending hrunning
    rcases (step_effect hkeyed c).origin hkeyed hjob' with
      ⟨-, -, -, hnew⟩ | ⟨old, hold, hold_id, hsame | ⟨hclaims, -, -⟩ | hsettles⟩
    · rw [hrunning] at hnew
      cases hnew
    · obtain rfl := hkeyed.eq_of_key hold hjob (hold_id.trans hid)
      rw [hrunning, hpending] at hsame
      cases hsame
    · rwa [hold_id, hid] at hclaims
    · have hterminal := isTerminal_of_settles hsettles
      rw [hrunning] at hterminal
      cases hterminal
  · rintro worker now claimed rfl hclaimed
    rcases claimNextJob_cases worker now s.jobs with hnone | ⟨job, hjob, hpending, hfirst, hsome⟩
    · rw [hnone] at hclaimed
      cases hclaimed
    · rw [hsome] at hclaimed
      cases hclaimed
      exact ⟨job, hjob, rfl, hpending, hfirst⟩
  · intro _ job hjob hunsettled
    rcases (step_effect hkeyed c).kept hjob with hkept | hterminal | hdeletes
    · exact hkept
    · exact absurd hterminal (by simp [hunsettled])
    · exact absurd (hguard.deletes _ hdeletes job hjob rfl) (by simp [hunsettled])

/-- A job that was given out has one status wherever it is in the table. -/
structure Settled (id : Uuid) (status : JobStatus) (s : QueueState) : Prop where
  issued : id ∈ s.issued
  status : ∀ job ∈ s.jobs, job.id = id → job.status = status

theorem Settled.step {id : Uuid} {status : JobStatus} (hterminal : status.isTerminal = true)
    (hs : Consistent s) (hfresh : FreshId s c) (hguard : Guarded s c) (h : Settled id status s) :
    Settled id status (s.step c) := by
  have heffect := step_effect hs.keyed c
  refine ⟨heffect.issued_subset h.issued, fun job' hjob' hid => ?_⟩
  rcases heffect.origin hs.keyed hjob' with
    ⟨priority, now, hcall, -⟩ | ⟨old, hold, hold_id, hsame | ⟨-, hpending, -⟩ | hsettles⟩
  · exact absurd h.issued (hid ▸ hfresh _ _ _ hcall)
  · exact hsame.trans (h.status old hold (hold_id.trans hid))
  · rw [← h.status old hold (hold_id.trans hid), hpending] at hterminal
    cases hterminal
  · have hstatus := h.status old hold (hold_id.trans hid)
    exact (hguard.settles _ _ hsettles old hold rfl (hstatus ▸ hterminal)).symm.trans hstatus

end

/-! ## Runs -/

theorem run_append (s : QueueState) (before later : List JobCall) :
    s.run (before ++ later) = (s.run before).run later :=
  List.foldl_append

theorem lawful_of_guarded {s : QueueState} {calls : List JobCall} (hs : Consistent s)
    (hrun : Along step (fun s c => FreshId s c ∧ Guarded s c) s calls) : Lawful s calls := by
  have hconsistent {s : QueueState} {calls : List JobCall} (hs : Consistent s)
      (hrun : Along step (fun s c => FreshId s c ∧ Guarded s c) s calls) : Consistent (s.run calls) :=
    Along.invariant (fun _ _ hs h => hs.step h.1) hs hrun
  refine ⟨?_, ?_, (hconsistent hs hrun).once⟩
  · rintro before later rest rfl job hjob hterminal job' hjob' hid
    rw [run_append] at hjob'
    have hparts := (Along.append_iff.mp (Along.append_iff.mp hrun).1)
    have hbefore := hconsistent hs hparts.1
    have hsettled : Settled job.id job.status (s.run before) := by
      refine ⟨hbefore.issued job hjob, fun other hother hsame => ?_⟩
      rw [hbefore.keyed.eq_of_key hother hjob hsame]
    -- From here on every guarded call leaves the job as it is.
    have hstep (s : QueueState) (c : JobCall) (h : Consistent s ∧ Settled job.id job.status s)
        (hc : FreshId s c ∧ Guarded s c) :
        Consistent (s.step c) ∧ Settled job.id job.status (s.step c) :=
      ⟨h.1.step hc.1, h.2.step hterminal h.1 hc.1 hc.2⟩
    exact (Along.invariant hstep ⟨hbefore, hsettled⟩ hparts.2).2.status job' hjob' hid
  · exact Along.of_invariant (fun _ _ hs h => hs.step h.1) (fun _ _ hs h => h.2.stepLaw hs.keyed) hs hrun

theorem Lawful.tail {s : QueueState} {c : JobCall} {calls : List JobCall}
    (h : Lawful s (c :: calls)) : Lawful (s.step c) calls := by
  refine ⟨?_, h.steps.2, h.once⟩
  rintro before later rest rfl
  exact h.final (c :: before) later rest rfl

theorem Lawful.guarded {s : QueueState} {c : JobCall} {calls : List JobCall}
    (hkeyed : Table.Keyed Job.id s.jobs) (h : Lawful s (c :: calls)) : Guarded s c := by
  refine ⟨?_, ?_⟩
  · intro id status hsettles job hjob hid hterminal
    obtain ⟨job', hjob', hid', hstatus⟩ := (step_effect hkeyed c).settled hsettles hjob hid
    have hfinal := h.final [] [c] calls rfl job hjob hterminal job' hjob' (hid'.trans hid.symm)
    exact hfinal.symm.trans hstatus
  · rintro status rfl job hjob rfl
    by_contra hunsettled
    obtain ⟨job', hjob', hid⟩ := h.steps.1.kept rfl job hjob (by simpa using hunsettled)
    obtain ⟨hmem, hother⟩ := List.mem_filter.mp hjob'
    rw [hkeyed.eq_of_key hmem hjob hid] at hother
    simp at hother

/-- Terminal states are final, and unfinished jobs stay, in exactly the runs
whose calls are all guarded. -/
theorem terminal_states_final {s : QueueState} (hs : Consistent s) {calls : List JobCall}
    (hfresh : Along step FreshId s calls) :
    Lawful s calls ↔ Along step Guarded s calls := by
  refine ⟨fun h => ?_, fun h => lawful_of_guarded hs (hfresh.and h)⟩
  induction calls generalizing s with
  | nil => trivial
  | cons c calls ih =>
    exact ⟨h.guarded hs.keyed, ih (hs.step hfresh.1) hfresh.2 h.tail⟩

end QueueState

namespace SampleQueue

open QueueState

/-- A job is enqueued, claimed and completed. -/
def finished : List JobCall :=
  [.enqueue 1 100 "10:00", .claim "worker-0" "10:01", .complete 1 none "10:02"]

theorem empty_consistent : Consistent {} := by
  refine ⟨List.nodup_nil, ?_, ?_, ?_, List.nodup_nil⟩ <;> intro _ h <;> cases h

theorem finished_fresh : Along step FreshId {} finished := by
  refine ⟨?_, ?_, ?_, trivial⟩
  · rintro id priority now hcall
    cases hcall
    exact List.not_mem_nil
  · exact fun _ _ _ hcall => nomatch hcall
  · exact fun _ _ _ hcall => nomatch hcall

theorem finished_final : Lawful {} finished := by
  refine (terminal_states_final empty_consistent finished_fresh).mpr ⟨?_, ?_, ?_, trivial⟩
  · exact ⟨(fun _ _ h => nomatch h), (fun _ h => nomatch h)⟩
  · exact ⟨(fun _ _ h => nomatch h), (fun _ h => nomatch h)⟩
  · refine ⟨fun id status _ job hjob _ hterminal => ?_, fun _ h => nomatch h⟩
    have hjobs : ∀ job ∈ (({} : QueueState).run (finished.take 2)).jobs,
        job.status.isTerminal = false := by decide +kernel
    exact absurd hterminal (by simp [hjobs job hjob])

/-- A user cancels the job while its worker completes it: the check finds it
running, the write finds it completed. -/
def cancelledLate : List JobCall :=
  [.enqueue 1 100 "10:00", .claim "worker-0" "10:01", .cancelRead 0 1, .complete 1 none "10:02",
    .cancelWrite 0 "10:03"]

theorem cancelledLate_overwrites : ¬ Lawful {} cancelledLate := by
  intro h
  have hfinal := h.final (cancelledLate.take 4) [.cancelWrite 0 "10:03"] [] rfl
  exact absurd hfinal (by decide +kernel)

end SampleQueue

end Voom.JobManager
