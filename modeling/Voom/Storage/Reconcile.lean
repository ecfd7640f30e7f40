-- SUMMARY: Scan reconciliation: after a completed session the table shows exactly what was discovered.
import Voom.Storage.Scan

/-!
# Reconciliation

`finish_scan_session` promotes vanished rows whose content was discovered
elsewhere and marks the other vanished rows missing. A promotion deletes the
row the session inserted for the new path; it tells such rows by their creation
time, so it needs that no older row carries a later time.
-/

namespace Voom.Storage

open Lib

/-! ## The law -/

/-- What a completed scan of `ingests` leaves: `s₀` is the store before the
session, `s` the one that `finish` saw, and `t` the one it left. -/
structure Reconciled (s₀ s t : Store) (roots : List Path) (ingests : List Ingest)
    (outcome : ScanFinishOutcome) : Prop where
  /-- The active rows under the roots are the discovered files. -/
  active : ∀ f : DiscoveredFile, isUnderAny f.path roots = true →
    ((∃ r ∈ t.files, r.status = .active ∧ r.path = some f.path ∧ r.contentHash = f.contentHash ∧
      r.size = f.size) ↔ ∃ i ∈ ingests, i.file = f)
  wellFormed : t.WellFormed
  /-- A row that was active under the roots is active at its old path, or it is
  missing, or it was re-pathed to a discovered file with its hash. -/
  others : ∀ r ∈ s₀.files, r.status = .active → underRoots roots r = true →
    ∃ r' ∈ t.files, r'.id = r.id ∧
      ((r'.status = .active ∧ r'.path = r.path) ∨ r'.status = .missing ∨
        ∃ i ∈ ingests, r'.status = .active ∧ r'.path = some i.file.path ∧
          r.expectedHash = some i.file.contentHash)
  outside : ∀ r ∈ s₀.files, underRoots roots r = false → r ∈ t.files
  ids : ∀ r ∈ s₀.files, ∃ r' ∈ t.files, r'.id = r.id
  missing : outcome.missing = (s.files.filter fun r => r.status = .active ∧
    t.files.any fun r' => r'.id = r.id ∧ r'.status = .missing).length
  promotedMoves : outcome.promotedMoves = (s.files.filter fun r =>
    t.files.any fun r' => r'.id = r.id ∧ r'.path ≠ r.path).length

/-- A scan of distinct discovered paths under the roots, with fresh identifiers,
on a store whose prior sessions all completed and without mutations by VOOM. -/
structure ScanInput (s : Store) (roots : List Path) (session : SessionId) (ingests : List Ingest) :
    Prop where
  wellFormed : s.WellFormed
  sessions : Table.Keyed ScanSession.id s.sessions
  completed : ∀ p ∈ s.sessions, p.status = .completed
  known : ∀ r ∈ s.files, ∀ sid, r.lastSeenSession = some sid → ∃ p ∈ s.sessions, p.id = sid
  freshSession : ∀ p ∈ s.sessions, p.id ≠ session
  unmutated : ∀ m ∈ s.mutations, m.1 ≠ session
  paths : (ingests.map (·.file.path)).Nodup
  underRoots : ∀ i ∈ ingests, isUnderAny i.file.path roots = true
  newIds : (ingests.map (·.newId)).Nodup
  freshIds : ∀ i ∈ ingests, ∀ r ∈ s.files, r.id ≠ i.newId

/-- No row dated at or after the start of the session has the hash of a row
that vanished, or stands at the path where that hash was discovered. -/
def WellDated (s : Store) (roots : List Path) (startedAt : Time) (ingests : List Ingest) : Prop :=
  ∀ r ∈ s.files, startedAt ≤ r.createdAt → ∀ c ∈ s.files, c.id ≠ r.id → c.status = .active →
    underRoots roots c = true → (∀ i ∈ ingests, c.path ≠ some i.file.path) →
    ∀ h, c.expectedHash = some h → r.expectedHash ≠ some h ∧
      ∀ i ∈ ingests, r.path = some i.file.path → i.file.contentHash ≠ h

/-! ## Promotions -/

/-- A vanished row promoted to the path of a discovered file. -/
def promotedRow (session : SessionId) (i : Ingest) (r : FileRow) : FileRow :=
  { r with path := some i.file.path, size := i.file.size, contentHash := i.file.contentHash,
           status := .active, lastSeenSession := some session }

/-- The fates of old rows once promotions are included. -/
def FinalFate (session : SessionId) (roots : List Path) (ingests : List Ingest)
    (r r' : FileRow) : Prop :=
  Fate session roots ingests r r' ∨
    (r.status = .active ∧ underRoots roots r = true ∧
      ∃ i ∈ ingests, r.expectedHash = some i.file.contentHash ∧ r' = promotedRow session i r)

theorem FinalFate.id_eq {session : SessionId} {roots : List Path} {ingests : List Ingest}
    {r r' : FileRow} (h : FinalFate session roots ingests r r') : r'.id = r.id := by
  rcases h with h | ⟨-, -, i, -, -, rfl⟩
  · exact h.id_eq
  · rfl

/-- The table in the middle of the promotions: `rest` are the candidates to come
and `promoted` the ones that got a new path. -/
structure Promoting (s₀ s t : Store) (session : SessionId) (roots : List Path)
    (ingests : List Ingest) (rest : List MissingCandidate) (promoted : List Uuid) : Prop where
  wf : t.WellFormed
  rows : ∀ r ∈ t.files, (∃ r₀ ∈ s₀.files, FinalFate session roots ingests r₀ r) ∨
    ∃ i ∈ ingests, r = newRow session i
  olds : ∀ r₀ ∈ s₀.files, ∃ r ∈ t.files, FinalFate session roots ingests r₀ r
  found : ∀ i ∈ ingests, ∃ r ∈ t.files, Shows session i r
  unseen : ∀ r ∈ t.files, r.lastSeenSession ≠ some session → r ∈ s.files
  pending : ∀ c ∈ rest, ∃ r ∈ t.files, r.id = c.id ∧ r.path = some c.path ∧
    r.expectedHash = some c.expectedHash ∧ r.status = .active ∧ underRoots roots r = true ∧
    r.lastSeenSession ≠ some session
  distinct : (rest.map (·.id)).Nodup
  moved : ∀ r ∈ s.files, ∀ r' ∈ t.files, r'.id = r.id → (r'.path ≠ r.path ↔ r.id ∈ promoted)
  promotedOnce : promoted.Nodup
  promotedOld : ∀ id ∈ promoted, ∃ r₀ ∈ s₀.files, r₀.id = id
  sessions : t.sessions = s.sessions
  mutations : t.mutations = s.mutations
  outcomes : t.transcodeOutcomes = s.transcodeOutcomes

/-- What the target of a promotion is like. -/
theorem promotionTarget_some {c : MissingCandidate} {session : SessionId} {startedAt : Time}
    {t : Store} {target : FileRow} (h : promotionTarget c session startedAt t = some target) :
    target ∈ t.files ∧ target.lastSeenSession = some session ∧
      target.contentHash = c.expectedHash ∧ startedAt ≤ target.createdAt ∧ target.id ≠ c.id := by
  unfold promotionTarget at h
  have hp := List.find?_some h
  simp only [decide_eq_true_eq] at hp
  exact ⟨List.mem_of_find?_eq_some h, hp.1, hp.2.1, hp.2.2.1, hp.2.2.2.2.1⟩

section Promotion

variable {s₀ s t : Store} {session : SessionId} {roots : List Path} {ingests : List Ingest}
  {startedAt : Time} {c : MissingCandidate} {rest : List MissingCandidate} {promoted : List Uuid}

/-- An unseen row with a path has been there all along. -/
theorem Promoting.old_of_unseen (h : Promoting s₀ s t session roots ingests rest promoted)
    {r : FileRow} (hr : r ∈ t.files) (hunseen : r.lastSeenSession ≠ some session)
    (hpath : r.path.isSome = true) :
    r ∈ s₀.files ∧ Fate session roots ingests r r := by
  rcases h.rows r hr with ⟨r₀, hr₀, hfate | ⟨-, -, i, -, -, rfl⟩⟩ | ⟨i, -, rfl⟩
  · cases hfate with
    | untouched hp => exact ⟨hr₀, .untouched hp⟩
    | kept _ _ _ _ => exact absurd rfl hunseen
    | moved _ _ _ _ _ _ _ => exact absurd rfl hunseen
    | superseded _ _ _ => cases hpath
  · exact absurd rfl hunseen
  · exact absurd rfl hunseen

/-- An unseen row with a path is not at a discovered one. -/
theorem Promoting.undiscovered (h : Promoting s₀ s t session roots ingests rest promoted)
    {r : FileRow} (hr : r ∈ t.files) (hunseen : r.lastSeenSession ≠ some session) :
    ∀ i ∈ ingests, r.path ≠ some i.file.path := by
  intro i hi hp
  obtain ⟨r', hr', hshow⟩ := h.found i hi
  have heq := h.wf.paths r hr r' hr' (hp.trans hshow.path.symm) (by simp [hp])
  subst heq
  exact hunseen hshow.lastSeen

/-- With well-dated rows the target is a row this session inserted. -/
theorem Promoting.target_new (h : Promoting s₀ s t session roots ingests (c :: rest) promoted)
    (hfresh : ∀ r ∈ s₀.files, r.lastSeenSession ≠ some session)
    (hdated : WellDated s₀ roots startedAt ingests) {target : FileRow}
    (htarget : promotionTarget c session startedAt t = some target) :
    ∃ i ∈ ingests, target = newRow session i := by
  obtain ⟨hmem, hseen, hhash, hcreated, hne⟩ := promotionTarget_some htarget
  obtain ⟨rc, hrc, hid, hpath, hexpected, hactive, hroots, hunseen⟩ :=
    h.pending c List.mem_cons_self
  have hold := (h.old_of_unseen hrc hunseen (by simp [hpath])).1
  rcases h.rows target hmem with ⟨r₀, hr₀, hfate⟩ | hnew
  · have hcreated₀ : startedAt ≤ r₀.createdAt := by
      rcases hfate with hfate | ⟨-, -, i, -, -, rfl⟩
      · cases hfate <;> exact hcreated
      · exact hcreated
    have hne₀ : rc.id ≠ r₀.id := by
      rw [← hfate.id_eq, hid]
      exact hne.symm
    obtain ⟨hexp, hdisc⟩ := hdated r₀ hr₀ hcreated₀ rc hold hne₀ hactive hroots
      (h.undiscovered hrc hunseen) c.expectedHash hexpected
    -- The old row ended with the hash of the candidate, against the dates.
    rcases hfate with hfate | ⟨-, -, i, -, hexp', rfl⟩
    · cases hfate with
      | untouched _ => exact absurd hseen (hfresh _ hr₀)
      | kept i hi hp _ => exact absurd hhash (hdisc i hi hp)
      | moved i _ _ _ _ _ hexp' => exact absurd (hexp'.trans (congrArg some hhash)) hexp
      | superseded _ _ _ => exact absurd hseen (hfresh r₀ hr₀)
    · exact absurd (hexp'.trans (congrArg some hhash)) hexp
  · exact hnew

/-- The table after a promotion of the row `rc` to the row inserted for `i`. -/
theorem Promoting.promote (h : Promoting s₀ s t session roots ingests (c :: rest) promoted)
    (hscan : Scanned s₀ s session roots ingests)
    (hfreshIds : ∀ i ∈ ingests, ∀ r ∈ s₀.files, r.id ≠ i.newId) {i : Ingest} (hi : i ∈ ingests)
    (htarget : newRow session i ∈ t.files) {rc : FileRow} (hrc : rc ∈ t.files) (hid : rc.id = c.id)
    (hpath : rc.path.isSome = true) (hexpected : rc.expectedHash = some i.file.contentHash)
    (hactive : rc.status = .active) (hroots : underRoots roots rc = true)
    (hunseen : rc.lastSeenSession ≠ some session) {t' : Store}
    (hkeyed : Table.Keyed FileRow.id t'.files)
    (hmem : ∀ x, x ∈ t'.files ↔
      (x ∈ t.files ∧ x.id ≠ i.newId ∧ x.id ≠ c.id) ∨ x = promotedRow session i rc)
    (hsessions : t'.sessions = t.sessions) (hmutations : t'.mutations = t.mutations)
    (houtcomes : t'.transcodeOutcomes = t.transcodeOutcomes) :
    Promoting s₀ s t' session roots ingests rest (promoted ++ [c.id]) := by
  obtain ⟨hold, -⟩ := h.old_of_unseen hrc hunseen hpath
  have hrcs : rc ∈ s.files := h.unseen rc hrc hunseen
  have hrow : promotedRow session i rc ∈ t'.files := (hmem _).mpr (.inr rfl)
  have hfate : FinalFate session roots ingests rc (promotedRow session i rc) :=
    .inr ⟨hactive, hroots, i, hi, hexpected, rfl⟩
  have hdistinct := List.nodup_cons.mp h.distinct
  have hrc_of : ∀ x ∈ t.files, x.id = c.id → x = rc := fun x hx hk =>
    h.wf.ids.eq_of_key hx hrc (hk.trans hid.symm)
  -- Whoever shares the target's path is the target, and no old row is.
  have halone : ∀ x ∈ t.files, x.path = some i.file.path → x.id = i.newId := fun x hx hp =>
    congrArg FileRow.id (h.wf.paths x hx _ htarget hp (by simp [hp]))
  have hnot_old : ∀ r₀ ∈ s₀.files, ∀ r, FinalFate session roots ingests r₀ r → r.id ≠ i.newId :=
    fun r₀ hr₀ r hfate heq => hfreshIds i hi r₀ hr₀ (hfate.id_eq.symm.trans heq)
  have holds : ∀ r₀ ∈ s₀.files, ∃ r ∈ t'.files, FinalFate session roots ingests r₀ r := by
    intro r₀ hr₀
    obtain ⟨r, hr, hr₀fate⟩ := h.olds r₀ hr₀
    by_cases hk : r.id = c.id
    · have heq := hrc_of r hr hk
      subst heq
      have hr₀eq : r₀ = r := hscan.wf₀.ids.eq_of_key hr₀ hold hr₀fate.id_eq.symm
      subst hr₀eq
      exact ⟨_, hrow, hfate⟩
    · exact ⟨r, (hmem r).mpr (.inl ⟨hr, hnot_old r₀ hr₀ r hr₀fate, hk⟩), hr₀fate⟩
  refine ⟨⟨hkeyed, ?_, ?_⟩, ?_, holds, ?_, ?_, ?_, hdistinct.2, ?_, ?_, ?_,
    hsessions.trans h.sessions, hmutations.trans h.mutations, houtcomes.trans h.outcomes⟩
  · intro x hx y hy hp hsome
    rw [hmem] at hx hy
    rcases hx with ⟨hx, hxt, -⟩ | rfl
    · rcases hy with ⟨hy, -, -⟩ | rfl
      · exact h.wf.paths x hx y hy hp hsome
      · exact absurd (halone x hx hp) hxt
    · rcases hy with ⟨hy, hyt, -⟩ | rfl
      · exact absurd (halone y hy hp.symm) hyt
      · rfl
  · intro id hout
    rw [houtcomes, h.outcomes, hscan.outcomes] at hout
    obtain ⟨r₀, hr₀, rfl⟩ := hscan.wf₀.outcomes id hout
    obtain ⟨r, hr, hr₀fate⟩ := holds r₀ hr₀
    exact ⟨r, hr, hr₀fate.id_eq⟩
  · intro x hx
    rw [hmem] at hx
    rcases hx with ⟨hx, -, -⟩ | rfl
    · exact h.rows x hx
    · exact .inl ⟨rc, hold, hfate⟩
  · intro j hj
    obtain ⟨r, hr, hshow⟩ := h.found j hj
    by_cases hk : r.id = i.newId
    · have heq : r = newRow session i := h.wf.ids.eq_of_key hr htarget hk
      subst heq
      exact ⟨_, hrow, hshow.path, rfl, hshow.contentHash, hshow.size, rfl⟩
    · refine ⟨r, (hmem r).mpr (.inl ⟨hr, hk, fun hkc => ?_⟩), hshow⟩
      rw [hrc_of r hr hkc] at hshow
      exact hunseen hshow.lastSeen
  · intro x hx hxunseen
    rw [hmem] at hx
    rcases hx with ⟨hx, -, -⟩ | rfl
    · exact h.unseen x hx hxunseen
    · exact absurd rfl hxunseen
  · intro c' hc'
    obtain ⟨r, hr, hrid, hrpath, hrexp, hract, hrroots, hrunseen⟩ :=
      h.pending c' (List.mem_cons_of_mem _ hc')
    refine ⟨r, (hmem r).mpr (.inl ⟨hr, fun hk => ?_, fun hk => ?_⟩), hrid, hrpath, hrexp, hract,
      hrroots, hrunseen⟩
    · rw [h.wf.ids.eq_of_key hr htarget hk] at hrunseen
      exact hrunseen rfl
    · exact hdistinct.1 (List.mem_map.mpr ⟨c', hc', hrid.symm.trans hk⟩)
  · intro r hr r' hr' hids
    rw [List.mem_append, List.mem_singleton]
    rw [hmem] at hr'
    rcases hr' with ⟨hr', -, hkc⟩ | rfl
    · have hne : r.id ≠ c.id := fun hk => hkc (hids.trans hk)
      simpa [hne] using h.moved r hr r' hr' hids
    · have heq : r = rc := hscan.wf.ids.eq_of_key hr hrcs hids.symm
      subst heq
      refine ⟨fun _ => .inr hid, fun _ hp => ?_⟩
      -- The candidate would stand at the path of the target.
      have htid := halone r hrc hp.symm
      exact hunseen (by rw [h.wf.ids.eq_of_key hrc htarget htid]; rfl)
  · refine List.Nodup.append h.promotedOnce (List.nodup_singleton _) ?_
    intro id hmem' hc'
    rw [List.mem_singleton] at hc'
    subst hc'
    exact (h.moved rc hrcs rc hrc rfl).mpr (hid ▸ hmem') rfl
  · intro id hmem'
    rcases List.mem_append.mp hmem' with hmem' | hmem'
    · exact h.promotedOld id hmem'
    · rw [List.mem_singleton] at hmem'
      exact ⟨rc, hold, hid.trans hmem'.symm⟩

/-- Step: one promotion, or none. -/
theorem Promoting.step (h : Promoting s₀ s t session roots ingests (c :: rest) promoted)
    (hscan : Scanned s₀ s session roots ingests)
    (hfreshIds : ∀ i ∈ ingests, ∀ r ∈ s₀.files, r.id ≠ i.newId)
    (hdated : WellDated s₀ roots startedAt ingests) :
    ∃ t' done, tryPromoteOneMove c session startedAt t = .ok (t', done) ∧
      Promoting s₀ s t' session roots ingests rest (if done then promoted ++ [c.id] else promoted) := by
  cases htarget : promotionTarget c session startedAt t with
  | none =>
    exact ⟨t, false, by simp [tryPromoteOneMove, htarget], { h with
      pending := fun c' hc' => h.pending c' (List.mem_cons_of_mem _ hc')
      distinct := (List.nodup_cons.mp h.distinct).2 }⟩
  | some target =>
    obtain ⟨htmem, -, hhash, -, hne⟩ := promotionTarget_some htarget
    obtain ⟨i, hi, rfl⟩ := h.target_new hscan.fresh hdated htarget
    obtain ⟨rc, hrc, hid, hpath, hexpected, hactive, hroots, hunseen⟩ :=
      h.pending c List.mem_cons_self
    have hhash' : c.expectedHash = i.file.contentHash := hhash.symm
    -- Nothing refers to the row the session inserted, so it can be deleted.
    have hout : ¬ ((t.deleteTransitions i.newId).transcodeOutcomes.contains i.newId = true ∧
        (t.deleteTransitions i.newId).files.any (·.id = i.newId) = true) := by
      rintro ⟨hout, -⟩
      have hout' : i.newId ∈ s₀.transcodeOutcomes := by
        rw [← hscan.outcomes, ← h.outcomes]
        simpa [Store.deleteTransitions] using hout
      obtain ⟨r₀, hr₀, hr₀id⟩ := hscan.wf₀.outcomes _ hout'
      exact hfreshIds i hi r₀ hr₀ hr₀id
    have hdelete : (t.deleteTransitions (newRow session i).id).deleteFile
        "failed to delete New row for move promotion" (newRow session i).id =
        .ok { t.deleteTransitions i.newId with
          files := Table.delete FileRow.id i.newId t.files } := by
      unfold Store.deleteFile
      exact if_neg hout
    refine ⟨_, true, by simp only [tryPromoteOneMove, htarget, hdelete]; rfl, ?_⟩
    refine h.promote hscan hfreshIds hi htmem hrc hid (by simp [hpath]) (hhash' ▸ hexpected) hactive
      hroots hunseen ?_ ?_ rfl rfl rfl
    · exact h.wf.ids.delete.modify fun r _ _ => rfl
    · intro x
      have hrow : ∀ r ∈ t.files, r.id = c.id →
          ({ r with path := (newRow session i).path, size := (newRow session i).size,
                    contentHash := c.expectedHash, status := .active,
                    lastSeenSession := some session } : FileRow) = promotedRow session i rc := by
        intro r hr hrid
        rw [h.wf.ids.eq_of_key hr hrc (hrid.trans hid.symm), hhash']
        rfl
      simp only [Store.addTransition, Store.modifyFile, Table.mem_modify, Table.mem_delete]
      constructor
      · rintro ⟨r, ⟨hr, hrt⟩, rfl⟩
        split
        · rename_i hk
          exact .inr (hrow r hr hk)
        · rename_i hk
          exact .inl ⟨hr, hrt, hk⟩
      · rintro (⟨hx, hxt, hxc⟩ | rfl)
        · exact ⟨x, ⟨hx, hxt⟩, by rw [if_neg hxc]⟩
        · exact ⟨rc, ⟨hrc, hid ▸ hne.symm⟩, by rw [if_pos hid, hrow rc hrc hid]⟩

/-- Run: all promotions of a finish, and how many there were. -/
theorem Promoting.run (h : Promoting s₀ s t session roots ingests rest promoted)
    (hscan : Scanned s₀ s session roots ingests)
    (hfreshIds : ∀ i ∈ ingests, ∀ r ∈ s₀.files, r.id ≠ i.newId)
    (hdated : WellDated s₀ roots startedAt ingests) :
    ∃ t' n promoted', promoteMoves session startedAt rest t = .ok (t', n) ∧
      Promoting s₀ s t' session roots ingests [] promoted' ∧
      promoted'.length = promoted.length + n := by
  induction rest generalizing t promoted with
  | nil => exact ⟨t, 0, promoted, rfl, h, rfl⟩
  | cons c rest ih =>
    obtain ⟨t', done, hstep, h'⟩ := h.step hscan hfreshIds hdated
    obtain ⟨t'', n, promoted', hrun, h'', hlen⟩ := ih h'
    refine ⟨t'', if done then n + 1 else n, promoted', ?_, h'', ?_⟩
    · simp [promoteMoves, hstep, hrun]
    · rw [hlen]
      cases done
      · rfl
      · simp
        omega

/-- The promotions start from the scanned table. -/
theorem Promoting.start (hscan : Scanned s₀ s session roots ingests) :
    Promoting s₀ s s session roots ingests (moveCandidates session roots s) [] where
  wf := hscan.wf
  rows := fun r hr => (hscan.rows r hr).imp_left fun ⟨r₀, hr₀, hfate⟩ => ⟨r₀, hr₀, .inl hfate⟩
  olds := fun r₀ hr₀ => (hscan.olds r₀ hr₀).imp fun _ ⟨hr, hfate⟩ => ⟨hr, .inl hfate⟩
  found := hscan.found
  unseen := fun _ hr _ => hr
  pending := by
    intro c hc
    simp only [moveCandidates, List.mem_filterMap, List.mem_filter, Bool.and_eq_true] at hc
    obtain ⟨r, ⟨hr, hunseen, hroots⟩, hc⟩ := hc
    simp only [Storage.unseen, decide_eq_true_eq] at hunseen
    split at hc
    · rename_i p h hp hh
      cases hc
      exact ⟨r, hr, rfl, hp, hh, hunseen.1, hroots, hunseen.2.2⟩
    · cases hc
  distinct := by
    have hkeyed : Table.Keyed FileRow.id
        (s.files.filter fun r => Storage.unseen session r && underRoots roots r) :=
      List.Nodup.sublist (List.filter_sublist.map _) hscan.wf.ids
    refine hkeyed.filterMap ?_
    · intro r c hc
      split at hc
      · cases hc
        rfl
      · cases hc
  moved := by
    intro r hr r' hr' hid
    rw [hscan.wf.ids.eq_of_key hr' hr hid]
    simp
  promotedOnce := List.nodup_nil
  promotedOld := by simp
  sessions := rfl
  mutations := rfl
  outcomes := rfl

/-- A row seen by the session shows a discovered file. -/
theorem Promoting.shows (h : Promoting s₀ s t session roots ingests rest promoted)
    (hscan : Scanned s₀ s session roots ingests) {r : FileRow} (hr : r ∈ t.files)
    (hseen : r.lastSeenSession = some session) : ∃ i ∈ ingests, Shows session i r := by
  rcases h.rows r hr with ⟨r₀, hr₀, hfate | ⟨-, -, i, hi, -, rfl⟩⟩ | ⟨i, hi, rfl⟩
  · exact hfate.shows (hscan.fresh r₀ hr₀) hseen
  · exact ⟨i, hi, rfl, rfl, rfl, rfl, rfl⟩
  · exact ⟨i, hi, newRow_shows session i⟩

end Promotion

/-! ## Marking missing -/

section Missing

variable {s₀ s t : Store} {session : SessionId} {roots : List Path} {ingests : List Ingest}
  {promoted : List Uuid}

theorem markedMissing_iff (hmut : ∀ m ∈ t.mutations, m.1 ≠ session) {r : FileRow} :
    markedMissing session roots t r = true ↔
      r.status = .active ∧ r.lastSeenSession ≠ some session ∧ underRoots roots r = true := by
  have hnone : (t.mutations.any fun m => m.1 = session ∧ some m.2 = r.path) = false := by
    simp only [List.any_eq_false, decide_eq_true_eq, not_and]
    intro m hm hsession
    exact absurd hsession (hmut m hm)
  simp only [markedMissing, hnone, Bool.not_false, Bool.and_true, Bool.and_eq_true, unseen,
    decide_eq_true_eq]
  constructor
  · rintro ⟨⟨hactive, -, hlast⟩, hroots⟩
    exact ⟨hactive, hlast, hroots⟩
  · rintro ⟨hactive, hlast, hroots⟩
    refine ⟨⟨hactive, ?_, hlast⟩, hroots⟩
    cases hp : r.path with
    | none => simp [underRoots, hp] at hroots
    | some p => rfl

/-- The row after the missing pass. -/
def afterMissing (session : SessionId) (roots : List Path) (t : Store) (r : FileRow) : FileRow :=
  if markedMissing session roots t r then { r with status := .missing } else r

@[simp] theorem afterMissing_id (r : FileRow) : (afterMissing session roots t r).id = r.id := by
  unfold afterMissing
  split <;> rfl

@[simp] theorem afterMissing_path (r : FileRow) :
    (afterMissing session roots t r).path = r.path := by
  unfold afterMissing
  split <;> rfl

/-- A row the session has seen is not marked. -/
theorem afterMissing_of_seen (hmut : ∀ m ∈ t.mutations, m.1 ≠ session) {r : FileRow}
    (hseen : r.lastSeenSession = some session) : afterMissing session roots t r = r := by
  unfold afterMissing
  rw [if_neg]
  rw [markedMissing_iff hmut]
  exact fun hcon => hcon.2.1 hseen

/-- A row outside the roots is not marked. -/
theorem afterMissing_of_outside (hmut : ∀ m ∈ t.mutations, m.1 ≠ session) {r : FileRow}
    (hout : underRoots roots r = false) : afterMissing session roots t r = r := by
  unfold afterMissing
  rw [if_neg]
  rw [markedMissing_iff hmut, hout]
  exact fun hcon => Bool.false_ne_true hcon.2.2

/-- Every unseen row under the roots is missing afterwards, if it was active. -/
theorem afterMissing_of_unseen (hmut : ∀ m ∈ t.mutations, m.1 ≠ session) {r : FileRow}
    (hactive : r.status = .active) (hroots : underRoots roots r = true)
    (hunseen : r.lastSeenSession ≠ some session) :
    (afterMissing session roots t r).status = .missing := by
  unfold afterMissing
  rw [if_pos ((markedMissing_iff hmut).mpr ⟨hactive, hunseen, hroots⟩)]

/-- An active row under the roots was seen. -/
theorem seen_of_afterMissing_active (hmut : ∀ m ∈ t.mutations, m.1 ≠ session) {r : FileRow}
    (hactive : (afterMissing session roots t r).status = .active)
    (hroots : underRoots roots r = true) : r.lastSeenSession = some session := by
  by_contra hunseen
  have hmissing : (afterMissing session roots t r).status ≠ .missing := by simp [hactive]
  have hstatus : r.status = .active := by
    unfold afterMissing at hactive
    split at hactive
    · cases hactive
    · exact hactive
  exact hmissing (afterMissing_of_unseen hmut hstatus hroots hunseen)

/-- What the missing pass leaves, as a table of the rows of `t`. -/
structure Marked (session : SessionId) (roots : List Path) (t t' : Store) : Prop where
  files : t'.files = t.files.map (afterMissing session roots t)
  outcomes : t'.transcodeOutcomes = t.transcodeOutcomes

namespace Marked

variable {t' : Store}

theorem mem (h : Marked session roots t t') {r' : FileRow} :
    r' ∈ t'.files ↔ ∃ r ∈ t.files, afterMissing session roots t r = r' := by
  rw [h.files, List.mem_map]

theorem mem_of_mem (h : Marked session roots t t') {r : FileRow} (hr : r ∈ t.files) :
    afterMissing session roots t r ∈ t'.files :=
  h.mem.mpr ⟨r, hr, rfl⟩

theorem wellFormed (h : Marked session roots t t') (hwf : t.WellFormed) : t'.WellFormed where
  ids := by
    unfold Table.Keyed
    have hids : t'.files.map FileRow.id = t.files.map FileRow.id := by
      rw [h.files, List.map_map]
      exact List.map_congr_left fun r _ => afterMissing_id r
    rw [hids]
    exact hwf.ids
  paths := by
    intro x hx y hy hp hsome
    obtain ⟨r, hr, rfl⟩ := h.mem.mp hx
    obtain ⟨r', hr', rfl⟩ := h.mem.mp hy
    rw [afterMissing_path] at hp hsome
    rw [afterMissing_path] at hp
    rw [hwf.paths r hr r' hr' hp hsome]
  outcomes := by
    intro id hid
    rw [h.outcomes] at hid
    obtain ⟨r, hr, hrid⟩ := hwf.outcomes id hid
    exact ⟨_, h.mem_of_mem hr, (afterMissing_id r).trans hrid⟩

end Marked

/-! ## Assembling the law -/

section Reconciled

variable {t' : Store} (h : Promoting s₀ s t session roots ingests [] promoted)
  (hscan : Scanned s₀ s session roots ingests) (hmut : ∀ m ∈ t.mutations, m.1 ≠ session)
  (hmarked : Marked session roots t t')

include h hmut hmarked

theorem Promoting.outside (hunder : ∀ i ∈ ingests, isUnderAny i.file.path roots = true)
    {r : FileRow} (hr : r ∈ s₀.files) (hout : underRoots roots r = false) : r ∈ t'.files := by
  have hnot : ∀ p, r.path = some p → isUnderAny p roots ≠ true := by
    intro p hp hp'
    simp [underRoots, hp, hp'] at hout
  obtain ⟨x, hx, hfate | ⟨-, hroots, -⟩⟩ := h.olds r hr
  · cases hfate with
    | untouched _ =>
      have hrow := hmarked.mem_of_mem hx
      rw [afterMissing_of_outside hmut hout] at hrow
      exact hrow
    | kept i hi hpath _ => exact absurd (hunder i hi) (hnot _ hpath)
    | moved _ _ p hpath hroots _ _ => exact absurd hroots (hnot p hpath)
    | superseded i hi hpath => exact absurd (hunder i hi) (hnot _ hpath)
  · rw [hroots] at hout
    cases hout

include hscan

/-- The active rows under the roots are the discovered files. -/
theorem Promoting.active_iff (f : DiscoveredFile) (hf : isUnderAny f.path roots = true) :
    (∃ r ∈ t'.files, r.status = .active ∧ r.path = some f.path ∧ r.contentHash = f.contentHash ∧
      r.size = f.size) ↔ ∃ i ∈ ingests, i.file = f := by
  constructor
  · rintro ⟨x, hx, hactive, hpath, hhash, hsize⟩
    obtain ⟨r, hr, rfl⟩ := hmarked.mem.mp hx
    rw [afterMissing_path] at hpath
    have hseen := seen_of_afterMissing_active hmut hactive (by simp [underRoots, hpath, hf])
    rw [afterMissing_of_seen hmut hseen] at hhash hsize
    obtain ⟨i, hi, hshow⟩ := h.shows hscan hr hseen
    refine ⟨i, hi, ?_⟩
    have hp : i.file.path = f.path := Option.some.inj (hshow.path.symm.trans hpath)
    have hh : i.file.contentHash = f.contentHash := hshow.contentHash.symm.trans hhash
    have hs : i.file.size = f.size := hshow.size.symm.trans hsize
    cases hfile : i.file with
    | mk p n c =>
      rw [hfile] at hp hh hs
      cases f
      simp_all
  · rintro ⟨i, hi, rfl⟩
    obtain ⟨r, hr, hshow⟩ := h.found i hi
    have hrow := hmarked.mem_of_mem hr
    rw [afterMissing_of_seen hmut hshow.lastSeen] at hrow
    exact ⟨r, hrow, hshow.status, hshow.path, hshow.contentHash, hshow.size⟩

/-- What became of a row that was active under the roots. -/
theorem Promoting.others {r : FileRow} (hr : r ∈ s₀.files) (hactive : r.status = .active)
    (hroots : underRoots roots r = true) :
    ∃ r' ∈ t'.files, r'.id = r.id ∧
      ((r'.status = .active ∧ r'.path = r.path) ∨ r'.status = .missing ∨
        ∃ i ∈ ingests, r'.status = .active ∧ r'.path = some i.file.path ∧
          r.expectedHash = some i.file.contentHash) := by
  obtain ⟨x, hx, hfate⟩ := h.olds r hr
  refine ⟨_, hmarked.mem_of_mem hx, (afterMissing_id x).trans hfate.id_eq, ?_⟩
  rcases hfate with hfate | ⟨-, -, i, hi, hexpected, rfl⟩
  · cases hfate with
    | untouched _ =>
      exact .inr (.inl (afterMissing_of_unseen hmut hactive hroots (hscan.fresh _ hr)))
    | kept i hi hpath _ =>
      rw [afterMissing_of_seen hmut rfl]
      exact .inl ⟨rfl, rfl⟩
    | moved _ _ _ _ _ hstatus _ => simp [hactive] at hstatus
    | superseded i hi _ =>
      rw [afterMissing_of_outside hmut rfl]
      exact .inr (.inl rfl)
  · rw [afterMissing_of_seen hmut rfl]
    exact .inr (.inr ⟨i, hi, rfl, rfl, hexpected⟩)

/-- The rows counted as missing are those that were active before `finish` and
are not any more. -/
theorem Promoting.missing_count :
    (t.files.filter (markedMissing session roots t)).length =
      (s.files.filter fun r => r.status = .active ∧
        t'.files.any fun r' => r'.id = r.id ∧ r'.status = .missing).length := by
  refine List.Perm.length_eq ((List.perm_ext_iff_of_nodup ?_ ?_).mpr fun r => ?_)
  · exact (List.Nodup.of_map _ h.wf.ids).filter _
  · exact (List.Nodup.of_map _ hscan.wf.ids).filter _
  · rw [List.mem_filter, List.mem_filter, markedMissing_iff hmut]
    simp only [List.any_eq_true, decide_eq_true_eq]
    constructor
    · rintro ⟨hr, hactive, hunseen, hroots⟩
      exact ⟨h.unseen r hr hunseen, hactive, _, hmarked.mem_of_mem hr, afterMissing_id r,
        afterMissing_of_unseen hmut hactive hroots hunseen⟩
    · rintro ⟨hr, hactive, x, hx, hid, hstatus⟩
      obtain ⟨y, hy, rfl⟩ := hmarked.mem.mp hx
      rw [afterMissing_id] at hid
      -- A missing row has not been seen, so it is the row `finish` started from.
      have hunseen : y.lastSeenSession ≠ some session := by
        intro hseen
        rw [afterMissing_of_seen hmut hseen] at hstatus
        obtain ⟨i, -, hshow⟩ := h.shows hscan hy hseen
        rw [hshow.status] at hstatus
        cases hstatus
      have heq : y = r := hscan.wf.ids.eq_of_key (h.unseen y hy hunseen) hr hid
      subst heq
      refine ⟨hy, hactive, hunseen, ?_⟩
      by_contra hroots
      rw [afterMissing_of_outside hmut (Bool.eq_false_iff.mpr hroots), hactive] at hstatus
      cases hstatus

omit hmut in
/-- The promotions counted are the rows `finish` gave another path. -/
theorem Promoting.promoted_count :
    promoted.length =
      (s.files.filter fun r => t'.files.any fun r' => r'.id = r.id ∧ r'.path ≠ r.path).length := by
  rw [← List.length_map FileRow.id]
  refine List.Perm.length_eq ((List.perm_ext_iff_of_nodup h.promotedOnce ?_).mpr fun id => ?_)
  · exact List.Nodup.sublist (List.filter_sublist.map _) hscan.wf.ids
  · simp only [List.mem_map, List.mem_filter, List.any_eq_true, decide_eq_true_eq]
    constructor
    · intro hid
      obtain ⟨r₀, hr₀, rfl⟩ := h.promotedOld id hid
      obtain ⟨r, hr, hfate⟩ := hscan.olds r₀ hr₀
      obtain ⟨r', hr', hfate'⟩ := h.olds r₀ hr₀
      have hids : r'.id = r.id := hfate'.id_eq.trans hfate.id_eq.symm
      refine ⟨r, ⟨hr, _, hmarked.mem_of_mem hr', (afterMissing_id r').trans hids, ?_⟩, hfate.id_eq⟩
      rw [afterMissing_path]
      exact (h.moved r hr r' hr' hids).mpr (hfate.id_eq ▸ hid)
    · rintro ⟨r, ⟨hr, x, hx, hid, hpath⟩, rfl⟩
      obtain ⟨r', hr', rfl⟩ := hmarked.mem.mp hx
      rw [afterMissing_id] at hid
      rw [afterMissing_path] at hpath
      exact (h.moved r hr r' hr' hid).mp hpath

/-- The missing pass completes the reconciliation. -/
theorem Promoting.reconciled (hunder : ∀ i ∈ ingests, isUnderAny i.file.path roots = true) :
    Reconciled s₀ s t' roots ingests
      ⟨(t.files.filter (markedMissing session roots t)).length, promoted.length⟩ where
  active := h.active_iff hscan hmut hmarked
  wellFormed := hmarked.wellFormed h.wf
  others := fun _ hr hactive hroots => h.others hscan hmut hmarked hr hactive hroots
  outside := fun _ hr hout => h.outside hmut hmarked hunder hr hout
  ids := by
    intro r hr
    obtain ⟨x, hx, hfate⟩ := h.olds r hr
    exact ⟨_, hmarked.mem_of_mem hx, (afterMissing_id x).trans hfate.id_eq⟩
  missing := h.missing_count hscan hmut hmarked
  promotedMoves := h.promoted_count hscan hmarked

end Reconciled

end Missing

/-! ## Whole scans -/

section Scan

variable {s₀ : Store} {roots : List Path} {session : SessionId} {ingests : List Ingest}

/-- A scan with completed predecessors begins. -/
theorem ScanInput.begin_ok (h : ScanInput s₀ roots session ingests) (startedAt : Time) :
    beginScanSession roots session startedAt s₀ =
      .ok { s₀ with sessions :=
        s₀.sessions ++ [⟨session, roots, .inProgress, startedAt, startedAt⟩] } := by
  have hnot : ∀ p ∈ s₀.sessions, p.status ≠ .inProgress := by
    intro p hp hstatus
    rw [h.completed p hp] at hstatus
    cases hstatus
  have hnone : (s₀.sessions.find? fun p =>
      p.status = .inProgress ∧ ageSecs startedAt p.lastHeartbeatAt ≤ staleSessionSecs) = none := by
    simp only [List.find?_eq_none, decide_eq_true_eq, not_and]
    exact fun p hp hstatus => absurd hstatus (hnot p hp)
  have hmap : (s₀.sessions.map fun p => if p.status = .inProgress then
      { p with status := .cancelled, lastHeartbeatAt := startedAt } else p) = s₀.sessions := by
    conv_rhs => rw [← List.map_id s₀.sessions]
    exact List.map_congr_left fun p hp => if_neg (hnot p hp)
  simp only [beginScanSession, hnone, hmap]

/-- A session of the table is found by its id. -/
theorem session_of_mem {s : Store} (hkeyed : Table.Keyed ScanSession.id s.sessions)
    {p : ScanSession} (hp : p ∈ s.sessions) : s.session p.id = some p := by
  unfold Store.session
  cases hfind : s.sessions.find? fun q => q.id = p.id with
  | none =>
    rw [List.find?_eq_none] at hfind
    exact absurd (by simp) (hfind p hp)
  | some q =>
    have hid : q.id = p.id := by simpa using List.find?_some hfind
    rw [hkeyed.eq_of_key (List.mem_of_find?_eq_some hfind) hp hid]

/-- The session tables of a scan that has begun. -/
theorem ScanInput.predecessors (h : ScanInput s₀ roots session ingests) (startedAt : Time) {s : Store}
    (hs : s.sessions = s₀.sessions ++ [⟨session, roots, .inProgress, startedAt, startedAt⟩])
    (hfiles : s.files = s₀.files) : Predecessors s session roots startedAt := by
  have hkeyed : Table.Keyed ScanSession.id s.sessions := by
    rw [hs]
    exact h.sessions.append h.freshSession
  refine ⟨⟨startedAt, ?_⟩, fun r hr => ?_⟩
  · have hmem : (⟨session, roots, .inProgress, startedAt, startedAt⟩ : ScanSession) ∈ s.sessions := by
      rw [hs]
      simp
    exact session_of_mem hkeyed hmem
  · rw [hfiles] at hr
    cases hlast : r.lastSeenSession with
    | none => rfl
    | some sid =>
      obtain ⟨p, hp, rfl⟩ := h.known r hr sid hlast
      have hfind := session_of_mem hkeyed (by rw [hs]; exact List.mem_append_left _ hp)
      simp [priorSessionNeedsRecovery, hfind, h.completed p hp]

/-- The store `finish` leaves, from the one the promotions left. -/
def finished (session : SessionId) (roots : List Path) (finishedAt : Time) (t : Store) : Store :=
  { (markMissingInFinish session roots t).1 with
    sessions := t.sessions.map fun q =>
      if q.id = session then { q with status := .completed, lastHeartbeatAt := finishedAt } else q }

theorem finished_marked (finishedAt : Time) (t : Store) :
    Marked session roots t (finished session roots finishedAt t) :=
  ⟨rfl, rfl⟩

theorem finishScanSession_ok {s t : Store} {p : ScanSession} {n : Nat} (finishedAt : Time)
    (hp : s.session session = some p) (hstatus : p.status = .inProgress)
    (hpromote : promoteMoves session p.startedAt (moveCandidates session p.roots s) s = .ok (t, n)) :
    finishScanSession session finishedAt s =
      .ok (finished session p.roots finishedAt t,
        ⟨(t.files.filter (markedMissing session p.roots t)).length, n⟩) := by
  simp only [finishScanSession, hp, hstatus, hpromote]
  rfl

/-- A completed scan on well-dated rows succeeds and reconciles the table with
the discovered files, in whatever order they are ingested. -/
theorem scan_reconciles (h : ScanInput s₀ roots session ingests) (startedAt finishedAt : Time)
    (hdated : WellDated s₀ roots startedAt ingests) :
    ∃ s t outcome, scanUpToFinish roots session startedAt ingests s₀ = .ok s ∧
      runScan roots session startedAt finishedAt ingests s₀ = .ok (t, outcome) ∧
      Reconciled s₀ s t roots ingests outcome := by
  let s₁ : Store := { s₀ with sessions :=
    s₀.sessions ++ [⟨session, roots, .inProgress, startedAt, startedAt⟩] }
  have hbegin : beginScanSession roots session startedAt s₀ = .ok s₁ := h.begin_ok startedAt
  have hpre : Predecessors s₁ session roots startedAt := h.predecessors startedAt rfl rfl
  have hfresh : ∀ r ∈ s₁.files, r.lastSeenSession ≠ some session := by
    intro r hr hlast
    obtain ⟨p, hp, hpid⟩ := h.known r hr session hlast
    exact h.freshSession p hp hpid
  have hstart : Scanned s₁ s₁ session roots [] :=
    .start ⟨h.wellFormed.ids, h.wellFormed.paths, h.wellFormed.outcomes⟩ hfresh
  obtain ⟨s, hingest, hscan⟩ := hstart.ingestAll hpre h.paths h.newIds h.freshIds
  obtain ⟨t, n, promoted, hpromote, hdone, hn⟩ :=
    (Promoting.start hscan).run hscan h.freshIds hdated
  have hupto : scanUpToFinish roots session startedAt ingests s₀ = .ok s := by
    simp only [scanUpToFinish, hbegin]
    exact hingest
  obtain ⟨heartbeat, hcurrent⟩ := hpre.current
  have hsession : s.session session =
      some ⟨session, roots, .inProgress, startedAt, heartbeat⟩ := by
    rw [← hcurrent]
    simp only [Store.session, hscan.sessions]
  have hrun : runScan roots session startedAt finishedAt ingests s₀ =
      .ok (finished session roots finishedAt t,
        ⟨(t.files.filter (markedMissing session roots t)).length, n⟩) := by
    simp only [runScan, hupto]
    exact finishScanSession_ok finishedAt hsession rfl hpromote
  have hmut : ∀ m ∈ t.mutations, m.1 ≠ session := by
    rw [hdone.mutations, hscan.mutations]
    exact h.unmutated
  have hcount : promoted.length = n := by simpa using hn
  refine ⟨s, _, _, hupto, hrun, ?_⟩
  have hlaw := hdone.reconciled hscan hmut (finished_marked finishedAt t) h.underRoots
  rw [hcount] at hlaw
  exact ⟨hlaw.active, hlaw.wellFormed, hlaw.others, hlaw.outside, hlaw.ids, hlaw.missing,
    hlaw.promotedMoves⟩

end Scan

namespace MovedFile

def roots : List Path := [⟨["r"]⟩]

/-- A library with a file that will have been moved; `created` dates its copy. -/
def store (created : Time) : Store :=
  { files :=
      [{ id := 1, path := some ⟨["r", "a"]⟩, size := 5, contentHash := "x", expectedHash := some "x",
         introspectedAt := created, createdAt := created, lastSeenSession := some 50 },
       { id := 2, path := some ⟨["r", "b"]⟩, size := 5, contentHash := "x", expectedHash := some "x",
         introspectedAt := 3, createdAt := 3, lastSeenSession := some 50 }],
    sessions := [⟨50, roots, .completed, 2, 4⟩] }

/-- The copy is still there, `b` has vanished and its content is at `c`. -/
def ingests : List Ingest :=
  [⟨⟨⟨["r", "a"]⟩, 5, "x"⟩, 11, 10⟩, ⟨⟨⟨["r", "c"]⟩, 5, "x"⟩, 12, 11⟩]

theorem input (created : Time) : ScanInput (store created) roots 51 ingests where
  wellFormed := ⟨by simp [Table.Keyed, store], by simp [store], by simp [store]⟩
  sessions := by simp [Table.Keyed, store]
  completed := by simp [store]
  known := by simp [store]
  freshSession := by simp [store]
  unmutated := by simp [store]
  paths := by decide
  underRoots := by simp [ingests, roots, isUnderAny, Path.startsWith]
  newIds := by decide
  freshIds := by simp [store, ingests]

end MovedFile

/-- Rows older than the session: the vanished row follows its content. -/
theorem moved_file_reconciles :
    ∃ s t outcome, scanUpToFinish MovedFile.roots 51 10 MovedFile.ingests (MovedFile.store 3) = .ok s ∧
      runScan MovedFile.roots 51 10 20 MovedFile.ingests (MovedFile.store 3) = .ok (t, outcome) ∧
      Reconciled (MovedFile.store 3) s t MovedFile.roots MovedFile.ingests outcome := by
  refine scan_reconciles (MovedFile.input 3) 10 20 ?_
  intro r hr hdate
  simp only [MovedFile.store, List.mem_cons, List.not_mem_nil, or_false] at hr
  rcases hr with rfl | rfl <;> exact absurd hdate (by decide)

/-- A row of an earlier session dated after the start of this one, the clock
having been set back: the promotion of `b` deletes it. -/
theorem misdated_row_disappears :
    ScanInput (MovedFile.store 15) MovedFile.roots 51 MovedFile.ingests ∧
      ¬ ∃ s t outcome,
        scanUpToFinish MovedFile.roots 51 10 MovedFile.ingests (MovedFile.store 15) = .ok s ∧
        runScan MovedFile.roots 51 10 20 MovedFile.ingests (MovedFile.store 15) = .ok (t, outcome) ∧
        Reconciled (MovedFile.store 15) s t MovedFile.roots MovedFile.ingests outcome := by
  refine ⟨MovedFile.input 15, ?_⟩
  rintro ⟨s, t, outcome, -, hrun, hlaw⟩
  have hids : (runScan MovedFile.roots 51 10 20 MovedFile.ingests (MovedFile.store 15)).map
      (·.1.files.map (·.id)) = .ok [2, 11] := by decide
  rw [hrun] at hids
  have ht : t.files.map (·.id) = [2, 11] := by simpa [Except.map] using hids
  obtain ⟨r, hr, hid⟩ := hlaw.ids
    { id := 1, path := some ⟨["r", "a"]⟩, size := 5, contentHash := "x", expectedHash := some "x",
      introspectedAt := 15, createdAt := 15, lastSeenSession := some 50 } List.mem_cons_self
  have hmem : r.id ∈ t.files.map (·.id) := List.mem_map.mpr ⟨r, hr, rfl⟩
  rw [ht, hid] at hmem
  simp at hmem

end Voom.Storage
