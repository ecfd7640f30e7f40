-- SUMMARY: VOOM's own writes: the record of a session's mutations, and when a finish leaves their rows alone.
import Voom.Storage.Reconcile
import Voom.Storage.Rows

/-!
# Recorded mutations

An executor records the paths it is about to write, source and destination, so
that the finish of the session can tell its writes from external changes. The
pass that marks rows missing looks at the record; the pass before it, which
promotes moves, does not. The promotions take their candidates and targets by
queries without `ORDER BY`, so the results are about every order of the rows.
-/

namespace Voom.Storage

open Lib

/-! ## The record -/

inductive MutationKind where
  | overwrite | rename | containerConversion | newOutput
  deriving DecidableEq, Repr

/-- `recordedAt` counts nanoseconds from the epoch, in either direction. -/
structure VoomOriginatedMutation where
  session : SessionId
  path : Path
  original : Option Path
  kind : MutationKind
  recordedAt : Int
  deriving DecidableEq, Repr

/-- `INSERT OR REPLACE` of one touched path; the session and path are the key. -/
def insertMutation (session : SessionId) (path : Path) (s : Store) : Store :=
  { s with mutations := s.mutations.filter (· ≠ (session, path)) ++ [(session, path)] }

/-- `record_voom_mutation`: a row for the destination and one for the source. -/
def recordVoomMutation (m : VoomOriginatedMutation) (s : Store) : Except VoomError Store :=
  if m.recordedAt < 0 then
    .error (.storage .other
      "recorded_at before UNIX_EPOCH: second time provided was later than self")
  else if 2 ^ 63 ≤ m.recordedAt / 10 ^ 9 then
    .error (.storage .other
      "recorded_at exceeds i64: out of range integral type conversion attempted")
  else
    let s := insertMutation m.session m.path s
    match m.original with
    | some original => .ok (insertMutation m.session original s)
    | none => .ok s

/-- The paths a mutation touches. -/
def VoomOriginatedMutation.paths (m : VoomOriginatedMutation) : List Path :=
  m.path :: m.original.toList

/-- Whether the clock reading can be stored. -/
def VoomOriginatedMutation.Storable (m : VoomOriginatedMutation) : Prop :=
  0 ≤ m.recordedAt ∧ m.recordedAt / 10 ^ 9 < 2 ^ 63

/-! ## A session -/

/-- What the walk and the executors write while a session is open. -/
inductive SessionStep where
  | ingest (i : Ingest)
  | record (m : VoomOriginatedMutation)
  | upsert (file : MediaFile) (now : Time)
  | postExecution (newPath : Option Path) (newExpectedHash : Option Hash)
      (transition : FileTransition)

def SessionStep.apply (session : SessionId) : SessionStep → Store → Except VoomError Store
  | .ingest i, s => (ingestDiscoveredFile (i.ctx session) s).map (·.1)
  | .record m, s => recordVoomMutation m s
  | .upsert file now, s => upsertFile file now s
  | .postExecution newPath newExpectedHash transition, s =>
    recordPostExecution newPath newExpectedHash transition s

/-- The steps of a session in the order they reach the store; one that fails is
rolled back. -/
def runSession (session : SessionId) : List SessionStep → Store → Store
  | [], s => s
  | step :: steps, s =>
    match step.apply session s with
    | .error _ => runSession session steps s
    | .ok s => runSession session steps s

/-- The path is the source or the destination of a mutation recorded for the session. -/
def Recorded (session : SessionId) (steps : List SessionStep) (path : Path) : Prop :=
  ∃ m, .record m ∈ steps ∧ m.session = session ∧ m.Storable ∧ path ∈ m.paths

/-- An active row at a recorded path. -/
def OwnWrite (session : SessionId) (steps : List SessionStep) (r : FileRow) : Prop :=
  r.status = .active ∧ ∃ path, r.path = some path ∧ Recorded session steps path

/-! ## The record keeps its paths -/

section Record

variable {session : SessionId} {s s' : Store} {entry : SessionId × Path}

theorem insertMutation_mem {id : SessionId} {path : Path} :
    entry ∈ (insertMutation id path s).mutations ↔ entry ∈ s.mutations ∨ entry = (id, path) := by
  simp only [insertMutation, List.mem_append, List.mem_filter, List.mem_singleton]
  by_cases h : entry = (id, path) <;> simp [h]

theorem recordVoomMutation_ok {m : VoomOriginatedMutation} (h : m.Storable) :
    ∃ s', recordVoomMutation m s = .ok s' ∧
      ∀ path ∈ m.paths, (m.session, path) ∈ s'.mutations := by
  obtain ⟨hpos, hlt⟩ := h
  unfold recordVoomMutation
  rw [if_neg (by omega), if_neg (by omega)]
  cases ho : m.original with
  | none =>
    refine ⟨_, rfl, fun path hpath => ?_⟩
    simp only [VoomOriginatedMutation.paths, ho, Option.toList_none, List.mem_singleton] at hpath
    exact insertMutation_mem.mpr (.inr (by rw [hpath]))
  | some original =>
    refine ⟨_, rfl, fun path hpath => ?_⟩
    simp only [VoomOriginatedMutation.paths, ho, Option.toList_some, List.mem_cons,
      List.not_mem_nil, or_false] at hpath
    rcases hpath with rfl | rfl
    · exact insertMutation_mem.mpr (.inl (insertMutation_mem.mpr (.inr rfl)))
    · exact insertMutation_mem.mpr (.inr rfl)

theorem recordVoomMutation_keeps {m : VoomOriginatedMutation}
    (h : recordVoomMutation m s = .ok s') (hentry : entry ∈ s.mutations) :
    entry ∈ s'.mutations := by
  unfold recordVoomMutation at h
  split at h
  · cases h
  split at h
  · cases h
  split at h
  · cases h
    exact insertMutation_mem.mpr (.inl (insertMutation_mem.mpr (.inl hentry)))
  · cases h
    exact insertMutation_mem.mpr (.inl hentry)

theorem ingest_mutations {ctx : IngestCtx} {decision : IngestDecision}
    (h : ingestDiscoveredFile ctx s = .ok (s', decision)) : s'.mutations = s.mutations := by
  rcases ingest_cases h with ⟨rfl, -⟩ | ⟨base, hbase, rfl, -⟩ | ⟨e, -, -, -, ⟨rfl, -⟩ | ⟨rfl, -⟩⟩
  · rfl
  · have hmutations : base.mutations = s.mutations := by
      cases hbase <;> rfl
    rw [← hmutations]
    rcases ingestNoRow_cases ctx base with ⟨r, p, -, heq⟩ | ⟨-, heq⟩ <;> rw [heq] <;> rfl
  · rfl
  · rfl

theorem upsertFile_mutations {file : MediaFile} {now : Time} (h : upsertFile file now s = .ok s') :
    s'.mutations = s.mutations := by
  unfold upsertFile at h
  split at h
  · cases h
  split at h
  · cases h
    rfl
  split at h
  · cases h
  · cases h
    rfl

theorem recordPostExecution_mutations {newPath : Option Path} {newExpectedHash : Option Hash}
    {transition : FileTransition}
    (h : recordPostExecution newPath newExpectedHash transition s = .ok s') :
    s'.mutations = s.mutations := by
  unfold recordPostExecution at h
  simp only at h
  split at h
  · cases h
  · rename_i t ht
    have hmutations : t.mutations = s.mutations := by
      split at ht
      · cases ht
        rfl
      · split at ht
        · split at ht
          · cases ht
          · cases ht
            rfl
        · cases ht
          rfl
    rw [← hmutations]
    split at h <;> cases h <;> rfl

/-- Step: nothing a session does removes an entry. -/
theorem SessionStep.apply_keeps {step : SessionStep} (h : step.apply session s = .ok s')
    (hentry : entry ∈ s.mutations) : entry ∈ s'.mutations := by
  cases step with
  | ingest i =>
    simp only [SessionStep.apply] at h
    cases hingest : ingestDiscoveredFile (i.ctx session) s with
    | error e =>
      rw [hingest] at h
      cases h
    | ok result =>
      rw [hingest] at h
      cases h
      have hkeep : result.1.mutations = s.mutations := ingest_mutations hingest
      exact hkeep ▸ hentry
  | record m => exact recordVoomMutation_keeps h hentry
  | upsert file now =>
    rw [upsertFile_mutations h]
    exact hentry
  | postExecution newPath newExpectedHash transition =>
    rw [recordPostExecution_mutations h]
    exact hentry

/-- Run: entries stay. -/
theorem runSession_keeps {steps : List SessionStep} (hentry : entry ∈ s.mutations) :
    entry ∈ (runSession session steps s).mutations := by
  induction steps generalizing s with
  | nil => exact hentry
  | cons step steps ih =>
    unfold runSession
    split
    · exact ih hentry
    · rename_i s' hstep
      exact ih (SessionStep.apply_keeps hstep hentry)

/-- Every recorded path is in the table at the end, whatever came after it. -/
theorem runSession_recorded {steps : List SessionStep} {path : Path}
    (h : Recorded session steps path) : (session, path) ∈ (runSession session steps s).mutations := by
  obtain ⟨m, hm, rfl, hstorable, hpath⟩ := h
  induction steps generalizing s with
  | nil => cases hm
  | cons step steps ih =>
    rcases List.mem_cons.mp hm with rfl | hm
    · obtain ⟨s', hs', hpaths⟩ := recordVoomMutation_ok (s := s) hstorable
      unfold runSession
      simp only [SessionStep.apply, hs']
      exact runSession_keeps (hpaths path hpath)
    · unfold runSession
      split
      · exact ih hm
      · exact ih hm

end Record

/-! ## Promotions -/

/-- The rows `promote_moves_in_tx` takes as candidates. -/
def IsCandidate (session : SessionId) (roots : List Path) (c : FileRow) : Prop :=
  unseen session c = true ∧ underRoots roots c = true ∧ c.expectedHash.isSome = true

/-- The rows that can be the target of a promotion: seen by the session, dated
since it started, and in the place of no row that gave up its path. -/
def IsTarget (session : SessionId) (startedAt : Time) (s : Store) (r : FileRow) : Prop :=
  r.lastSeenSession = some session ∧ startedAt ≤ r.createdAt ∧ r.path.isSome = true ∧
    ∀ old ∈ s.files, old.path = none → old.supersededBy ≠ some r.id

/-- No row of VOOM's own shares its content with a vanished row and a new one. -/
def NoCollision (session : SessionId) (steps : List SessionStep) (p : ScanSession) (s : Store) :
    Prop :=
  ∀ c ∈ s.files, IsCandidate session p.roots c → ∀ r ∈ s.files,
    IsTarget session p.startedAt s r → c.expectedHash = some r.contentHash →
    ¬ OwnWrite session steps c ∧ ¬ OwnWrite session steps r

section Promotions

variable {session : SessionId} {startedAt : Time} {s t t' : Store} {c : MissingCandidate}

/-- What a promotion does, with all the conditions on its target. -/
theorem tryPromoteOneMove_spec {done : Bool}
    (h : tryPromoteOneMove c session startedAt t = .ok (t', done)) :
    t' = t ∨ ∃ target ∈ t.files, target.lastSeenSession = some session ∧
      target.contentHash = c.expectedHash ∧ startedAt ≤ target.createdAt ∧
      target.path.isSome = true ∧ target.id ≠ c.id ∧
      (∀ old ∈ t.files, old.supersededBy ≠ some target.id) ∧
      t'.mutations = t.mutations ∧
      t'.files = Table.modify FileRow.id c.id (fun r =>
        { r with path := target.path, size := target.size, contentHash := c.expectedHash,
                 status := .active, lastSeenSession := some session })
        (Table.delete FileRow.id target.id t.files) := by
  unfold tryPromoteOneMove at h
  split at h
  · cases h
    exact .inl rfl
  · rename_i target htarget
    unfold promotionTarget at htarget
    have hmem := List.mem_of_find?_eq_some htarget
    have hp := List.find?_some htarget
    simp only [decide_eq_true_eq, List.any_eq_true, not_exists, not_and] at hp
    obtain ⟨hseen, hhash, hdated, hpath, hne, hlinks⟩ := hp
    split at h
    · cases h
    · rename_i t₁ hdelete
      unfold Store.deleteFile at hdelete
      split at hdelete
      · cases hdelete
      · cases hdelete
        cases h
        exact .inr ⟨target, hmem, hseen, hhash, hdated, hpath, hne, hlinks, rfl, rfl⟩

/-- The rows of another id come from before the promotion. -/
theorem tryPromoteOneMove_frame {done : Bool}
    (h : tryPromoteOneMove c session startedAt t = .ok (t', done)) {r : FileRow}
    (hr : r ∈ t'.files) (hid : r.id ≠ c.id) : r ∈ t.files := by
  rcases tryPromoteOneMove_spec h with rfl | ⟨target, -, -, -, -, -, -, -, -, hfiles⟩
  · exact hr
  · rw [hfiles] at hr
    obtain ⟨x, hx, rfl⟩ := Table.mem_modify.mp hr
    split at hid
    · rename_i hk
      exact absurd hk hid
    · rename_i hk
      rw [if_neg hk]
      exact (Table.mem_delete.mp hx).1

theorem promoteMoves_frame {candidates : List MissingCandidate} {n : Nat}
    (h : promoteMoves session startedAt candidates t = .ok (t', n)) {r : FileRow}
    (hr : r ∈ t'.files) (hid : ∀ c ∈ candidates, r.id ≠ c.id) : r ∈ t.files := by
  induction candidates generalizing t n with
  | nil =>
    cases h
    exact hr
  | cons c candidates ih =>
    unfold promoteMoves at h
    split at h
    · cases h
    · rename_i t₁ done hstep
      split at h
      · cases h
      · rename_i t₂ n₂ hrest
        cases h
        have hr₁ := ih hrest fun c' hc' => hid c' (List.mem_cons_of_mem _ hc')
        exact tryPromoteOneMove_frame hstep hr₁ (hid c List.mem_cons_self)

theorem promoteMoves_mutations {candidates : List MissingCandidate} {n : Nat}
    (h : promoteMoves session startedAt candidates t = .ok (t', n)) :
    t'.mutations = t.mutations := by
  induction candidates generalizing t n with
  | nil =>
    cases h
    rfl
  | cons c candidates ih =>
    unfold promoteMoves at h
    split at h
    · cases h
    · rename_i t₁ done hstep
      split at h
      · cases h
      · rename_i t₂ n₂ hrest
        cases h
        rw [ih hrest]
        rcases tryPromoteOneMove_spec hstep with rfl | ⟨-, -, -, -, -, -, -, -, hmutations, -⟩
        · rfl
        · exact hmutations

end Promotions

/-! ## Rows of VOOM's own -/

section Own

variable {session : SessionId} {steps : List SessionStep} {p : ScanSession} {s t t' : Store}
  {c : MissingCandidate}

/-- The table in the middle of the promotions of a finish that began on `s`.
VOOM's own rows stand as they were, and a promoted row is none of them and has
the content of a target. -/
structure Sparing (session : SessionId) (steps : List SessionStep) (p : ScanSession)
    (s t : Store) : Prop where
  own : ∀ r ∈ s.files, OwnWrite session steps r → r ∈ t.files
  pathless : ∀ r ∈ s.files, r.path = none → r ∈ t.files
  rows : ∀ x ∈ t.files, x ∈ s.files ∨
    ((∀ r ∈ s.files, r.id = x.id → ¬ OwnWrite session steps r ∧ r.path.isSome = true) ∧
      ∃ y ∈ s.files, IsTarget session p.startedAt s y ∧ y.contentHash = x.contentHash)

/-- A candidate and the row it was selected from. -/
theorem mem_moveCandidates {roots : List Path} :
    c ∈ moveCandidates session roots s ↔ ∃ r ∈ s.files, IsCandidate session roots r ∧
      r.id = c.id ∧ r.path = some c.path ∧ r.expectedHash = some c.expectedHash := by
  simp only [moveCandidates, List.mem_filterMap, List.mem_filter, Bool.and_eq_true, IsCandidate]
  constructor
  · rintro ⟨r, ⟨hr, hunseen, hroots⟩, hc⟩
    split at hc
    · rename_i path hash hpath hhash
      cases hc
      exact ⟨r, hr, ⟨hunseen, hroots, by simp [hhash]⟩, rfl, hpath, hhash⟩
    · cases hc
  · rintro ⟨r, hr, ⟨hunseen, hroots, -⟩, hid, hpath, hhash⟩
    refine ⟨r, ⟨hr, hunseen, hroots⟩, ?_⟩
    rw [hpath, hhash]
    simp [hid]

theorem IsCandidate.path_isSome {roots : List Path} {r : FileRow}
    (h : IsCandidate session roots r) : r.path.isSome = true := by
  have hunseen := h.1
  simp only [unseen, decide_eq_true_eq] at hunseen
  exact hunseen.2.1

/-- Step: without collisions a promotion spares VOOM's own rows. -/
theorem Sparing.step (h : Sparing session steps p s t) (hwf : s.WellFormed)
    (hclear : NoCollision session steps p s) (hc : c ∈ moveCandidates session p.roots s)
    {done : Bool} (hstep : tryPromoteOneMove c session p.startedAt t = .ok (t', done)) :
    Sparing session steps p s t' := by
  rcases tryPromoteOneMove_spec hstep with rfl |
    ⟨target, htarget, hseen, hhash, hdated, hpath, hne, hlinks, -, hfiles⟩
  · exact h
  obtain ⟨rc, hrc, hcandidate, hid, -, hexpected⟩ := mem_moveCandidates.mp hc
  -- The target, or the one it was promoted to, is a row that `finish` found.
  obtain ⟨y, hy, hytarget, hyhash⟩ : ∃ y ∈ s.files, IsTarget session p.startedAt s y ∧
      y.contentHash = target.contentHash := by
    rcases h.rows target htarget with hs | ⟨-, hy⟩
    · exact ⟨target, hs, ⟨hseen, hdated, hpath, fun old hold hnone =>
        hlinks old (h.pathless old hold hnone)⟩, rfl⟩
    · exact hy
  have hexpected' : rc.expectedHash = some y.contentHash := by
    rw [hexpected, hyhash, hhash]
  have hcown : ¬ OwnWrite session steps rc := (hclear rc hrc hcandidate y hy hytarget hexpected').1
  have htown : ∀ r ∈ s.files, r.id = target.id → ¬ OwnWrite session steps r ∧
      r.path.isSome = true := by
    intro r hr hrid
    rcases h.rows target htarget with hs | ⟨hpromoted, -⟩
    · have heq := hwf.ids.eq_of_key hr hs hrid
      subst heq
      have htarget' : IsTarget session p.startedAt s r := ⟨hseen, hdated, hpath,
        fun old hold hnone => hlinks old (h.pathless old hold hnone)⟩
      exact ⟨(hclear rc hrc hcandidate r hr htarget' (by rw [hexpected, hhash])).2, hpath⟩
    · exact hpromoted r hr hrid
  -- A row that is neither the candidate nor the target stays.
  have hstay : ∀ r ∈ s.files, r ∈ t.files → r.id ≠ c.id → r.id ≠ target.id → r ∈ t'.files := by
    intro r _ hrt hrc' hrt'
    rw [hfiles]
    exact Table.mem_modify_of_ne (Table.mem_delete.mpr ⟨hrt, hrt'⟩) hrc'
  refine ⟨?_, ?_, ?_⟩
  · intro r hr hown
    apply hstay r hr (h.own r hr hown)
    · intro hrid
      rw [hwf.ids.eq_of_key hr hrc (hrid.trans hid.symm)] at hown
      exact hcown hown
    · intro hrid
      exact (htown r hr hrid).1 hown
  · intro r hr hnone
    apply hstay r hr (h.pathless r hr hnone)
    · intro hrid
      have hsome := hcandidate.path_isSome
      rw [← hwf.ids.eq_of_key hr hrc (hrid.trans hid.symm), hnone] at hsome
      cases hsome
    · intro hrid
      have hsome := (htown r hr hrid).2
      rw [hnone] at hsome
      cases hsome
  · intro x hx
    rw [hfiles] at hx
    obtain ⟨r, hr, rfl⟩ := Table.mem_modify.mp hx
    split
    · rename_i hk
      refine .inr ⟨?_, y, hy, hytarget, hyhash.trans hhash⟩
      intro r' hr' hid'
      rw [hwf.ids.eq_of_key hr' hrc (hid'.trans (hk.trans hid.symm))]
      exact ⟨hcown, hcandidate.path_isSome⟩
    · exact h.rows r (Table.mem_delete.mp hr).1

/-- Run: all promotions. -/
theorem Sparing.run (h : Sparing session steps p s t) (hwf : s.WellFormed)
    (hclear : NoCollision session steps p s) {candidates : List MissingCandidate}
    (hc : ∀ c ∈ candidates, c ∈ moveCandidates session p.roots s) {n : Nat}
    (hrun : promoteMoves session p.startedAt candidates t = .ok (t', n)) :
    Sparing session steps p s t' := by
  induction candidates generalizing t n with
  | nil =>
    cases hrun
    exact h
  | cons c candidates ih =>
    unfold promoteMoves at hrun
    split at hrun
    · cases hrun
    · rename_i t₁ done hstep
      split at hrun
      · cases hrun
      · rename_i t₂ n₂ hrest
        cases hrun
        have h₁ := h.step hwf hclear (hc c List.mem_cons_self) hstep
        exact ih h₁ (fun c' hc' => hc c' (List.mem_cons_of_mem _ hc')) hrest

end Own

/-! ## The finish -/

section Finish

variable {session : SessionId} {steps : List SessionStep} {p : ScanSession} {s t : Store}

/-- Whatever the order of the rows, a finish that succeeds leaves VOOM's own
rows active at their paths. -/
def KeepsOwnWrites (session : SessionId) (steps : List SessionStep) (s : Store) : Prop :=
  ∀ files, files.Perm s.files → ∀ now t outcome,
    finishScanSession session now { s with files } = .ok (t, outcome) →
    ∀ r ∈ s.files, OwnWrite session steps r →
      ∃ r' ∈ t.files, r'.id = r.id ∧ r'.path = r.path ∧ r'.status = r.status

/-- The rows a finish leaves: those of the promotions, some marked missing. -/
theorem finish_cases {now : Time} {outcome : ScanFinishOutcome} (hp : s.session session = some p)
    (h : finishScanSession session now s = .ok (t, outcome)) :
    ∃ t₁ n, promoteMoves session p.startedAt (moveCandidates session p.roots s) s = .ok (t₁, n) ∧
      t.files = t₁.files.map fun r =>
        if markedMissing session p.roots t₁ r then { r with status := .missing } else r := by
  unfold finishScanSession at h
  rw [hp] at h
  simp only at h
  split at h
  · cases h
  split at h
  · cases h
  · rename_i t₁ n hpromote
    cases h
    exact ⟨t₁, n, hpromote, rfl⟩

theorem wellFormed_of_perm (hwf : s.WellFormed) {files : List FileRow} (hperm : files.Perm s.files) :
    ({ s with files } : Store).WellFormed where
  ids := (hperm.map FileRow.id).nodup_iff.mpr hwf.ids
  paths := fun r hr r' hr' => hwf.paths r (hperm.mem_iff.mp hr) r' (hperm.mem_iff.mp hr')
  outcomes := by
    intro id hid
    obtain ⟨r, hr, rfl⟩ := hwf.outcomes id hid
    exact ⟨r, hperm.mem_iff.mpr hr, rfl⟩

theorem noCollision_of_perm (h : NoCollision session steps p s) {files : List FileRow}
    (hperm : files.Perm s.files) : NoCollision session steps p { s with files } := by
  intro c hc hcandidate r hr htarget hhash
  refine h c (hperm.mem_iff.mp hc) hcandidate r (hperm.mem_iff.mp hr) ?_ hhash
  obtain ⟨hseen, hdated, hpath, hlinks⟩ := htarget
  exact ⟨hseen, hdated, hpath, fun old hold => hlinks old (hperm.mem_iff.mpr hold)⟩

/-- Without collisions a finish leaves a recorded row as it was. -/
theorem finish_spares (hp : s.session session = some p) (hwf : s.WellFormed)
    (hrecord : ∀ path, Recorded session steps path → (session, path) ∈ s.mutations)
    (hclear : NoCollision session steps p s) {now : Time} {outcome : ScanFinishOutcome}
    (h : finishScanSession session now s = .ok (t, outcome)) {r : FileRow} (hr : r ∈ s.files)
    (hown : OwnWrite session steps r) : r ∈ t.files := by
  obtain ⟨t₁, n, hpromote, hfiles⟩ := finish_cases hp h
  have hstart : Sparing session steps p s s :=
    ⟨fun r hr _ => hr, fun r hr _ => hr, fun r hr => .inl hr⟩
  have hspared := hstart.run hwf hclear (fun c hc => hc) hpromote
  -- The second pass looks at the record.
  have hunmarked : markedMissing session p.roots t₁ r = false := by
    obtain ⟨-, path, hpath, hrecorded⟩ := hown
    have hmem : (session, path) ∈ t₁.mutations :=
      promoteMoves_mutations hpromote ▸ hrecord path hrecorded
    have hany : (t₁.mutations.any fun m => m.1 = session ∧ some m.2 = r.path) = true :=
      List.any_eq_true.mpr ⟨_, hmem, by simp [hpath]⟩
    simp only [markedMissing, hany, Bool.not_true, Bool.and_false]
  rw [hfiles]
  exact List.mem_map.mpr ⟨r, hspared.own r hr hown, by rw [hunmarked]; rfl⟩

/-! ### Collisions -/

/-- What the writers of the table leave to a finish: a superseded row has given
up its path, and no transcode outcome refers to a row dated since the start. -/
structure WritesSettled (p : ScanSession) (s : Store) : Prop where
  superseded : ∀ r ∈ s.files, r.supersededBy.isSome = true → r.path = none
  deletable : ∀ r ∈ s.files, p.startedAt ≤ r.createdAt → r.id ∉ s.transcodeOutcomes

/-- Step: a promotion deletes only rows dated since the start. -/
theorem tryPromoteOneMove_ok (session : SessionId) {startedAt : Time}
    (hdel : ∀ r ∈ s.files, startedAt ≤ r.createdAt → r.id ∉ s.transcodeOutcomes)
    (c : MissingCandidate) :
    ∃ t done, tryPromoteOneMove c session startedAt s = .ok (t, done) ∧
      ∀ r ∈ t.files, startedAt ≤ r.createdAt → r.id ∉ t.transcodeOutcomes := by
  unfold tryPromoteOneMove
  cases htarget : promotionTarget c session startedAt s with
  | none => exact ⟨s, false, rfl, hdel⟩
  | some target =>
    obtain ⟨hmem, -, -, hdated, -⟩ := promotionTarget_some htarget
    have hdelete := hdel target hmem hdated
    simp only [Store.deleteFile, Store.deleteTransitions, List.contains_eq_mem, hdelete,
      decide_false, Bool.false_eq_true, false_and, if_false]
    refine ⟨_, true, rfl, ?_⟩
    intro x hx hxdated
    obtain ⟨r, hr, rfl⟩ := Table.mem_modify.mp hx
    have hold := (Table.mem_delete.mp hr).1
    split at hxdated
    · rename_i hk
      rw [if_pos hk]
      exact hdel r hold hxdated
    · rename_i hk
      rw [if_neg hk]
      exact hdel r hold hxdated

theorem promoteMoves_ok (session : SessionId) {startedAt : Time}
    (hdel : ∀ r ∈ s.files, startedAt ≤ r.createdAt → r.id ∉ s.transcodeOutcomes)
    (candidates : List MissingCandidate) :
    ∃ t n, promoteMoves session startedAt candidates s = .ok (t, n) := by
  induction candidates generalizing s with
  | nil => exact ⟨s, 0, rfl⟩
  | cons c candidates ih =>
    obtain ⟨t, done, hstep, hdel'⟩ := tryPromoteOneMove_ok session hdel c
    obtain ⟨t', n, hrest⟩ := ih hdel'
    unfold promoteMoves
    simp only [hstep, hrest]
    exact ⟨t', _, rfl⟩

/-- A candidate that comes first takes the target that comes next. -/
theorem tryPromoteOneMove_first {c : MissingCandidate} {rc r : FileRow} {rest : List FileRow}
    (hfiles : s.files = rc :: r :: rest) (hid : rc.id = c.id) (hne : r.id ≠ rc.id)
    (hunseen : rc.lastSeenSession ≠ some session) (hseen : r.lastSeenSession = some session)
    (hhash : r.contentHash = c.expectedHash) {startedAt : Time} (hdated : startedAt ≤ r.createdAt)
    (hpath : r.path.isSome = true) (hlinks : ∀ old ∈ s.files, old.supersededBy ≠ some r.id) :
    promotionTarget c session startedAt s = some r := by
  have hany : (s.files.any fun old => old.supersededBy = some r.id) = false := by
    simpa using hlinks
  unfold promotionTarget
  conv_lhs => rw [hfiles]
  rw [List.find?_cons_of_neg (by simp [hunseen]), List.find?_cons_of_pos]
  rw [← hfiles]
  simp [hseen, hhash, hdated, hpath, ← hid, hne, hany]

/-- After a promotion the target is gone and the candidate stands at its path. -/
theorem tryPromoteOneMove_rows {c : MissingCandidate} {startedAt : Time} {r : FileRow}
    (htarget : promotionTarget c session startedAt s = some r) {done : Bool}
    (h : tryPromoteOneMove c session startedAt s = .ok (t, done)) :
    ∀ x ∈ t.files, x.id ≠ r.id ∧ (x.id = c.id → x.path = r.path) := by
  unfold tryPromoteOneMove at h
  rw [htarget] at h
  simp only at h
  split at h
  · cases h
  · rename_i t₀ hdelete
    unfold Store.deleteFile at hdelete
    split at hdelete
    · cases hdelete
    · cases hdelete
      cases h
      intro x hx
      obtain ⟨y, hy, rfl⟩ := Table.mem_modify.mp hx
      have hyr := (Table.mem_delete.mp hy).2
      split
      · exact ⟨hyr, fun _ => rfl⟩
      · rename_i hk
        exact ⟨hyr, fun heq => absurd heq hk⟩

/-- Two rows of a table at its front. -/
theorem perm_front {files : List FileRow} {a b : FileRow} (ha : a ∈ files) (hb : b ∈ files)
    (hne : b ≠ a) : ∃ rest, (a :: b :: rest).Perm files := by
  have hb' : b ∈ files.erase a := (List.mem_erase_of_ne hne).mpr hb
  refine ⟨(files.erase a).erase b, ?_⟩
  exact ((List.perm_cons_erase hb').symm.cons a).trans (List.perm_cons_erase ha).symm

/-- With a collision there is an order of the rows in which the target is
deleted and the candidate stands elsewhere. -/
theorem finish_collides (hp : s.session session = some p) (hstatus : p.status = .inProgress)
    (hwf : s.WellFormed) (hsettled : WritesSettled p s) {rc r : FileRow} (hrc : rc ∈ s.files)
    (hcandidate : IsCandidate session p.roots rc) (hr : r ∈ s.files)
    (htarget : IsTarget session p.startedAt s r) (hhash : rc.expectedHash = some r.contentHash) :
    ∃ files, files.Perm s.files ∧ ∃ now t outcome,
      finishScanSession session now { s with files } = .ok (t, outcome) ∧
        (∀ x ∈ t.files, x.id ≠ r.id) ∧ ∀ x ∈ t.files, x.id = rc.id → x.path ≠ rc.path := by
  obtain ⟨hseen, hdated, hpath, hlinks⟩ := htarget
  have hunseen : rc.lastSeenSession ≠ some session := by
    have h := hcandidate.1
    simp only [unseen, decide_eq_true_eq] at h
    exact h.2.2
  have hne : r ≠ rc := fun heq => hunseen (heq ▸ hseen)
  have hids : r.id ≠ rc.id := fun heq => hne (hwf.ids.eq_of_key hr hrc heq)
  have hpaths : r.path ≠ rc.path := fun heq => hne (hwf.paths r hr rc hrc heq hpath)
  obtain ⟨rest, hperm⟩ := perm_front hrc hr hne
  refine ⟨rc :: r :: rest, hperm, ?_⟩
  let s₁ : Store := { s with files := rc :: r :: rest }
  have hwf₁ : s₁.WellFormed := wellFormed_of_perm hwf hperm
  -- The candidate of `rc` is the first one.
  obtain ⟨path, hrcpath⟩ := Option.isSome_iff_exists.mp hcandidate.path_isSome
  let c : MissingCandidate := ⟨rc.id, path, r.contentHash⟩
  let others := moveCandidates session p.roots { s with files := r :: rest }
  have hcandidates : moveCandidates session p.roots s₁ = c :: others := by
    have hselected : (unseen session rc && underRoots p.roots rc) = true := by
      rw [hcandidate.1, hcandidate.2.1]
      rfl
    simp only [s₁, others, c, moveCandidates]
    rw [List.filter_cons_of_pos (by exact hselected), List.filterMap_cons_some]
    rw [hrcpath, hhash]
  have hfirst : promotionTarget c session p.startedAt s₁ = some r := by
    refine tryPromoteOneMove_first rfl rfl hids hunseen hseen rfl hdated hpath ?_
    intro old hold hlink
    have hmem := hperm.mem_iff.mp hold
    exact hlinks old hmem (hsettled.superseded old hmem (by simp [hlink])) hlink
  have hdel : ∀ x ∈ s₁.files, p.startedAt ≤ x.createdAt → x.id ∉ s₁.transcodeOutcomes :=
    fun x hx => hsettled.deletable x (hperm.mem_iff.mp hx)
  obtain ⟨t₁, done, hstep, hdel₁⟩ := tryPromoteOneMove_ok session hdel c
  obtain ⟨t₂, n, hrest⟩ := promoteMoves_ok session hdel₁ others
  have hpromote : ∃ n, promoteMoves session p.startedAt (moveCandidates session p.roots s₁) s₁ =
      .ok (t₂, n) := by
    rw [hcandidates]
    unfold promoteMoves
    simp only [hstep, hrest]
    exact ⟨_, rfl⟩
  obtain ⟨n', hpromote⟩ := hpromote
  have hother : ∀ c' ∈ others, c'.id ≠ rc.id ∧ c'.id ≠ r.id := by
    intro c' hc'
    obtain ⟨x, hx, hxcandidate, hxid, -⟩ := mem_moveCandidates.mp hc'
    have hxne : x ≠ r := by
      rintro rfl
      have h := hxcandidate.1
      simp only [unseen, decide_eq_true_eq] at h
      exact h.2.2 hseen
    rw [← hxid]
    constructor
    · intro heq
      have hnodup := hwf₁.ids
      simp only [Table.Keyed, s₁, List.map_cons, List.nodup_cons] at hnodup
      exact hnodup.1 (heq ▸ List.mem_map_of_mem (f := FileRow.id) hx)
    · intro heq
      exact hxne (hwf₁.ids.eq_of_key (List.mem_cons_of_mem _ hx) (by simp [s₁]) heq)
  -- What the first promotion did to the two rows is not touched again.
  have hkept : ∀ x ∈ t₂.files, x.id = rc.id ∨ x.id = r.id → x ∈ t₁.files := by
    intro x hx hxid
    refine promoteMoves_frame hrest hx fun c' hc' heq => ?_
    rcases hxid with hxid | hxid
    · exact (hother c' hc').1 (heq.symm.trans hxid)
    · exact (hother c' hc').2 (heq.symm.trans hxid)
  have hrows : ∀ x ∈ t₁.files, x.id ≠ r.id ∧ (x.id = rc.id → x.path = r.path) :=
    tryPromoteOneMove_rows hfirst hstep
  refine ⟨0, _, _, finishScanSession_ok 0 hp hstatus hpromote, ?_, ?_⟩
  · intro x hx heq
    obtain ⟨y, hy, rfl⟩ := List.mem_map.mp hx
    have hyid : y.id = r.id := by
      split at heq <;> exact heq
    exact (hrows y (hkept y hy (.inr hyid))).1 hyid
  · intro x hx heq
    obtain ⟨y, hy, rfl⟩ := List.mem_map.mp hx
    have hyid : y.id = rc.id := by
      split at heq <;> exact heq
    have hypath := (hrows y (hkept y hy (.inl hyid))).2 hyid
    split <;> exact hypath ▸ hpaths

/-- A session's finish keeps the rows of VOOM's own writes unless one of them
collides; on a settled store a collision breaks one in some order of the rows. -/
theorem own_writes_survive_finish (s₀ : Store) (steps : List SessionStep)
    (hp : (runSession session steps s₀).session session = some p) (hstatus : p.status = .inProgress)
    (hwf : (runSession session steps s₀).WellFormed) :
    (NoCollision session steps p (runSession session steps s₀) →
      KeepsOwnWrites session steps (runSession session steps s₀)) ∧
    (WritesSettled p (runSession session steps s₀) →
      KeepsOwnWrites session steps (runSession session steps s₀) →
      NoCollision session steps p (runSession session steps s₀)) := by
  constructor
  · intro hclear files hperm now t outcome hfinish r hr hown
    have hp' : ({ runSession session steps s₀ with files } : Store).session session = some p := hp
    refine ⟨r, ?_, rfl, rfl, rfl⟩
    refine finish_spares hp' (wellFormed_of_perm hwf hperm) ?_ (noCollision_of_perm hclear hperm)
      hfinish (hperm.mem_iff.mpr hr) hown
    exact fun path hrecorded => runSession_recorded hrecorded
  · intro hsettled hkeeps c hc hcandidate r hr htarget hhash
    obtain ⟨files, hperm, now, t, outcome, hfinish, hdeleted, hmoved⟩ :=
      finish_collides hp hstatus hwf hsettled hc hcandidate hr htarget hhash
    constructor
    · intro hown
      obtain ⟨r', hr', hid, hpath, -⟩ := hkeeps files hperm now t outcome hfinish c hc hown
      exact hmoved r' hr' hid hpath
    · intro hown
      obtain ⟨r', hr', hid, -, -⟩ := hkeeps files hperm now t outcome hfinish r hr hown
      exact hdeleted r' hr' hid

end Finish

/-! ### A hidden output -/

namespace HiddenOutput

def video : Path := ⟨["m", "film.mkv"]⟩

def openSession : ScanSession := ⟨1, [⟨["m"]⟩], .inProgress, 10, 10⟩

/-- A file VOOM has processed before, not seen by the open session. -/
def row : FileRow :=
  { id := 1, path := some video, size := 5, contentHash := "h", expectedHash := some "h",
    introspectedAt := 1, createdAt := 1 }

def store : Store := { files := [row], sessions := [openSession] }

/-- VOOM overwrites the file, which hides it from the walk, and the walk finds a
file with the given content next to it. -/
def steps (contentHash : Hash) : List SessionStep :=
  [.record ⟨1, video, none, .overwrite, 20⟩,
   .ingest ⟨⟨⟨["m", "copy.mkv"]⟩, 5, contentHash⟩, 30, 2⟩]

def found (contentHash : Hash) : FileRow :=
  { id := 2, path := some ⟨["m", "copy.mkv"]⟩, size := 5, contentHash,
    expectedHash := some contentHash, introspectedAt := 30, createdAt := 30,
    lastSeenSession := some 1 }

theorem row_own (contentHash : Hash) : OwnWrite 1 (steps contentHash) row := by
  refine ⟨rfl, video, rfl, _, List.mem_cons_self, rfl, ?_, by simp [VoomOriginatedMutation.paths]⟩
  exact ⟨by decide, by decide⟩

theorem wellFormed {s : Store} {contentHash : Hash} (hfiles : s.files = [row, found contentHash])
    (hout : s.transcodeOutcomes = []) : s.WellFormed where
  ids := by simp [Table.Keyed, hfiles, row, found]
  paths := by simp [hfiles, row, found, video]
  outcomes := by simp [hout]

end HiddenOutput

/-- The walk found another content: the output keeps its row. -/
theorem output_beside_other_content_kept :
    KeepsOwnWrites 1 (HiddenOutput.steps "k")
      (runSession 1 (HiddenOutput.steps "k") HiddenOutput.store) := by
  have hfiles : (runSession 1 (HiddenOutput.steps "k") HiddenOutput.store).files =
      [HiddenOutput.row, HiddenOutput.found "k"] := by decide
  have hsession : (runSession 1 (HiddenOutput.steps "k") HiddenOutput.store).session 1 =
      some HiddenOutput.openSession := by decide
  refine (own_writes_survive_finish HiddenOutput.store (HiddenOutput.steps "k") hsession rfl
    (HiddenOutput.wellFormed hfiles (by decide))).1 ?_
  intro c hc hcandidate r hr htarget hhash
  rw [hfiles] at hc hr
  simp only [List.mem_cons, List.not_mem_nil, or_false] at hc hr
  rcases hc with rfl | rfl
  · rcases hr with rfl | rfl
    · exact absurd htarget.1 (by decide)
    · exact absurd hhash (by decide)
  · exact absurd hcandidate.1 (by decide)

/-- The walk found a copy of the output: the output's row is taken for moved to it. -/
theorem copied_output_taken_for_moved :
    ¬ KeepsOwnWrites 1 (HiddenOutput.steps "h")
      (runSession 1 (HiddenOutput.steps "h") HiddenOutput.store) := by
  intro h
  have hfinish : (finishScanSession 1 40
      (runSession 1 (HiddenOutput.steps "h") HiddenOutput.store)).map (·.1.files.map (·.path)) =
      .ok [some ⟨["m", "copy.mkv"]⟩] := by decide
  cases hresult : finishScanSession 1 40
      (runSession 1 (HiddenOutput.steps "h") HiddenOutput.store) with
  | error e =>
    rw [hresult] at hfinish
    cases hfinish
  | ok result =>
    have hrow : HiddenOutput.row ∈
        (runSession 1 (HiddenOutput.steps "h") HiddenOutput.store).files := by decide
    obtain ⟨r', hr', -, hpath, -⟩ := h _ (.refl _) 40 result.1 result.2 hresult
      HiddenOutput.row hrow (HiddenOutput.row_own "h")
    rw [hresult] at hfinish
    have hpaths : result.1.files.map (·.path) = [some ⟨["m", "copy.mkv"]⟩] :=
      Except.ok.inj hfinish
    have hmem : r'.path ∈ result.1.files.map (·.path) := List.mem_map_of_mem hr'
    rw [hpaths, hpath] at hmem
    exact absurd hmem (by decide)

end Voom.Storage
