-- SUMMARY: What the ingests of one scan session do to the files table.
import Voom.Storage.Files

/-!
# Scans

A scan begins a session, ingests the discovered files and finishes. While it
ingests, every row the table had before has one of four fates (`Fate`), and
every other row was inserted for a discovered file.
-/

namespace Voom.Storage

open Lib

/-- The constraints of the schema on `files` and on what refers to it. -/
structure Store.WellFormed (s : Store) : Prop where
  ids : Table.Keyed FileRow.id s.files
  paths : ∀ r ∈ s.files, ∀ r' ∈ s.files, r.path = r'.path → r.path.isSome = true → r = r'
  outcomes : ∀ id ∈ s.transcodeOutcomes, ∃ r ∈ s.files, r.id = id

/-- One ingest of a scan, with the identifier and clock reading it draws. -/
structure Ingest where
  file : DiscoveredFile
  now : Time
  newId : Uuid
  deriving DecidableEq, Repr

def Ingest.ctx (i : Ingest) (session : SessionId) : IngestCtx :=
  { now := i.now, session, file := i.file, newId := i.newId }

/-- Ingest the files of a session in order. -/
def ingestAll (session : SessionId) : List Ingest → Store → Except VoomError Store
  | [], s => .ok s
  | i :: rest, s =>
    match ingestDiscoveredFile (i.ctx session) s with
    | .error e => .error e
    | .ok (s, _) => ingestAll session rest s

/-- A scan from its beginning up to its finish: the store that `finish` sees. -/
def scanUpToFinish (roots : List Path) (session : SessionId) (startedAt : Time)
    (ingests : List Ingest) (s : Store) : Except VoomError Store :=
  match beginScanSession roots session startedAt s with
  | .error e => .error e
  | .ok s => ingestAll session ingests s

/-- A whole scan. -/
def runScan (roots : List Path) (session : SessionId) (startedAt finishedAt : Time)
    (ingests : List Ingest) (s : Store) : Except VoomError (Store × ScanFinishOutcome) :=
  match scanUpToFinish roots session startedAt ingests s with
  | .error e => .error e
  | .ok s => finishScanSession session finishedAt s

/-! ## Lookups -/

theorem fileAt_some {s : Store} {p : Path} {r : FileRow} (h : s.fileAt p = some r) :
    r ∈ s.files ∧ r.path = some p := by
  unfold Store.fileAt at h
  exact ⟨List.mem_of_find?_eq_some h, by simpa using List.find?_some h⟩

theorem fileAt_none {s : Store} {p : Path} (h : s.fileAt p = none) :
    ∀ r ∈ s.files, r.path ≠ some p := by
  unfold Store.fileAt at h
  simpa using h

theorem findMoveCandidate_some {s : Store} {session : SessionId} {hash : Hash} {r : FileRow}
    {p : Path} (h : findMoveCandidate s session hash = some (r, p)) :
    r ∈ s.files ∧ r.path = some p ∧ r.expectedHash = some hash ∧ r.status = .missing ∧
      isUnderAny p (((s.session session).map (·.roots)).getD []) = true := by
  unfold findMoveCandidate at h
  obtain ⟨r', hr', h⟩ := List.exists_of_findSome?_eq_some h
  split at h
  · rename_i p' hp'
    split at h
    · rename_i hcond
      cases h
      exact ⟨hr', hp', hcond⟩
    · cases h
  · cases h

/-! ## The fates of rows -/

/-- What becomes of a row that was there before the ingests `done`. -/
inductive Fate (session : SessionId) (roots : List Path) (done : List Ingest) (r : FileRow) :
    FileRow → Prop where
  /-- Its path has not been discovered. -/
  | untouched (hpath : ∀ i ∈ done, r.path ≠ some i.file.path) : Fate session roots done r r
  /-- Its file was found with the expected hash. -/
  | kept (i : Ingest) (hi : i ∈ done) (hpath : r.path = some i.file.path)
      (hhash : r.expectedHash = none ∨ r.expectedHash = some i.file.contentHash) :
      Fate session roots done r
        { r with size := i.file.size, contentHash := i.file.contentHash, status := .active,
                 lastSeenSession := some session, expectedHash := some i.file.contentHash }
  /-- It was missing, and a file with its hash was found elsewhere. -/
  | moved (i : Ingest) (hi : i ∈ done) (p : Path) (hpath : r.path = some p)
      (hroots : isUnderAny p roots = true) (hstatus : r.status = .missing)
      (hhash : r.expectedHash = some i.file.contentHash) :
      Fate session roots done r
        { r with path := some i.file.path, size := i.file.size,
                 contentHash := i.file.contentHash, status := .active,
                 lastSeenSession := some session }
  /-- Another content was found at its path, and a new row took its place. -/
  | superseded (i : Ingest) (hi : i ∈ done) (hpath : r.path = some i.file.path) :
      Fate session roots done r
        { r with path := none, status := .missing, supersededBy := some i.newId }

/-- The row inserted for a discovered file. -/
def newRow (session : SessionId) (i : Ingest) : FileRow :=
  { id := i.newId, path := some i.file.path, size := i.file.size,
    contentHash := i.file.contentHash, expectedHash := some i.file.contentHash, status := .active,
    introspectedAt := i.now, createdAt := i.now, lastSeenSession := some session }

/-- A row that shows a discovered file. -/
structure Shows (session : SessionId) (i : Ingest) (r : FileRow) : Prop where
  path : r.path = some i.file.path
  status : r.status = .active
  contentHash : r.contentHash = i.file.contentHash
  size : r.size = i.file.size
  lastSeen : r.lastSeenSession = some session

namespace Fate

variable {session : SessionId} {roots : List Path} {done : List Ingest} {r r' : FileRow}

theorem id_eq (h : Fate session roots done r r') : r'.id = r.id := by
  cases h <;> rfl

/-- One more ingest does not change a fate, if it is not for the row's path. -/
theorem append (h : Fate session roots done r r') {i : Ingest} (hi : r'.path ≠ some i.file.path) :
    Fate session roots (done ++ [i]) r r' := by
  cases h with
  | untouched hpath =>
    refine .untouched fun j hj => ?_
    rcases List.mem_append.mp hj with hj | hj
    · exact hpath j hj
    · rw [List.mem_singleton] at hj
      subst hj
      exact hi
  | kept j hj hpath hhash => exact .kept j (List.mem_append_left _ hj) hpath hhash
  | moved j hj p hpath hroots hstatus hhash =>
    exact .moved j (List.mem_append_left _ hj) p hpath hroots hstatus hhash
  | superseded j hj hpath => exact .superseded j (List.mem_append_left _ hj) hpath

/-- A row that has kept its path without having been discovered is untouched. -/
theorem eq_of_path (h : Fate session roots done r r') {p : Path} (hp : r'.path = some p)
    (hdone : ∀ i ∈ done, i.file.path ≠ p) : r' = r := by
  cases h with
  | untouched _ => rfl
  | kept i hi hpath _ =>
    rw [hpath] at hp
    exact absurd (Option.some.inj hp) (hdone i hi)
  | moved i hi _ _ _ _ _ => exact absurd (Option.some.inj hp) (hdone i hi)
  | superseded _ _ _ => cases hp

theorem eq_of_missing (h : Fate session roots done r r') (hs : r'.status = .missing)
    (hp : r'.path.isSome = true) : r' = r := by
  cases h with
  | untouched _ => rfl
  | kept _ _ _ _ => cases hs
  | moved _ _ _ _ _ _ _ => cases hs
  | superseded _ _ _ => cases hp

/-- A row seen by the session shows a discovered file. -/
theorem shows (h : Fate session roots done r r') (hfresh : r.lastSeenSession ≠ some session)
    (hseen : r'.lastSeenSession = some session) : ∃ i ∈ done, Shows session i r' := by
  cases h with
  | untouched _ => exact absurd hseen hfresh
  | kept i hi hpath _ => exact ⟨i, hi, hpath, rfl, rfl, rfl, rfl⟩
  | moved i hi _ _ _ _ _ => exact ⟨i, hi, rfl, rfl, rfl, rfl, rfl⟩
  | superseded _ _ _ => exact absurd hseen hfresh

end Fate

theorem newRow_shows (session : SessionId) (i : Ingest) : Shows session i (newRow session i) :=
  ⟨rfl, rfl, rfl, rfl, rfl⟩

/-! ## The table during the ingests -/

/-- The table of `s` after the ingests `done` of a session that began with the
table of `s₀`. -/
structure Scanned (s₀ s : Store) (session : SessionId) (roots : List Path) (done : List Ingest) :
    Prop where
  wf₀ : s₀.WellFormed
  /-- The session is new to the table. -/
  fresh : ∀ r₀ ∈ s₀.files, r₀.lastSeenSession ≠ some session
  wf : s.WellFormed
  rows : ∀ r ∈ s.files, (∃ r₀ ∈ s₀.files, Fate session roots done r₀ r) ∨
    ∃ i ∈ done, r = newRow session i
  olds : ∀ r₀ ∈ s₀.files, ∃ r ∈ s.files, Fate session roots done r₀ r
  found : ∀ i ∈ done, ∃ r ∈ s.files, Shows session i r
  sessions : s.sessions = s₀.sessions
  mutations : s.mutations = s₀.mutations
  outcomes : s.transcodeOutcomes = s₀.transcodeOutcomes

namespace Scanned

variable {s₀ s s' : Store} {session : SessionId} {roots : List Path} {done : List Ingest}
  {i : Ingest}

theorem start (hwf : s₀.WellFormed) (hfresh : ∀ r ∈ s₀.files, r.lastSeenSession ≠ some session) :
    Scanned s₀ s₀ session roots [] where
  wf₀ := hwf
  fresh := hfresh
  wf := hwf
  rows := fun r hr => .inl ⟨r, hr, .untouched (by simp)⟩
  olds := fun r hr => ⟨r, hr, .untouched (by simp)⟩
  found := by simp
  sessions := rfl
  mutations := rfl
  outcomes := rfl

/-- A row standing at a path that has not been discovered was there before. -/
theorem old_of_path (h : Scanned s₀ s session roots done) {r : FileRow} (hr : r ∈ s.files) {p : Path}
    (hp : r.path = some p) (hdone : ∀ i ∈ done, i.file.path ≠ p) : r ∈ s₀.files := by
  rcases h.rows r hr with ⟨r₀, hr₀, hfate⟩ | ⟨i, hi, rfl⟩
  · rw [hfate.eq_of_path hp hdone]
    exact hr₀
  · exact absurd (Option.some.inj hp) (hdone i hi)

/-- A missing row with a path was there before. -/
theorem old_of_missing (h : Scanned s₀ s session roots done) {r : FileRow} (hr : r ∈ s.files)
    (hs : r.status = .missing) (hp : r.path.isSome = true) : r ∈ s₀.files := by
  rcases h.rows r hr with ⟨r₀, hr₀, hfate⟩ | ⟨i, -, rfl⟩
  · rw [hfate.eq_of_missing hs hp]
    exact hr₀
  · cases hs

/-- An ingest that gives one old row its fate, and inserts a row unless that one
shows the file. -/
theorem replace (h : Scanned s₀ s session roots done) {r₀ r' : FileRow} {f : FileRow → FileRow}
    {extra : List FileRow} (hr₀ : r₀ ∈ s₀.files) (hr : r₀ ∈ s.files)
    (halone : ∀ r ∈ s.files, r.path = some i.file.path → r = r₀)
    (hfate : Fate session roots (done ++ [i]) r₀ r') (hf : f r₀ = r')
    (hshow : (Shows session i r' ∧ extra = []) ∨
      (r'.path = none ∧ extra = [newRow session i] ∧ ∀ r ∈ s.files, r.id ≠ i.newId))
    (hfiles : s'.files = Table.modify FileRow.id r₀.id f s.files ++ extra)
    (hsessions : s'.sessions = s.sessions) (hmutations : s'.mutations = s.mutations)
    (houtcomes : s'.transcodeOutcomes = s.transcodeOutcomes) :
    Scanned s₀ s' session roots (done ++ [i]) := by
  have hid : r'.id = r₀.id := hfate.id_eq
  have hmem : ∀ x, x ∈ s'.files ↔ (x ∈ s.files ∧ x.id ≠ r₀.id) ∨ x = r' ∨ x ∈ extra := by
    intro x
    rw [hfiles, List.mem_append, Table.mem_modify]
    constructor
    · rintro (⟨r, hrs, rfl⟩ | hx)
      · split
        · rename_i hk
          have heq : r = r₀ := h.wf.ids.eq_of_key hrs hr hk
          subst heq
          exact .inr (.inl hf)
        · rename_i hk
          exact .inl ⟨hrs, hk⟩
      · exact .inr (.inr hx)
    · rintro (⟨hx, hne⟩ | rfl | hx)
      · exact .inl ⟨x, hx, by rw [if_neg hne]⟩
      · exact .inl ⟨r₀, hr, by rw [if_pos rfl, hf]⟩
      · exact .inr hx
  -- The rows that stay keep away from the path.
  have hstay : ∀ x ∈ s.files, x.id ≠ r₀.id → x.path ≠ some i.file.path :=
    fun x hx hne hp => hne (congrArg FileRow.id (halone x hx hp))
  have hextra : ∀ x ∈ extra, x = newRow session i := by
    rcases hshow with ⟨-, rfl⟩ | ⟨-, rfl, -⟩
    · simp
    · simp
  refine ⟨h.wf₀, h.fresh, ⟨?_, ?_, ?_⟩, ?_, ?_, ?_, hsessions.trans h.sessions, hmutations.trans h.mutations,
    houtcomes.trans h.outcomes⟩
  · have hmod : Table.Keyed FileRow.id (Table.modify FileRow.id r₀.id f s.files) := by
      refine h.wf.ids.modify fun r hrs hk => ?_
      rw [h.wf.ids.eq_of_key hrs hr hk, hf, hid]
    rw [hfiles]
    rcases hshow with ⟨-, rfl⟩ | ⟨-, rfl, hfresh⟩
    · rw [List.append_nil]
      exact hmod
    · refine hmod.append fun x hx => ?_
      rw [Table.mem_modify] at hx
      obtain ⟨r, hrs, rfl⟩ := hx
      split
      · rename_i hk
        rw [h.wf.ids.eq_of_key hrs hr hk, hf, hid]
        exact hfresh r₀ hr
      · exact hfresh r hrs
  · -- No two rows at one path: only the changed or the inserted row stands at the new one.
    intro x hx y hy hpath hsome
    rw [hmem] at hx hy
    rcases hshow with ⟨hshow, rfl⟩ | ⟨hnone, rfl, -⟩
    · simp only [List.not_mem_nil, or_false] at hx hy
      rcases hx with ⟨hx, hxid⟩ | rfl
      · rcases hy with ⟨hy, -⟩ | rfl
        · exact h.wf.paths x hx y hy hpath hsome
        · exact absurd (hpath.trans hshow.path) (hstay x hx hxid)
      · rcases hy with ⟨hy, hyid⟩ | rfl
        · exact absurd (hpath.symm.trans hshow.path) (hstay y hy hyid)
        · rfl
    · simp only [List.mem_singleton] at hx hy
      rcases hx with ⟨hx, hxid⟩ | rfl | rfl
      · rcases hy with ⟨hy, -⟩ | rfl | rfl
        · exact h.wf.paths x hx y hy hpath hsome
        · rw [hpath, hnone] at hsome
          cases hsome
        · exact absurd hpath (hstay x hx hxid)
      · rw [hnone] at hsome
        cases hsome
      · rcases hy with ⟨hy, hyid⟩ | rfl | rfl
        · exact absurd hpath.symm (hstay y hy hyid)
        · rw [hpath, hnone] at hsome
          cases hsome
        · rfl
  · intro id hid'
    rw [houtcomes] at hid'
    obtain ⟨x, hx, rfl⟩ := h.wf.outcomes id hid'
    by_cases hk : x.id = r₀.id
    · exact ⟨r', (hmem r').mpr (.inr (.inl rfl)), hid.trans hk.symm⟩
    · exact ⟨x, (hmem x).mpr (.inl ⟨hx, hk⟩), rfl⟩
  · intro x hx
    rw [hmem] at hx
    rcases hx with ⟨hx, hne⟩ | rfl | hx
    · rcases h.rows x hx with ⟨x₀, hx₀, hx₀fate⟩ | ⟨j, hj, rfl⟩
      · exact .inl ⟨x₀, hx₀, hx₀fate.append (hstay x hx hne)⟩
      · exact .inr ⟨j, List.mem_append_left _ hj, rfl⟩
    · exact .inl ⟨r₀, hr₀, hfate⟩
    · exact .inr ⟨i, by simp, hextra x hx⟩
  · intro x₀ hx₀
    obtain ⟨x, hx, hx₀fate⟩ := h.olds x₀ hx₀
    by_cases hk : x.id = r₀.id
    · have heq : x = r₀ := h.wf.ids.eq_of_key hx hr hk
      subst heq
      -- The row whose fate is decided is the one from before.
      have hx₀ : x₀ = x := h.wf₀.ids.eq_of_key hx₀ hr₀ hx₀fate.id_eq.symm
      subst hx₀
      exact ⟨r', (hmem r').mpr (.inr (.inl rfl)), hfate⟩
    · exact ⟨x, (hmem x).mpr (.inl ⟨hx, hk⟩), hx₀fate.append (hstay x hx hk)⟩
  · intro j hj
    rcases List.mem_append.mp hj with hj | hj
    · obtain ⟨x, hx, hxshow⟩ := h.found j hj
      by_cases hk : x.id = r₀.id
      · have heq : x = r₀ := h.wf.ids.eq_of_key hx hr hk
        subst heq
        exact absurd hxshow.lastSeen (h.fresh x hr₀)
      · exact ⟨x, (hmem x).mpr (.inl ⟨hx, hk⟩), hxshow⟩
    · rw [List.mem_singleton] at hj
      subst hj
      rcases hshow with ⟨hshow, -⟩ | ⟨-, rfl, -⟩
      · exact ⟨r', (hmem r').mpr (.inr (.inl rfl)), hshow⟩
      · exact ⟨newRow session j, (hmem _).mpr (.inr (.inr (by simp))), newRow_shows session j⟩

/-- An ingest that only inserts a row. -/
theorem insert (h : Scanned s₀ s session roots done) (hfree : ∀ r ∈ s.files, r.path ≠ some i.file.path)
    (hid : ∀ r ∈ s.files, r.id ≠ i.newId) (hfiles : s'.files = s.files ++ [newRow session i])
    (hsessions : s'.sessions = s.sessions) (hmutations : s'.mutations = s.mutations)
    (houtcomes : s'.transcodeOutcomes = s.transcodeOutcomes) :
    Scanned s₀ s' session roots (done ++ [i]) := by
  have hmem : ∀ x, x ∈ s'.files ↔ x ∈ s.files ∨ x = newRow session i := by
    intro x
    rw [hfiles, List.mem_append, List.mem_singleton]
  refine ⟨h.wf₀, h.fresh, ⟨?_, ?_, ?_⟩, ?_, ?_, ?_, hsessions.trans h.sessions,
    hmutations.trans h.mutations, houtcomes.trans h.outcomes⟩
  · rw [hfiles]
    exact h.wf.ids.append hid
  · intro x hx y hy hpath hsome
    rw [hmem] at hx hy
    rcases hx with hx | rfl
    · rcases hy with hy | rfl
      · exact h.wf.paths x hx y hy hpath hsome
      · exact absurd hpath (hfree x hx)
    · rcases hy with hy | rfl
      · exact absurd hpath.symm (hfree y hy)
      · rfl
  · intro id hid'
    rw [houtcomes] at hid'
    obtain ⟨x, hx, rfl⟩ := h.wf.outcomes id hid'
    exact ⟨x, (hmem x).mpr (.inl hx), rfl⟩
  · intro x hx
    rw [hmem] at hx
    rcases hx with hx | rfl
    · rcases h.rows x hx with ⟨x₀, hx₀, hfate⟩ | ⟨j, hj, rfl⟩
      · exact .inl ⟨x₀, hx₀, hfate.append (hfree x hx)⟩
      · exact .inr ⟨j, List.mem_append_left _ hj, rfl⟩
    · exact .inr ⟨i, by simp, rfl⟩
  · intro x₀ hx₀
    obtain ⟨x, hx, hfate⟩ := h.olds x₀ hx₀
    exact ⟨x, (hmem x).mpr (.inl hx), hfate.append (hfree x hx)⟩
  · intro j hj
    rcases List.mem_append.mp hj with hj | hj
    · obtain ⟨x, hx, hshow⟩ := h.found j hj
      exact ⟨x, (hmem x).mpr (.inl hx), hshow⟩
    · rw [List.mem_singleton] at hj
      subst hj
      exact ⟨newRow session j, (hmem _).mpr (.inr rfl), newRow_shows session j⟩

end Scanned

/-! ## Ingests -/

/-- What the session tables must say for a scan with completed predecessors. -/
structure Predecessors (s : Store) (session : SessionId) (roots : List Path) (startedAt : Time) :
    Prop where
  current : ∃ heartbeat, s.session session = some ⟨session, roots, .inProgress, startedAt, heartbeat⟩
  completed : ∀ r ∈ s.files, priorSessionNeedsRecovery s r.lastSeenSession = false

theorem priorSessionNeedsRecovery_congr {s s' : Store} (h : s'.sessions = s.sessions)
    (prior : Option SessionId) :
    priorSessionNeedsRecovery s' prior = priorSessionNeedsRecovery s prior := by
  cases prior with
  | none => rfl
  | some prior =>
    unfold priorSessionNeedsRecovery Store.session
    rw [h]

/-- Step: an ingest of a file whose path is new to the session. -/
theorem Scanned.ingest {s₀ s : Store} {session : SessionId} {roots : List Path} {done : List Ingest}
    {startedAt : Time} (h : Scanned s₀ s session roots done)
    (hpre : Predecessors s₀ session roots startedAt) {i : Ingest}
    (hpath : ∀ j ∈ done, j.file.path ≠ i.file.path) (hid : ∀ r ∈ s.files, r.id ≠ i.newId) :
    ∃ s' decision, ingestDiscoveredFile (i.ctx session) s = .ok (s', decision) ∧
      Scanned s₀ s' session roots (done ++ [i]) := by
  obtain ⟨heartbeat, hcurrent⟩ := hpre.current
  have hsession : s.session session = some ⟨session, roots, .inProgress, startedAt, heartbeat⟩ := by
    rw [← hcurrent]
    simp only [Store.session, h.sessions]
  have hvalid : validateSessionInProgress s session = .ok () := by
    simp [validateSessionInProgress, hsession]
  cases hat : s.fileAt i.file.path with
  | none =>
    have hfree := fileAt_none hat
    have hingest : ingestDiscoveredFile (i.ctx session) s = .ok (ingestNoRow (i.ctx session) s) := by
      simp [ingestDiscoveredFile, Ingest.ctx, hvalid, hat]
    rw [hingest]
    refine ⟨_, _, rfl, ?_⟩
    cases hmove : findMoveCandidate s session i.file.contentHash with
    | some candidate =>
      obtain ⟨missing, prior⟩ := candidate
      obtain ⟨hmem, hprior, hhash, hstatus, hroots⟩ := findMoveCandidate_some hmove
      have hold := h.old_of_missing hmem hstatus (by simp [hprior])
      rw [hsession] at hroots
      simp only [Ingest.ctx, hmove]
      exact h.replace (f := fun r =>
          { r with path := some i.file.path, size := i.file.size,
                   contentHash := i.file.contentHash, status := .active,
                   lastSeenSession := some session })
        hold hmem (fun r hr hp => absurd hp (hfree r hr))
        (.moved i (by simp) prior hprior hroots hstatus hhash) rfl
        (.inl ⟨⟨rfl, rfl, rfl, rfl, rfl⟩, rfl⟩) (List.append_nil _).symm rfl rfl rfl
    | none =>
      simp only [Ingest.ctx, hmove]
      exact h.insert hfree hid rfl rfl rfl rfl
  | some existing =>
    obtain ⟨hmem, hexisting⟩ := fileAt_some hat
    have hold := h.old_of_path hmem hexisting hpath
    have halone : ∀ r ∈ s.files, r.path = some i.file.path → r = existing := fun r hr hp =>
      h.wf.paths r hr existing hmem (hp.trans hexisting.symm) (by simp [hp])
    have hlast : existing.lastSeenSession ≠ some session := h.fresh existing hold
    have hrecovery : priorSessionNeedsRecovery s existing.lastSeenSession = false := by
      rw [priorSessionNeedsRecovery_congr h.sessions]
      exact hpre.completed existing hold
    by_cases hhash : existing.expectedHash = none ∨
        existing.expectedHash = some i.file.contentHash
    · have hingest : ingestDiscoveredFile (i.ctx session) s =
          .ok (ingestUnchanged (i.ctx session) existing s, .unchanged existing.id) := by
        simp [ingestDiscoveredFile, Ingest.ctx, hvalid, hat, hlast, hrecovery, hhash]
      rw [hingest]
      refine ⟨_, _, rfl, ?_⟩
      have hrow : ({ existing with
          size := i.file.size, contentHash := i.file.contentHash, status := .active
          lastSeenSession := some session
          expectedHash := if existing.expectedHash.isNone then some i.file.contentHash
            else existing.expectedHash } : FileRow) =
          { existing with
            size := i.file.size, contentHash := i.file.contentHash, status := .active
            lastSeenSession := some session, expectedHash := some i.file.contentHash } := by
        rcases hhash with hhash | hhash <;> simp [hhash]
      exact h.replace hold hmem halone (.kept i (by simp) hexisting hhash) hrow
        (.inl ⟨⟨hexisting, rfl, rfl, rfl, rfl⟩, rfl⟩) (List.append_nil _).symm rfl rfl rfl
    · have hingest : ingestDiscoveredFile (i.ctx session) s =
          .ok (ingestExternallyChanged (i.ctx session) existing s,
            .externallyChanged i.newId existing.id) := by
        simp [ingestDiscoveredFile, Ingest.ctx, hvalid, hat, hlast, hrecovery, hhash]
      rw [hingest]
      refine ⟨_, _, rfl, ?_⟩
      exact h.replace hold hmem halone (.superseded i (by simp) hexisting) rfl
        (.inr ⟨rfl, rfl, hid⟩) rfl rfl rfl rfl

/-- Run: all the ingests of a scan. -/
theorem Scanned.ingestAll {s₀ s : Store} {session : SessionId} {roots : List Path}
    {startedAt : Time} (hpre : Predecessors s₀ session roots startedAt) {done rest : List Ingest}
    (h : Scanned s₀ s session roots done)
    (hpaths : ((done ++ rest).map (·.file.path)).Nodup)
    (hids : ((done ++ rest).map (·.newId)).Nodup)
    (hfresh : ∀ i ∈ done ++ rest, ∀ r ∈ s₀.files, r.id ≠ i.newId) :
    ∃ s', Voom.Storage.ingestAll session rest s = .ok s' ∧
      Scanned s₀ s' session roots (done ++ rest) := by
  induction rest generalizing done s with
  | nil => exact ⟨s, rfl, by simpa using h⟩
  | cons i rest ih =>
    have hpath : ∀ j ∈ done, j.file.path ≠ i.file.path := by
      intro j hj heq
      rw [List.map_append, List.map_cons] at hpaths
      exact (List.nodup_append.mp hpaths).2.2 _ (List.mem_map.mpr ⟨j, hj, rfl⟩) _
        List.mem_cons_self heq
    have hid : ∀ r ∈ s.files, r.id ≠ i.newId := by
      intro r hr heq
      rcases h.rows r hr with ⟨r₀, hr₀, hfate⟩ | ⟨j, hj, rfl⟩
      · exact hfresh i (by simp) r₀ hr₀ (hfate.id_eq.symm.trans heq)
      · rw [List.map_append, List.map_cons] at hids
        exact (List.nodup_append.mp hids).2.2 _ (List.mem_map.mpr ⟨j, hj, rfl⟩) _
          List.mem_cons_self heq
    obtain ⟨s', decision, hstep, hscanned⟩ := h.ingest hpre hpath hid
    rw [List.append_cons] at hpaths hids hfresh
    obtain ⟨s'', hrun, hscanned⟩ := ih hscanned hpaths hids hfresh
    refine ⟨s'', ?_, List.append_cons _ _ _ ▸ hscanned⟩
    rw [Voom.Storage.ingestAll, hstep]
    exact hrun

end Voom.Storage
