-- SUMMARY: The writers of the files table: what rows each one leaves, and that all keep the constraints.
import Voom.Storage.Ingest

/-!
# Writers

The rows an operation leaves, in terms of the rows it found: ingests, the finish
of a session, upserts and post-execution records. An invariant of rows is
preserved by an operation if these forms preserve it.
-/

namespace Voom.Storage

open Lib

/-! ## Ingests -/

/-- A row after an ingest with the given decision. Pointers to recovered stubs
may have been cleared. -/
inductive IngestedRow (ctx : IngestCtx) (s : Store) (decision : IngestDecision) : FileRow → Prop where
  | kept (r : FileRow) (hr : r ∈ s.files) (link : Option Uuid) :
      IngestedRow ctx s decision { r with supersededBy := link }
  | inserted (hdecision : decision = .new ctx.newId true ∨
        ∃ old, decision = .externallyChanged ctx.newId old) :
      IngestedRow ctx s decision
        { id := ctx.newId, path := some ctx.file.path, size := ctx.file.size,
          contentHash := ctx.file.contentHash, expectedHash := some ctx.file.contentHash,
          status := .active, introspectedAt := ctx.now, createdAt := ctx.now,
          lastSeenSession := some ctx.session }
  | unchanged (e : FileRow) (hdecision : decision = .unchanged e.id)
      (hat : s.fileAt ctx.file.path = some e)
      (hhash : e.expectedHash = none ∨ e.expectedHash = some ctx.file.contentHash) :
      IngestedRow ctx s decision
        { e with size := ctx.file.size, contentHash := ctx.file.contentHash, status := .active,
                 lastSeenSession := some ctx.session, expectedHash := some ctx.file.contentHash }
  | moved (m : FileRow) (p : Path) (hdecision : decision = .moved m.id p) (hm : m ∈ s.files)
      (hhash : m.expectedHash = some ctx.file.contentHash) (link : Option Uuid) :
      IngestedRow ctx s decision
        { m with path := some ctx.file.path, size := ctx.file.size,
                 contentHash := ctx.file.contentHash, status := .active,
                 lastSeenSession := some ctx.session, supersededBy := link }
  | superseded (e : FileRow) (hat : s.fileAt ctx.file.path = some e) :
      IngestedRow ctx s decision
        { e with path := none, status := .missing, supersededBy := some ctx.newId }

/-- The rows of a vacated table are old ones, with links cleared. -/
theorem Vacated.link {ctx : IngestCtx} {s base : Store} (h : Vacated ctx s base) {r : FileRow}
    (hr : r ∈ base.files) : ∃ r₀ ∈ s.files, ∃ link, r = { r₀ with supersededBy := link } := by
  cases h with
  | free _ => exact ⟨r, hr, r.supersededBy, rfl⟩
  | recovered e hat hlast hout =>
    obtain ⟨r₀, hr₀, -, rfl⟩ := mem_strip.mp hr
    unfold clearLink
    split
    · exact ⟨r₀, hr₀, none, rfl⟩
    · exact ⟨r₀, hr₀, r₀.supersededBy, rfl⟩

/-- Every row after an ingest has one of the forms. -/
theorem ingest_row {ctx : IngestCtx} {s s' : Store} {decision : IngestDecision}
    (hwf : s.WellFormed) (h : ingestDiscoveredFile ctx s = .ok (s', decision)) {r' : FileRow}
    (hr' : r' ∈ s'.files) : IngestedRow ctx s decision r' := by
  rcases ingest_cases h with ⟨rfl, -⟩ | ⟨base, hbase, rfl, hdec⟩ |
    ⟨e, hat, -, -, ⟨rfl, hdec, hhash⟩ | ⟨rfl, hdec⟩⟩
  · exact .kept r' hr' r'.supersededBy
  · rcases ingestNoRow_cases ctx base with ⟨m, p, hmove, heq⟩ | ⟨-, heq⟩
    · rw [heq] at hr' hdec
      obtain ⟨hm, -, hexp, -⟩ := findMoveCandidate_some hmove
      obtain ⟨x, hx, rfl⟩ := Table.mem_modify.mp hr'
      obtain ⟨x₀, hx₀, link, rfl⟩ := hbase.link hx
      split
      · rename_i hk
        have hmx := (hbase.wellFormed hwf).ids.eq_of_key hx hm hk
        have hexp' : x₀.expectedHash = some ctx.file.contentHash := by
          rw [← hmx] at hexp
          exact hexp
        exact .moved x₀ p (by rw [hdec, ← hmx]) hx₀ hexp' link
      · exact .kept x₀ hx₀ link
    · rw [heq] at hr' hdec
      rcases List.mem_append.mp hr' with hr' | hr'
      · obtain ⟨x₀, hx₀, link, rfl⟩ := hbase.link hr'
        exact .kept x₀ hx₀ link
      · rw [List.mem_singleton] at hr'
        subst hr'
        exact .inserted (.inl hdec)
  · obtain ⟨x, hx, rfl⟩ := Table.mem_modify.mp hr'
    split
    · rename_i hk
      have hxe : x = e := hwf.ids.eq_of_key hx (fileAt_some hat).1 hk
      subst hxe
      have hrow : (if x.expectedHash.isNone then some ctx.file.contentHash else x.expectedHash) =
          some ctx.file.contentHash := by
        rcases hhash with hhash | hhash <;> simp [hhash]
      rw [hrow]
      exact .unchanged x hdec hat hhash
    · exact .kept x hx x.supersededBy
  · rcases List.mem_append.mp hr' with hr' | hr'
    · obtain ⟨x, hx, rfl⟩ := Table.mem_modify.mp hr'
      split
      · rename_i hk
        have hxe : x = e := hwf.ids.eq_of_key hx (fileAt_some hat).1 hk
        subst hxe
        exact .superseded x hat
      · have hold : x ∈ s.files := hx
        exact .kept x hold x.supersededBy
    · rw [List.mem_singleton] at hr'
      subst hr'
      exact .inserted (.inr ⟨e.id, hdec⟩)

/-! ## Finishing a session -/

/-- A row in the middle of the promotions of a finish that began on `s`. A
promoted row stands in for a row that the session had seen with its hash. -/
inductive PromotedRow (session : SessionId) (s : Store) : FileRow → Prop where
  | kept (r : FileRow) (hr : r ∈ s.files) : PromotedRow session s r
  | promoted (c target : FileRow) (hash : Hash) (hc : c ∈ s.files)
      (hunseen : c.lastSeenSession ≠ some session) (hexpected : c.expectedHash = some hash)
      (htarget : target ∈ s.files) (hseen : target.lastSeenSession = some session)
      (hhash : target.contentHash = hash) :
      PromotedRow session s
        { c with path := target.path, size := target.size, contentHash := hash, status := .active,
                 lastSeenSession := some session }

section Promotions

variable {session : SessionId} {startedAt : Time} {s t t' : Store} {c : MissingCandidate}

/-- What a candidate says about the store it was selected from. -/
def CandidateOf (session : SessionId) (s : Store) (c : MissingCandidate) : Prop :=
  ∃ r ∈ s.files, r.id = c.id ∧ r.lastSeenSession ≠ some session ∧
    r.expectedHash = some c.expectedHash

theorem moveCandidates_of {roots : List Path} (hc : c ∈ moveCandidates session roots s) :
    CandidateOf session s c := by
  simp only [moveCandidates, List.mem_filterMap, List.mem_filter, Bool.and_eq_true] at hc
  obtain ⟨r, ⟨hr, hunseen, -⟩, hc⟩ := hc
  simp only [unseen, decide_eq_true_eq] at hunseen
  split at hc
  · rename_i p h hp hh
    cases hc
    exact ⟨r, hr, rfl, hunseen.2.2, hh⟩
  · cases hc

/-- What one promotion leaves. -/
theorem tryPromoteOneMove_cases {done : Bool}
    (h : tryPromoteOneMove c session startedAt t = .ok (t', done)) :
    t' = t ∨ ∃ target ∈ t.files, target.lastSeenSession = some session ∧
      target.contentHash = c.expectedHash ∧ target.id ≠ c.id ∧ target.id ∉ t.transcodeOutcomes ∧
      t'.files = Table.modify FileRow.id c.id (fun r =>
        { r with path := target.path, size := target.size, contentHash := c.expectedHash,
                 status := .active, lastSeenSession := some session })
        (Table.delete FileRow.id target.id t.files) ∧
      t'.transcodeOutcomes = t.transcodeOutcomes := by
  unfold tryPromoteOneMove at h
  split at h
  · cases h
    exact .inl rfl
  · rename_i target htarget
    unfold promotionTarget at htarget
    have hmem := List.mem_of_find?_eq_some htarget
    have hp := List.find?_some htarget
    simp only [decide_eq_true_eq] at hp
    split at h
    · cases h
    · rename_i t₁ hdelete
      unfold Store.deleteFile at hdelete
      split at hdelete
      · cases hdelete
      · rename_i hout
        cases hdelete
        cases h
        refine .inr ⟨target, hmem, hp.1, hp.2.1, hp.2.2.2.2.1, ?_, rfl, rfl⟩
        intro hcontains
        refine hout ⟨by simpa [Store.deleteTransitions] using hcontains, ?_⟩
        simpa [Store.deleteTransitions] using ⟨target, hmem, rfl⟩

/-- Step: a promotion keeps the forms of the rows. -/
theorem tryPromoteOneMove_row (hwf : s.WellFormed) (hc : CandidateOf session s c)
    (hrows : ∀ r ∈ t.files, PromotedRow session s r) {done : Bool}
    (h : tryPromoteOneMove c session startedAt t = .ok (t', done)) :
    ∀ r ∈ t'.files, PromotedRow session s r := by
  rcases tryPromoteOneMove_cases h with rfl | ⟨target, htarget, hseen, hhash, -, -, hfiles, -⟩
  · exact hrows
  · intro x hx
    rw [hfiles] at hx
    obtain ⟨r, hr, rfl⟩ := Table.mem_modify.mp hx
    have hr' := (Table.mem_delete.mp hr).1
    split
    · rename_i hid
      obtain ⟨rc, hrc, hrcid, hunseen, hexpected⟩ := hc
      -- The target stands for a row the session had seen when `finish` began.
      obtain ⟨t₀, ht₀, hseen₀, hhash₀, hpath₀, hsize₀⟩ : ∃ t₀ ∈ s.files,
          t₀.lastSeenSession = some session ∧ t₀.contentHash = c.expectedHash ∧
          target.path = t₀.path ∧ target.size = t₀.size := by
        have hform := hrows target htarget
        cases hform with
        | kept _ ht => exact ⟨target, ht, hseen, hhash, rfl, rfl⟩
        | promoted c₀ t₀ h₀ _ _ _ ht₀ hseen₀ hhash₀ =>
          exact ⟨t₀, ht₀, hseen₀, hhash₀.trans hhash, rfl, rfl⟩
      have hform := hrows r hr'
      rw [hpath₀, hsize₀]
      cases hform with
      | kept _ hrs =>
        have hrr : r = rc := hwf.ids.eq_of_key hrs hrc (hid.trans hrcid.symm)
        subst hrr
        exact .promoted r t₀ _ hrs hunseen hexpected ht₀ hseen₀ hhash₀
      | promoted c₀ _ h₀ hc₀ hunseen₀ hexpected₀ _ _ _ =>
        have hcc : c₀ = rc := hwf.ids.eq_of_key hc₀ hrc (hid.trans hrcid.symm)
        subst hcc
        exact .promoted c₀ t₀ _ hc₀ hunseen hexpected ht₀ hseen₀ hhash₀
    · exact hrows r hr'

/-- Run: all promotions. -/
theorem promoteMoves_row (hwf : s.WellFormed) {candidates : List MissingCandidate}
    (hc : ∀ c ∈ candidates, CandidateOf session s c)
    (hrows : ∀ r ∈ t.files, PromotedRow session s r) {n : Nat}
    (h : promoteMoves session startedAt candidates t = .ok (t', n)) :
    ∀ r ∈ t'.files, PromotedRow session s r := by
  induction candidates generalizing t n with
  | nil =>
    cases h
    exact hrows
  | cons c candidates ih =>
    unfold promoteMoves at h
    split at h
    · cases h
    · rename_i t₁ done hstep
      split at h
      · cases h
      · rename_i t₂ n₂ hrest
        cases h
        exact ih (fun c' hc' => hc c' (List.mem_cons_of_mem _ hc'))
          (tryPromoteOneMove_row hwf (hc c List.mem_cons_self) hrows hstep) hrest

/-- Every row after a finish: one of the forms, apart from the status. -/
theorem finish_row (hwf : s.WellFormed) {now : Time} {outcome : ScanFinishOutcome}
    (h : finishScanSession session now s = .ok (t', outcome)) {r' : FileRow} (hr' : r' ∈ t'.files) :
    ∃ r status, PromotedRow session s r ∧ r' = { r with status } := by
  unfold finishScanSession at h
  split at h
  · cases h
  · rename_i p hp
    split at h
    · cases h
    · split at h
      · cases h
      · rename_i t₁ n hpromote
        cases h
        have hrows := promoteMoves_row hwf (fun c hc => moveCandidates_of hc)
          (fun r hr => PromotedRow.kept r hr) hpromote
        obtain ⟨r, hr, rfl⟩ := List.mem_map.mp hr'
        split
        · exact ⟨r, .missing, hrows r hr, rfl⟩
        · exact ⟨r, r.status, hrows r hr, rfl⟩

end Promotions

/-! ## Constraints -/

section Constraints

variable {s t t' : Store}

/-- Changing the row of an id keeps the constraints, if its new path is its own. -/
theorem modify_wellFormed (hwf : s.WellFormed) {id : Uuid} {f : FileRow → FileRow}
    (hid : ∀ r, (f r).id = r.id)
    (hpath : ∀ e ∈ s.files, e.id = id → ∀ r ∈ s.files, r ≠ e → r.path = (f e).path → r.path = none) :
    (s.modifyFile id f).WellFormed := by
  by_cases hex : ∃ e ∈ s.files, e.id = id
  · obtain ⟨e, he, rfl⟩ := hex
    exact modifyFile_wellFormed hwf he hid (hpath e he rfl)
  · have hsame : Table.modify FileRow.id id f s.files = s.files := by
      unfold Table.modify
      conv_rhs => rw [← List.map_id s.files]
      refine List.map_congr_left fun r hr => ?_
      rw [if_neg fun hr' => hex ⟨r, hr, hr'⟩]
      rfl
    refine ⟨?_, ?_, ?_⟩
    · simpa only [Store.modifyFile, hsame] using hwf.ids
    · simpa only [Store.modifyFile, hsame] using hwf.paths
    · simpa only [Store.modifyFile, hsame] using hwf.outcomes

theorem delete_wellFormed (hwf : s.WellFormed) {id : Uuid} (hout : id ∉ s.transcodeOutcomes) :
    ({ s with files := Table.delete FileRow.id id s.files } : Store).WellFormed where
  ids := hwf.ids.delete
  paths := fun x hx y hy =>
    hwf.paths x (Table.mem_delete.mp hx).1 y (Table.mem_delete.mp hy).1
  outcomes := by
    intro oid hoid
    obtain ⟨r, hr, rfl⟩ := hwf.outcomes oid hoid
    exact ⟨r, Table.mem_delete.mpr ⟨hr, fun h => hout (h ▸ hoid)⟩, rfl⟩

/-- The constraints are about the rows and the outcomes only. -/
theorem wellFormed_congr (hwf : s.WellFormed) (hfiles : t.files = s.files)
    (hout : t.transcodeOutcomes = s.transcodeOutcomes) : t.WellFormed where
  ids := hfiles ▸ hwf.ids
  paths := hfiles ▸ hwf.paths
  outcomes := by
    rw [hfiles, hout]
    exact hwf.outcomes

theorem tryPromoteOneMove_wellFormed (hwf : t.WellFormed) {c : MissingCandidate}
    {session : SessionId} {startedAt : Time} {done : Bool}
    (h : tryPromoteOneMove c session startedAt t = .ok (t', done)) : t'.WellFormed := by
  rcases tryPromoteOneMove_cases h with rfl | ⟨target, htarget, -, -, -, hout, hfiles, houtcomes⟩
  · exact hwf
  · have hdeleted := delete_wellFormed hwf hout
    refine wellFormed_congr (modify_wellFormed hdeleted ?_ ?_) hfiles houtcomes
    · exact fun _ => rfl
    intro e he _ r hr hne hp
    -- Only the deleted target stood at its path.
    cases hrp : r.path with
    | none => rfl
    | some p =>
      obtain ⟨hr, hrid⟩ := Table.mem_delete.mp hr
      have heq := hwf.paths r hr target htarget hp (by simp [hrp])
      exact absurd (congrArg FileRow.id heq) hrid

theorem promoteMoves_wellFormed (hwf : t.WellFormed) {candidates : List MissingCandidate}
    {session : SessionId} {startedAt : Time} {n : Nat}
    (h : promoteMoves session startedAt candidates t = .ok (t', n)) : t'.WellFormed := by
  induction candidates generalizing t n with
  | nil =>
    cases h
    exact hwf
  | cons c candidates ih =>
    unfold promoteMoves at h
    split at h
    · cases h
    · rename_i t₁ done hstep
      split at h
      · cases h
      · rename_i t₂ n₂ hrest
        cases h
        exact ih (tryPromoteOneMove_wellFormed hwf hstep) hrest

theorem finish_wellFormed (hwf : s.WellFormed) {session : SessionId} {now : Time}
    {outcome : ScanFinishOutcome} (h : finishScanSession session now s = .ok (t', outcome)) :
    t'.WellFormed := by
  unfold finishScanSession at h
  split at h
  · cases h
  · split at h
    · cases h
    · split at h
      · cases h
      · rename_i t₁ n hpromote
        cases h
        have hwf₁ := promoteMoves_wellFormed hwf hpromote
        have hpaths : ∀ r : FileRow, ∀ b : Bool,
            (if b then { r with status := .missing } else r : FileRow).path = r.path := by
          intro r b
          cases b <;> rfl
        have hids : ∀ r : FileRow, ∀ b : Bool,
            (if b then { r with status := .missing } else r : FileRow).id = r.id := by
          intro r b
          cases b <;> rfl
        refine ⟨?_, ?_, ?_⟩
        · unfold Table.Keyed
          simp only [List.map_map, Function.comp_def, hids]
          exact hwf₁.ids
        · intro x hx y hy hp hsome
          obtain ⟨r, hr, rfl⟩ := List.mem_map.mp hx
          obtain ⟨r', hr', rfl⟩ := List.mem_map.mp hy
          rw [hpaths, hpaths] at hp
          rw [hpaths] at hsome
          rw [hwf₁.paths r hr r' hr' hp hsome]
        · intro id hid
          obtain ⟨r, hr, rfl⟩ := hwf₁.outcomes id hid
          exact ⟨_, List.mem_map.mpr ⟨r, hr, rfl⟩, hids _ _⟩

end Constraints

/-! ## Upserts and records -/

section Upserts

variable {s s' : Store}

/-- Every row after an upsert: the one at the path, with the new data, or an old one. -/
theorem upsert_row (hwf : s.WellFormed) {file : MediaFile} {now : Time}
    (h : upsertFile file now s = .ok s') {r' : FileRow} (hr' : r' ∈ s'.files) :
    r' ∈ s.files ∨
      (∃ r, s.fileAt file.path = some r ∧ r' = { r with
        size := file.size, contentHash := file.contentHash.getD "", status := file.status,
        tracks := file.tracks, introspectedAt := file.introspectedAt }) ∨
      r' = { id := file.id, path := some file.path, size := file.size,
             contentHash := file.contentHash.getD "", status := file.status, tracks := file.tracks,
             introspectedAt := file.introspectedAt, createdAt := now } := by
  unfold upsertFile at h
  split at h
  · cases h
  split at h
  · rename_i e hat
    cases h
    obtain ⟨x, hx, rfl⟩ := Table.mem_modify.mp hr'
    split
    · rename_i hk
      have hxe : x = e := hwf.ids.eq_of_key hx (fileAt_some hat).1 hk
      subst hxe
      exact .inr (.inl ⟨x, hat, rfl⟩)
    · exact .inl hx
  · split at h
    · cases h
    · cases h
      rcases List.mem_append.mp hr' with hr' | hr'
      · exact .inl hr'
      · rw [List.mem_singleton] at hr'
        exact .inr (.inr hr')

theorem upsert_wellFormed (hwf : s.WellFormed) {file : MediaFile} {now : Time}
    (h : upsertFile file now s = .ok s') : s'.WellFormed := by
  unfold upsertFile at h
  split at h
  · cases h
  split at h
  · rename_i e hat
    cases h
    obtain ⟨he, hep⟩ := fileAt_some hat
    refine modifyFile_wellFormed hwf he (fun _ => rfl) fun r hr hne hp => ?_
    cases hrp : r.path with
    | none => rfl
    | some p => exact absurd (hwf.paths r hr e he hp (by simp [hrp])) hne
  · rename_i hat
    split at h
    · cases h
    · rename_i hid
      cases h
      have hfree := fileAt_none hat
      have hid' : ∀ r ∈ s.files, r.id ≠ file.id := by simpa using hid
      refine ⟨hwf.ids.append hid', ?_, ?_⟩
      · intro x hx y hy hp hsome
        simp only [List.mem_append, List.mem_singleton] at hx hy
        rcases hx with hx | rfl
        · rcases hy with hy | rfl
          · exact hwf.paths x hx y hy hp hsome
          · exact absurd hp (hfree x hx)
        · rcases hy with hy | rfl
          · exact absurd hp.symm (hfree y hy)
          · rfl
      · intro oid hoid
        obtain ⟨r, hr, rfl⟩ := hwf.outcomes oid hoid
        exact ⟨r, List.mem_append_left _ hr, rfl⟩

/-- What a post-execution record does: a rename, if there is one and the path is
free, and a new expected hash, if there is one. -/
theorem record_cases {newPath : Option Path} {newExpectedHash : Option Hash}
    {transition : FileTransition}
    (h : recordPostExecution newPath newExpectedHash transition s = .ok s') :
    ∃ s₁, (s₁ = s ∨ ∃ path,
        (∀ r ∈ s.files, r.id ≠ transition.fileId → r.path ≠ some path) ∧
        s₁ = s.modifyFile transition.fileId fun r => { r with path := some path }) ∧
      (s' = s₁.addTransition transition ∨ ∃ hash, newExpectedHash = some hash ∧
        s' = (s₁.addTransition transition).modifyFile transition.fileId
          fun r => { r with expectedHash := some hash }) := by
  unfold recordPostExecution at h
  dsimp only at h
  split at h
  · cases h
  · rename_i s₁ hrenamed
    refine ⟨s₁, ?_, ?_⟩
    · split at hrenamed
      · cases hrenamed
        exact .inl rfl
      · rename_i path
        split at hrenamed
        · split at hrenamed
          · cases hrenamed
          · cases hrenamed
            exact .inl rfl
        · rename_i hfree
          cases hrenamed
          refine .inr ⟨path, ?_, rfl⟩
          simpa using hfree
    · split at h
      · cases h
        exact .inl rfl
      · rename_i hash
        cases h
        exact .inr ⟨hash, rfl, rfl⟩

/-- Every row after a post-execution record: the path and the expected hash of
the row of the transition may be new. -/
theorem record_row {newPath : Option Path} {newExpectedHash : Option Hash}
    {transition : FileTransition}
    (h : recordPostExecution newPath newExpectedHash transition s = .ok s') {r' : FileRow}
    (hr' : r' ∈ s'.files) :
    r' ∈ s.files ∨ ∃ r ∈ s.files, r.id = transition.fileId ∧ ∃ path expectedHash,
      (expectedHash = r.expectedHash ∨ expectedHash = newExpectedHash) ∧
      r' = { r with path, expectedHash } := by
  obtain ⟨s₁, hrename, hexpect⟩ := record_cases h
  have hrow₁ : ∀ x ∈ s₁.files, x ∈ s.files ∨ ∃ r ∈ s.files, r.id = transition.fileId ∧
      ∃ path, x = { r with path } := by
    intro x hx
    rcases hrename with rfl | ⟨path, -, rfl⟩
    · exact .inl hx
    · obtain ⟨r, hr, rfl⟩ := Table.mem_modify.mp hx
      split
      · rename_i hk
        exact .inr ⟨r, hr, hk, some path, rfl⟩
      · exact .inl hr
  rcases hexpect with rfl | ⟨hash, rfl, rfl⟩
  · rcases hrow₁ r' hr' with hr | ⟨r, hr, hk, path, rfl⟩
    · exact .inl hr
    · exact .inr ⟨r, hr, hk, path, r.expectedHash, .inl rfl, rfl⟩
  · obtain ⟨x, hx, rfl⟩ := Table.mem_modify.mp hr'
    rcases hrow₁ x hx with hr | ⟨r, hr, hk, path, rfl⟩
    · split
      · rename_i hk
        exact .inr ⟨x, hr, hk, x.path, some hash, .inr rfl, rfl⟩
      · exact .inl hr
    · rw [if_pos hk]
      exact .inr ⟨r, hr, hk, path, some hash, .inr rfl, rfl⟩

theorem record_wellFormed (hwf : s.WellFormed) {newPath : Option Path}
    {newExpectedHash : Option Hash} {transition : FileTransition}
    (h : recordPostExecution newPath newExpectedHash transition s = .ok s') : s'.WellFormed := by
  obtain ⟨s₁, hrename, hexpect⟩ := record_cases h
  have hwf₁ : s₁.WellFormed := by
    rcases hrename with rfl | ⟨path, hfree, rfl⟩
    · exact hwf
    · refine modify_wellFormed hwf ?_ ?_
      · exact fun _ => rfl
      · intro e he heid r hr hne hp
        have hrid : r.id ≠ transition.fileId := fun hrid =>
          hne (hwf.ids.eq_of_key hr he (hrid.trans heid.symm))
        exact absurd hp (hfree r hr hrid)
  rcases hexpect with rfl | ⟨hash, -, rfl⟩
  · exact addTransition_wellFormed hwf₁ _
  · refine modify_wellFormed (addTransition_wellFormed hwf₁ _) ?_ ?_
    · exact fun _ => rfl
    · intro e he _ r hr hne hp
      cases hrp : r.path with
      | none => rfl
      | some p => exact absurd (hwf₁.paths r hr e he hp (by simp [hrp])) hne

end Upserts

end Voom.Storage
