-- SUMMARY: Stubs of unfinished sessions: ingesting a store with stubs is ingesting the store without them.
import Voom.Storage.Ingest

/-!
# Stubs

A stub is an active row that was last seen by a session that did not complete.
`recover_stub_in_tx` deletes it when its path is ingested again. An ingest
commutes with stripping stubs away, so a session that comes to all their paths
ends as if they had not been there.
-/

namespace Voom.Storage

open Lib

/-! ## Ingests commute with stripping -/

section Commute

variable {ctx : IngestCtx} {X : List Uuid} {ss : List ScanSession} {s : Store}

/-- The stripped rows are active, so no move starts from them. -/
theorem findMoveCandidate_strip (hactive : ∀ r ∈ s.files, r.id ∈ X → r.status = .active)
    {session : SessionId} (hcurrent : (strip X ss s).session session = s.session session)
    (hash : Hash) :
    findMoveCandidate (strip X ss s) session hash =
      (findMoveCandidate s session hash).map fun c => (clearLink X c.1, c.2) := by
  unfold findMoveCandidate
  rw [hcurrent]
  simp only [strip]
  generalize ((s.session session).map (·.roots)).getD [] = roots
  revert hactive
  induction s.files with
  | nil => intro _; rfl
  | cons r rows ih =>
    intro hactive
    have hrest := ih fun x hx => hactive x (List.mem_cons_of_mem _ hx)
    rw [List.findSome?_cons]
    by_cases hX : r.id ∈ X
    · have hr := hactive r List.mem_cons_self hX
      rw [List.filter_cons_of_neg (by simpa using hX), hrest]
      cases hp : r.path with
      | none => rfl
      | some p => simp [hr]
    · rw [List.filter_cons_of_pos (by simpa using hX), List.map_cons, List.findSome?_cons]
      simp only [clearLink_path, clearLink_expectedHash, clearLink_status]
      cases hp : r.path with
      | none => exact hrest
      | some p =>
        dsimp only
        by_cases hc : r.expectedHash = some hash ∧ r.status = .missing ∧ isUnderAny p roots = true
        · rw [if_pos hc, if_pos hc]
          rfl
        · rw [if_neg hc, if_neg hc]
          exact hrest

theorem strip_ingestNoRow (hactive : ∀ r ∈ s.files, r.id ∈ X → r.status = .active)
    (hcurrent : (strip X ss s).session ctx.session = s.session ctx.session) (hid : ctx.newId ∉ X) :
    ingestNoRow ctx (strip X ss s) =
      (strip X ss (ingestNoRow ctx s).1, (ingestNoRow ctx s).2) := by
  unfold ingestNoRow
  rw [findMoveCandidate_strip hactive hcurrent]
  cases hmove : findMoveCandidate s ctx.session ctx.file.contentHash with
  | none =>
    simp only [Option.map_none, Prod.mk.injEq, and_true]
    unfold ingestNew
    rw [strip_addTransition hid, strip_insertActiveFile hid]
  | some candidate =>
    obtain ⟨r, p⟩ := candidate
    obtain ⟨hr, -, -, hmissing, -⟩ := findMoveCandidate_some hmove
    have hrX : r.id ∉ X := by
      intro hX
      rw [hactive r hr hX] at hmissing
      cases hmissing
    simp only [Option.map_some, Prod.mk.injEq, clearLink_id, and_true]
    unfold ingestMoved
    rw [strip_addTransition hrX, strip_modifyFile]
    · simp only [clearLink_id]
    · exact fun _ => rfl
    · exact clearLink_comm (fun _ => rfl) (fun _ => rfl)

theorem fileAt_strip {p : Path}
    (hpath : ∀ r ∈ s.files, r.id ∈ X → r.path ≠ some p) :
    (strip X ss s).fileAt p = (s.fileAt p).map (clearLink X) := by
  have hfind : ∀ rows : List FileRow, (∀ r ∈ rows, r.id ∈ X → r.path ≠ some p) →
      ((rows.filter fun r => r.id ∉ X).map (clearLink X)).find? (fun r => r.path = some p) =
        (rows.find? fun r => r.path = some p).map (clearLink X) := by
    intro rows
    induction rows with
    | nil => intro _; rfl
    | cons r rows ih =>
      intro hrows
      have hrest := ih fun x hx => hrows x (List.mem_cons_of_mem _ hx)
      by_cases hX : r.id ∈ X
      · have hr := hrows r List.mem_cons_self hX
        rw [List.filter_cons_of_neg (by simpa using hX), hrest,
          List.find?_cons_of_neg (by simpa using hr)]
      · rw [List.filter_cons_of_pos (by simpa using hX), List.map_cons]
        by_cases hp : r.path = some p
        · rw [List.find?_cons_of_pos (by simpa using hp), List.find?_cons_of_pos (by simpa using hp)]
          rfl
        · rw [List.find?_cons_of_neg (by simpa using hp), List.find?_cons_of_neg (by simpa using hp)]
          exact hrest
  exact hfind s.files hpath

/-- Recovering a row that stays commutes with stripping others. -/
theorem strip_recoverStub {id : Uuid} (hid : id ∉ X) :
    recoverStub (strip X ss s) id = (recoverStub s id).map (strip X ss) := by
  have hany : (strip X ss s).files.any (·.id = id) = s.files.any (·.id = id) := by
    rw [Bool.eq_iff_iff]
    simp only [List.any_eq_true, decide_eq_true_eq, mem_strip]
    constructor
    · rintro ⟨r, ⟨r₀, hr₀, -, rfl⟩, hrid⟩
      exact ⟨r₀, hr₀, clearLink_id.symm.trans hrid⟩
    · rintro ⟨r, hr, rfl⟩
      exact ⟨_, ⟨r, hr, hid, rfl⟩, clearLink_id⟩
  have hout : (strip X ss s).transcodeOutcomes = s.transcodeOutcomes := rfl
  rw [recoverStub_eq, recoverStub_eq, hany, hout]
  split
  · rfl
  · simp only [Except.map]
    rw [strip_strip, strip_strip]
    congr 1
    apply strip_congr
    simp [or_comm]

/-- An ingest at a path where no stub stands commutes with stripping stubs. -/
theorem ingest_strip
    (hactive : ∀ r ∈ s.files, r.id ∈ X → r.status = .active)
    (hpath : ∀ r ∈ s.files, r.id ∈ X → r.path ≠ some ctx.file.path)
    (hcurrent : (strip X ss s).session ctx.session = s.session ctx.session)
    (hagree : ∀ r ∈ s.files, r.id ∉ X → priorSessionNeedsRecovery (strip X ss s) r.lastSeenSession =
      priorSessionNeedsRecovery s r.lastSeenSession) (hid : ctx.newId ∉ X) :
    ingestDiscoveredFile ctx (strip X ss s) =
      (ingestDiscoveredFile ctx s).map fun result => (strip X ss result.1, result.2) := by
  have hvalid : validateSessionInProgress (strip X ss s) ctx.session =
      validateSessionInProgress s ctx.session := by
    unfold validateSessionInProgress
    rw [hcurrent]
  unfold ingestDiscoveredFile
  rw [hvalid, fileAt_strip hpath]
  cases validateSessionInProgress s ctx.session with
  | error e => rfl
  | ok u =>
    cases hat : s.fileAt ctx.file.path with
    | none =>
      simp only [Option.map_none]
      rw [strip_ingestNoRow hactive hcurrent hid]
      rfl
    | some e =>
      obtain ⟨he, hep⟩ := fileAt_some hat
      have heX : e.id ∉ X := fun hX => hpath e he hX hep
      simp only [Option.map_some, clearLink_lastSeenSession, clearLink_id, clearLink_expectedHash,
        hagree e he heX]
      split
      · rfl
      split
      · rw [strip_recoverStub heX]
        cases hrecover : recoverStub s e.id with
        | error err => rfl
        | ok base =>
          have hbase : base = strip [e.id] s.sessions s := by
            rw [recoverStub_eq] at hrecover
            split at hrecover
            · cases hrecover
            · exact (Except.ok.inj hrecover).symm
          have hactive' : ∀ r ∈ base.files, r.id ∈ X → r.status = .active := by
            intro r hr hX
            rw [hbase] at hr
            obtain ⟨r₀, hr₀, -, rfl⟩ := mem_strip.mp hr
            rw [clearLink_id] at hX
            exact clearLink_status.trans (hactive r₀ hr₀ hX)
          have hcurrent' : (strip X ss base).session ctx.session = base.session ctx.session := by
            rw [hbase]
            exact hcurrent
          simp only [Except.map]
          rw [strip_ingestNoRow hactive' hcurrent' hid]
      split
      · simp only [Except.map, ingestUnchanged, clearLink_id, clearLink_expectedHash]
        rw [strip_modifyFile]
        · exact fun _ => rfl
        · exact clearLink_comm (fun _ => rfl) (fun _ => rfl)
      · simp only [Except.map, ingestExternallyChanged, clearLink_id, clearLink_expectedHash,
          clearLink_size]
        rw [strip_addTransition hid, strip_insertActiveFile hid, strip_modifyFile,
          strip_addTransition heX]
        · exact fun _ => rfl
        · intro x
          rw [clearLink_of_none]
          · unfold clearLink
            split <;> rfl
          · rintro y hy heq
            cases heq
            exact hid hy

/-- An ingest at the path of a stub is an ingest of the store without it. -/
theorem ingest_at_stub (hwf : s.WellFormed) {r : FileRow} (hr : r ∈ s.files)
    (hpath : r.path = some ctx.file.path) (hunseen : r.lastSeenSession ≠ some ctx.session)
    (hrecover : priorSessionNeedsRecovery s r.lastSeenSession = true)
    (hout : r.id ∉ s.transcodeOutcomes) :
    ingestDiscoveredFile ctx s = ingestDiscoveredFile ctx (strip [r.id] s.sessions s) := by
  have hat : s.fileAt ctx.file.path = some r := fileAt_of_mem hwf hr hpath
  have hok : recoverStub s r.id = .ok (strip [r.id] s.sessions s) := by
    rw [recoverStub_eq, if_neg]
    rintro ⟨hcontains, -⟩
    exact hout (by simpa using hcontains)
  have hfree : (strip [r.id] s.sessions s).fileAt ctx.file.path = none := by
    cases hsome : (strip [r.id] s.sessions s).fileAt ctx.file.path with
    | none => rfl
    | some x =>
      obtain ⟨hx, hxp⟩ := fileAt_some hsome
      obtain ⟨r₀, hr₀, hne, rfl⟩ := mem_strip.mp hx
      rw [clearLink_path] at hxp
      rw [hwf.paths r₀ hr₀ r hr (hxp.trans hpath.symm) (by simp [hxp])] at hne
      simp at hne
  have hvalid : validateSessionInProgress (strip [r.id] s.sessions s) ctx.session =
      validateSessionInProgress s ctx.session := rfl
  unfold ingestDiscoveredFile
  rw [hvalid, hat, hfree]
  simp only [hunseen, if_false, hrecover, if_true, hok]

end Commute

/-! ## Runs of ingests -/

section Runs

variable {session : SessionId} {X : List Uuid} {ss : List ScanSession} {s : Store}

/-- The rows `X` are stubs that the ingests to come will find at their paths. -/
structure Stubs (session : SessionId) (X : List Uuid) (ingests : List Ingest) (s : Store) :
    Prop where
  wf : s.WellFormed
  stub : ∀ x ∈ X, ∃ r ∈ s.files, r.id = x ∧ r.status = .active ∧
    r.lastSeenSession ≠ some session ∧ priorSessionNeedsRecovery s r.lastSeenSession = true ∧
    ∃ i ∈ ingests, r.path = some i.file.path
  outcomes : ∀ x ∈ X, x ∉ s.transcodeOutcomes
  freshIds : ∀ i ∈ ingests, ∀ r ∈ s.files, r.id ≠ i.newId
  distinctIds : (ingests.map (·.newId)).Nodup

theorem strip_nil (ss : List ScanSession) (s : Store) :
    strip [] ss s = { s with sessions := ss } :=
  strip_of_unmentioned (by simp) (by simp)

namespace Stubs

variable {i : Ingest} {ingests : List Ingest}

/-- The stub at a path gone, the others remain. -/
theorem drop (h : Stubs session X ingests s) {r : FileRow} (hr : r.id ∈ X) :
    Stubs session (X.filter (· ≠ r.id)) ingests (strip [r.id] s.sessions s) where
  wf := strip_wellFormed h.wf (by simpa using h.outcomes r.id hr)
  stub := by
    intro x hx
    obtain ⟨hx, hne⟩ := List.mem_filter.mp hx
    obtain ⟨r', hr', rfl, hactive, hunseen, hrecover, hpath⟩ := h.stub x hx
    have hrow : clearLink [r.id] r' ∈ (strip [r.id] s.sessions s).files :=
      mem_strip.mpr ⟨r', hr', by simpa using hne, rfl⟩
    refine ⟨_, hrow, clearLink_id, clearLink_status.trans hactive, ?_, ?_, ?_⟩
    · rw [clearLink_lastSeenSession]
      exact hunseen
    · rw [clearLink_lastSeenSession]
      exact hrecover
    · rw [clearLink_path]
      exact hpath
  outcomes := fun x hx => h.outcomes x (List.mem_filter.mp hx).1
  freshIds := by
    intro i hi r' hr'
    obtain ⟨r₀, hr₀, -, rfl⟩ := mem_strip.mp hr'
    rw [clearLink_id]
    exact h.freshIds i hi r₀ hr₀
  distinctIds := h.distinctIds

/-- Step: after an ingest at another path the stubs are still to come. -/
theorem ingest (h : Stubs session X (i :: ingests) s)
    (haway : ∀ r ∈ s.files, r.id ∈ X → r.path ≠ some i.file.path) {s' : Store}
    {decision : IngestDecision}
    (hok : ingestDiscoveredFile (i.ctx session) s = .ok (s', decision)) :
    Stubs session X ingests s' where
  wf := ingest_wellFormed h.wf (h.freshIds i List.mem_cons_self) hok
  stub := by
    intro x hx
    obtain ⟨r, hr, rfl, hactive, hunseen, hrecover, j, hj, hpath⟩ := h.stub x hx
    have hne := haway r hr hx
    obtain ⟨r', hr', hid, hp, hact, hlast⟩ := ingest_keeps_active h.wf hok hr hactive hne
    refine ⟨r', hr', hid, hact, by rwa [hlast], ?_, j, ?_, hp.trans hpath⟩
    · rw [hlast, priorSessionNeedsRecovery_congr (ingest_sessions hok)]
      exact hrecover
    · rcases List.mem_cons.mp hj with rfl | hj
      · exact absurd hpath hne
      · exact hj
  outcomes := by
    rw [ingest_outcomes hok]
    exact h.outcomes
  freshIds := by
    intro j hj r' hr'
    rcases ingest_rows hok hr' with ⟨hid, -⟩ | ⟨r, hr, hid, -⟩
    · intro heq
      have hnew : i.newId = j.newId := hid.symm.trans heq
      exact (List.nodup_cons.mp h.distinctIds).1 (List.mem_map.mpr ⟨j, hj, hnew.symm⟩)
    · rw [hid]
      exact h.freshIds j (List.mem_cons_of_mem _ hj) r hr
  distinctIds := (List.nodup_cons.mp h.distinctIds).2

/-- Step: ingesting with the stubs away from the path or without them. -/
theorem ingest_away (h : Stubs session X (i :: ingests) s)
    (haway : ∀ r ∈ s.files, r.id ∈ X → r.path ≠ some i.file.path) :
    ingestDiscoveredFile (i.ctx session) (strip X s.sessions s) =
      (ingestDiscoveredFile (i.ctx session) s).map
        fun result => (strip X s.sessions result.1, result.2) := by
  refine ingest_strip ?_ haway rfl (fun _ _ _ => rfl) ?_
  · intro r hr hX
    obtain ⟨r', hr', hid, hactive, -⟩ := h.stub r.id hX
    rw [h.wf.ids.eq_of_key hr hr' hid.symm]
    exact hactive
  · intro hX
    obtain ⟨r, hr, hid, -⟩ := h.stub _ hX
    exact h.freshIds i List.mem_cons_self r hr hid

/-- Run: a session that ingests the paths of all stubs ends as it does on the
store without them. -/
theorem ingestAll_strip (h : Stubs session X ingests s) :
    Voom.Storage.ingestAll session ingests s =
      Voom.Storage.ingestAll session ingests (strip X s.sessions s) := by
  induction ingests generalizing X s with
  | nil =>
    have hX : X = [] := by
      cases X with
      | nil => rfl
      | cons x X =>
        obtain ⟨r, -, -, -, -, -, i, hi, -⟩ := h.stub x List.mem_cons_self
        cases hi
    subst hX
    rw [strip_nil]
  | cons i ingests ih =>
    -- First without the stub at the path of this ingest, if there is one.
    have haway : ∀ {X : List Uuid} {s : Store}, Stubs session X (i :: ingests) s →
        (∀ r ∈ s.files, r.id ∈ X → r.path ≠ some i.file.path) →
        Voom.Storage.ingestAll session (i :: ingests) s =
          Voom.Storage.ingestAll session (i :: ingests) (strip X s.sessions s) := by
      intro X s h haway
      simp only [Voom.Storage.ingestAll, h.ingest_away haway]
      cases hok : ingestDiscoveredFile (i.ctx session) s with
      | error e => rfl
      | ok result =>
        obtain ⟨s', decision⟩ := result
        simp only [Except.map]
        rw [ih (h.ingest haway hok), ingest_sessions hok]
    by_cases hat : ∃ r ∈ s.files, r.id ∈ X ∧ r.path = some i.file.path
    · obtain ⟨r, hr, hX, hpath⟩ := hat
      obtain ⟨r', hr', hid, -, hunseen, hrecover, -⟩ := h.stub r.id hX
      have heq : r' = r := h.wf.ids.eq_of_key hr' hr hid
      subst heq
      have hstub : Voom.Storage.ingestAll session (i :: ingests) s =
          Voom.Storage.ingestAll session (i :: ingests) (strip [r'.id] s.sessions s) := by
        simp only [Voom.Storage.ingestAll]
        rw [ingest_at_stub h.wf hr hpath hunseen hrecover (h.outcomes _ hX)]
      rw [hstub, haway (h.drop hX)]
      · rw [strip_strip]
        congr 1
        apply strip_congr
        intro x
        simp only [List.mem_append, List.mem_filter, List.mem_singleton, decide_eq_true_eq]
        constructor
        · rintro (⟨hx, -⟩ | rfl)
          · exact hx
          · exact hX
        · intro hx
          by_cases hxr : x = r'.id
          · exact .inr hxr
          · exact .inl ⟨hx, hxr⟩
      · intro x hx hxX hxp
        obtain ⟨x₀, hx₀, hne, rfl⟩ := mem_strip.mp hx
        rw [clearLink_path] at hxp
        refine hne ?_
        rw [h.wf.paths x₀ hx₀ r' hr (hxp.trans hpath.symm) (by simp [hxp])]
        exact List.mem_singleton_self _
    · exact haway h fun r hr hX hp => hat ⟨r, hr, hX, hp⟩

end Stubs

theorem priorSessionNeedsRecovery_of_session {s s' : Store} {prior : SessionId}
    (h : s'.session prior = s.session prior) :
    priorSessionNeedsRecovery s' (some prior) = priorSessionNeedsRecovery s (some prior) := by
  unfold priorSessionNeedsRecovery
  dsimp only
  rw [h]

/-- Run: a session looks at other sessions only to see which completed. -/
theorem ingestAll_sessions {ingests : List Ingest}
    (hcurrent : ({ s with sessions := ss } : Store).session session = s.session session)
    (hagree : ∀ r ∈ s.files,
      priorSessionNeedsRecovery { s with sessions := ss } r.lastSeenSession =
        priorSessionNeedsRecovery s r.lastSeenSession) :
    ingestAll session ingests { s with sessions := ss } =
      (ingestAll session ingests s).map fun s' => { s' with sessions := ss } := by
  induction ingests generalizing s with
  | nil => rfl
  | cons i ingests ih =>
    have hstep : ingestDiscoveredFile (i.ctx session) (strip [] ss s) =
        (ingestDiscoveredFile (i.ctx session) s).map
          fun result => (strip [] ss result.1, result.2) := by
      apply ingest_strip
      · simp
      · simp
      · rw [strip_nil]
        exact hcurrent
      · rw [strip_nil]
        exact fun r hr _ => hagree r hr
      · simp
    simp only [strip_nil] at hstep
    simp only [ingestAll, hstep]
    cases hok : ingestDiscoveredFile (i.ctx session) s with
    | error e => rfl
    | ok result =>
      obtain ⟨s', decision⟩ := result
      have hsessions : s'.sessions = s.sessions := ingest_sessions hok
      simp only [Except.map]
      refine ih ?_ ?_
      · simp only [Store.session, hsessions] at hcurrent ⊢
        exact hcurrent
      · intro r hr
        have hsame : ∀ last, priorSessionNeedsRecovery { s' with sessions := ss } last =
            priorSessionNeedsRecovery { s with sessions := ss } last :=
          fun last => priorSessionNeedsRecovery_congr rfl last
        rw [hsame, priorSessionNeedsRecovery_congr hsessions]
        rcases ingest_rows hok hr with ⟨-, hlast⟩ | ⟨r₀, hr₀, -, hlast | hlast⟩
        · rw [hlast]
          exact priorSessionNeedsRecovery_of_session hcurrent
        · rw [hlast]
          exact hagree r₀ hr₀
        · rw [hlast]
          exact priorSessionNeedsRecovery_of_session hcurrent

end Runs

end Voom.Storage
