-- SUMMARY: Cancelled scans: when the scan after a cancelled one ends as if the cancelled one had not run.
import Voom.Lib.Run
import Voom.Storage.Stubs

/-!
# Cancelled scans

A cancelled session leaves its ingests in the table. The next session recovers
from them path by path. That undoes rows the cancelled session inserted, and
nothing else.
-/

namespace Voom.Storage

open Lib

/-! ## Two scans in a row -/

/-- The inputs of a scan session up to its end. -/
structure ScanCall where
  roots : List Path
  session : SessionId
  startedAt : Time
  ingests : List Ingest

def ScanCall.run (c : ScanCall) (finishedAt : Time) (s : Store) :
    Except VoomError (Store × ScanFinishOutcome) :=
  runScan c.roots c.session c.startedAt finishedAt c.ingests s

/-- A scan that is cancelled after its ingests. -/
def ScanCall.cancelled (c : ScanCall) (cancelledAt : Time) (s : Store) : Except VoomError Store :=
  (scanUpToFinish c.roots c.session c.startedAt c.ingests s).map
    (cancelScanSession c.session cancelledAt)

/-- The rows, transitions and counts a scan ends with. -/
def scanResult (result : Store × ScanFinishOutcome) :
    List FileRow × List FileTransition × ScanFinishOutcome :=
  (result.1.files, result.1.transitions, result.2)

/-- One ingest as a step; a failing one leaves the store as it was. -/
def ingestStep (session : SessionId) (s : Store) (i : Ingest) : Store :=
  match ingestDiscoveredFile (i.ctx session) s with
  | .ok (s', _) => s'
  | .error _ => s

/-- The ingest repeats a path of its session, or it inserts a new row: no missing
row has its hash, and at most an active stub stands at its path. -/
def InsertsRow (session : SessionId) (s : Store) (i : Ingest) : Prop :=
  (∃ r, s.fileAt i.file.path = some r ∧ r.lastSeenSession = some session) ∨
    (findMoveCandidate s session i.file.contentHash = none ∧
      ∀ r, s.fileAt i.file.path = some r →
        r.status = .active ∧ priorSessionNeedsRecovery s r.lastSeenSession = true)

/-- An id that nothing in the store mentions. -/
structure Store.Unmentioned (s : Store) (id : Uuid) : Prop where
  rows : ∀ r ∈ s.files, r.id ≠ id
  links : ∀ r ∈ s.files, r.supersededBy ≠ some id
  transitions : ∀ t ∈ s.transitions, t.fileId ≠ id
  outcomes : id ∉ s.transcodeOutcomes

/-- The identifiers two scans draw are new and distinct, and the clock goes on. -/
structure FreshDraws (s : Store) (first second : ScanCall) : Prop where
  sessions : first.session ≠ second.session
  newSessions : ∀ p ∈ s.sessions, p.id ≠ first.session ∧ p.id ≠ second.session
  unseen : ∀ r ∈ s.files,
    r.lastSeenSession ≠ some first.session ∧ r.lastSeenSession ≠ some second.session
  ids : ((first.ingests ++ second.ingests).map (·.newId)).Nodup
  newIds : ∀ i ∈ first.ingests ++ second.ingests, s.Unmentioned i.newId
  clock : first.startedAt ≤ second.startedAt

/-! ## The cancelled session -/

section Cancelling

theorem strip_unmentioned {X : List Uuid} {ss : List ScanSession} {s : Store} {id : Uuid}
    (h : s.Unmentioned id) : (strip X ss s).Unmentioned id where
  rows := by
    intro r hr
    obtain ⟨r₀, hr₀, -, rfl⟩ := mem_strip.mp hr
    rw [clearLink_id]
    exact h.rows r₀ hr₀
  links := by
    intro r hr
    obtain ⟨r₀, hr₀, -, rfl⟩ := mem_strip.mp hr
    unfold clearLink
    split
    · exact nofun
    · exact h.links r₀ hr₀
  transitions := fun t ht => h.transitions t (List.mem_of_mem_filter ht)
  outcomes := h.outcomes

theorem ingestNew_unmentioned {ctx : IngestCtx} {s : Store} {id : Uuid} (h : s.Unmentioned id)
    (hne : ctx.newId ≠ id) : (ingestNew ctx s).Unmentioned id where
  rows := by
    intro r hr
    rcases List.mem_append.mp hr with hr | hr
    · exact h.rows r hr
    · rw [List.mem_singleton] at hr
      subst hr
      exact hne
  links := by
    intro r hr
    rcases List.mem_append.mp hr with hr | hr
    · exact h.links r hr
    · rw [List.mem_singleton] at hr
      subst hr
      exact nofun
  transitions := by
    intro t ht
    rcases List.mem_append.mp ht with ht | ht
    · exact h.transitions t ht
    · rw [List.mem_singleton] at ht
      subst ht
      exact hne
  outcomes := h.outcomes

/-- Stripping an id that nothing mentions strips nothing. -/
theorem strip_cons_unmentioned {X : List Uuid} {ss : List ScanSession} {s : Store} {id : Uuid}
    (h : s.Unmentioned id) : strip (id :: X) ss s = strip X ss s := by
  have hone : strip [id] ss s = { s with sessions := ss } := by
    refine strip_of_unmentioned (fun r hr => ⟨?_, ?_⟩) fun t ht => ?_
    · simpa using h.rows r hr
    · simpa using h.links r hr
    · simpa using h.transitions t ht
  have hboth : strip X ss (strip [id] ss s) = strip (id :: X) ss s := by
    rw [strip_strip]
    apply strip_congr
    simp [or_comm]
  rw [← hboth, hone]
  rfl

/-- Stripping takes back the insertion of a new row. -/
theorem strip_ingestNew {X : List Uuid} {ss : List ScanSession} {s : Store} {ctx : IngestCtx}
    (h : s.Unmentioned ctx.newId) :
    strip (ctx.newId :: X) ss (ingestNew ctx s) = strip X ss s := by
  rw [← strip_cons_unmentioned h]
  simp [strip, ingestNew, insertActiveFile, Store.addTransition, discoveryTransition,
    List.filter_append]

/-- The store `a` in the middle of a session that only inserts rows, begun on
`s`: apart from the inserted rows `X` and the recovered stubs `Y` it is `s`. -/
structure Cancelling (session : SessionId) (s a : Store) (done : List Ingest) (X Y : List Uuid) :
    Prop where
  wf : a.WellFormed
  same : ∀ ss, strip X ss a = strip Y ss s
  inserted : ∀ x ∈ X, ∃ r ∈ a.files, r.id = x ∧ r.status = .active ∧
    r.lastSeenSession = some session ∧ ∃ i ∈ done, r.path = some i.file.path
  others : ∀ r ∈ a.files, r.id ∉ X → r.lastSeenSession ≠ some session
  recovered : ∀ y ∈ Y, ∃ r ∈ s.files, r.id = y ∧ r.status = .active ∧
    priorSessionNeedsRecovery s r.lastSeenSession = true ∧ ∃ i ∈ done, r.path = some i.file.path
  outcomes : ∀ y ∈ Y, y ∉ s.transcodeOutcomes
  newIds : ∀ x ∈ X, ∃ i ∈ done, i.newId = x
  sessions : a.sessions = s.sessions
  unmentioned : ∀ id, s.Unmentioned id → (∀ i ∈ done, i.newId ≠ id) → a.Unmentioned id

namespace Cancelling

variable {session : SessionId} {s a : Store} {done : List Ingest} {X Y : List Uuid} {i : Ingest}

theorem start (hwf : s.WellFormed) (hunseen : ∀ r ∈ s.files, r.lastSeenSession ≠ some session) :
    Cancelling session s s [] [] [] where
  wf := hwf
  same := fun _ => rfl
  inserted := by simp
  others := fun r hr _ => hunseen r hr
  recovered := by simp
  outcomes := by simp
  newIds := by simp
  sessions := rfl
  unmentioned := fun _ h _ => h

theorem sameOutcomes (h : Cancelling session s a done X Y) :
    a.transcodeOutcomes = s.transcodeOutcomes := by
  have hsame : (strip X [] a).transcodeOutcomes = (strip Y [] s).transcodeOutcomes := by
    rw [h.same]
  exact hsame

/-- A row that was not inserted is a row of the starting store. -/
theorem old (h : Cancelling session s a done X Y) {r : FileRow} (hr : r ∈ a.files) (hX : r.id ∉ X) :
    ∃ r₀ ∈ s.files, r₀.id = r.id ∧ r₀.status = r.status ∧ r₀.path = r.path ∧
      r₀.lastSeenSession = r.lastSeenSession := by
  have hmem : clearLink X r ∈ (strip X [] a).files := mem_strip.mpr ⟨r, hr, hX, rfl⟩
  rw [h.same] at hmem
  obtain ⟨r₀, hr₀, -, heq⟩ := mem_strip.mp hmem
  refine ⟨r₀, hr₀, ?_, ?_, ?_, ?_⟩
  · rw [← clearLink_id (X := Y), heq, clearLink_id]
  · rw [← clearLink_status (X := Y), heq, clearLink_status]
  · rw [← clearLink_path (X := Y), heq, clearLink_path]
  · rw [← clearLink_lastSeenSession (X := Y), heq, clearLink_lastSeenSession]

theorem mono (h : Cancelling session s a done X Y) {done' : List Ingest} (hsub : done ⊆ done') :
    Cancelling session s a done' X Y where
  wf := h.wf
  same := h.same
  inserted := by
    intro x hx
    obtain ⟨r, hr, hid, hactive, hlast, j, hj, hp⟩ := h.inserted x hx
    exact ⟨r, hr, hid, hactive, hlast, j, hsub hj, hp⟩
  others := h.others
  recovered := by
    intro y hy
    obtain ⟨r, hr, hid, hactive, hprior, j, hj, hp⟩ := h.recovered y hy
    exact ⟨r, hr, hid, hactive, hprior, j, hsub hj, hp⟩
  outcomes := h.outcomes
  newIds := by
    intro x hx
    obtain ⟨j, hj, hid⟩ := h.newIds x hx
    exact ⟨j, hsub hj, hid⟩
  sessions := h.sessions
  unmentioned := fun id hid hdone => h.unmentioned id hid fun j hj => hdone j (hsub hj)

/-- A new row on a table that is the starting one but for `X` and `Y`. -/
theorem insertNew (h : Cancelling session s a done X Y) (hi : i ∈ done)
    (hwf : (ingestNew (i.ctx session) a).WellFormed) (hnew : a.Unmentioned i.newId) :
    Cancelling session s (ingestNew (i.ctx session) a) done (i.newId :: X) Y where
  wf := hwf
  same := by
    intro ss
    have hstrip : strip ((i.ctx session).newId :: X) ss (ingestNew (i.ctx session) a) =
        strip X ss a := strip_ingestNew hnew
    exact hstrip.trans (h.same ss)
  inserted := by
    intro x hx
    rcases List.mem_cons.mp hx with rfl | hx
    · exact ⟨newRow session i, List.mem_append_right _ (by simp [newRow, Ingest.ctx]), rfl, rfl, rfl,
        i, hi, rfl⟩
    · obtain ⟨r, hr, hr'⟩ := h.inserted x hx
      exact ⟨r, List.mem_append_left _ hr, hr'⟩
  others := by
    intro r hr hX
    rcases List.mem_append.mp hr with hr | hr
    · exact h.others r hr fun hmem => hX (List.mem_cons_of_mem _ hmem)
    · rw [List.mem_singleton] at hr
      subst hr
      exact absurd List.mem_cons_self hX
  recovered := h.recovered
  outcomes := h.outcomes
  newIds := by
    intro x hx
    rcases List.mem_cons.mp hx with rfl | hx
    · exact ⟨i, hi, rfl⟩
    · exact h.newIds x hx
  sessions := h.sessions
  unmentioned := fun id hid hdone =>
    ingestNew_unmentioned (h.unmentioned id hid hdone) (hdone i hi)

/-- A recovered stub moves from the table to `Y`. -/
theorem recover (h : Cancelling session s a done X Y) (hi : i ∈ done) {e : FileRow}
    (he : e ∈ a.files) (hX : e.id ∉ X) (hactive : e.status = .active)
    (hprior : priorSessionNeedsRecovery a e.lastSeenSession = true)
    (hout : e.id ∉ a.transcodeOutcomes) (hpath : e.path = some i.file.path) :
    Cancelling session s (strip [e.id] a.sessions a) done X (e.id :: Y) where
  wf := strip_wellFormed h.wf (by simpa using hout)
  same := by
    intro ss
    calc strip X ss (strip [e.id] a.sessions a)
        = strip (X ++ [e.id]) ss a := strip_strip _ _
      _ = strip ([e.id] ++ X) ss a := strip_congr (by simp [or_comm]) _
      _ = strip [e.id] ss (strip X ss a) := (strip_strip _ _).symm
      _ = strip [e.id] ss (strip Y ss s) := by rw [h.same]
      _ = strip (e.id :: Y) ss s := strip_strip _ _
  inserted := by
    intro x hx
    obtain ⟨r, hr, rfl, hact, hlast, j, hj, hp⟩ := h.inserted x hx
    have hne : r.id ∉ [e.id] := by
      intro hmem
      rw [List.mem_singleton] at hmem
      exact hX (hmem ▸ hx)
    exact ⟨_, mem_strip.mpr ⟨r, hr, hne, rfl⟩, clearLink_id, clearLink_status.trans hact,
      clearLink_lastSeenSession.trans hlast, j, hj, clearLink_path.trans hp⟩
  others := by
    intro r hr hrX
    obtain ⟨r₀, hr₀, -, rfl⟩ := mem_strip.mp hr
    rw [clearLink_id] at hrX
    rw [clearLink_lastSeenSession]
    exact h.others r₀ hr₀ hrX
  recovered := by
    intro y hy
    rcases List.mem_cons.mp hy with rfl | hy
    · obtain ⟨r₀, hr₀, hid, hstatus, hp, hlast⟩ := h.old he hX
      refine ⟨r₀, hr₀, hid, hstatus.trans hactive, ?_, i, hi, hp.trans hpath⟩
      rw [hlast, ← priorSessionNeedsRecovery_congr h.sessions]
      exact hprior
    · exact h.recovered y hy
  outcomes := by
    intro y hy
    rcases List.mem_cons.mp hy with rfl | hy
    · rw [← h.sameOutcomes]
      exact hout
    · exact h.outcomes y hy
  newIds := h.newIds
  sessions := h.sessions
  unmentioned := fun id hid hdone => strip_unmentioned (h.unmentioned id hid hdone)

/-- Step: an ingest that inserts a row or repeats a path. -/
theorem step (h : Cancelling session s a done X Y) (hnew : s.Unmentioned i.newId)
    (hdistinct : ∀ j ∈ done, j.newId ≠ i.newId) (hinserts : InsertsRow session a i) {a' : Store}
    {decision : IngestDecision}
    (hok : ingestDiscoveredFile (i.ctx session) a = .ok (a', decision)) :
    ∃ X' Y', Cancelling session s a' (done ++ [i]) X' Y' := by
  have hnew' : a.Unmentioned i.newId := h.unmentioned _ hnew hdistinct
  have hwf : a'.WellFormed := ingest_wellFormed h.wf hnew'.rows hok
  have hdone : Cancelling session s a (done ++ [i]) X Y := h.mono (List.subset_append_left _ _)
  have hi : i ∈ done ++ [i] := by simp
  rcases ingest_cases hok with ⟨rfl, -⟩ | ⟨base, hbase, rfl, -⟩ | ⟨e, hat, hlast, hprior, -⟩
  · exact ⟨X, Y, hdone⟩
  · rcases hinserts with ⟨r, hat, hlast⟩ | ⟨hnone, hstub⟩
    · -- A row of this session is in the way of both no-row paths.
      cases hbase with
      | free hfree =>
        rw [show (i.ctx session).file.path = i.file.path from rfl, hat] at hfree
        cases hfree
      | recovered e hat' hlast' _ =>
        rw [show (i.ctx session).file.path = i.file.path from rfl, hat] at hat'
        cases hat'
        exact absurd hlast hlast'
    · have hmove : findMoveCandidate base session i.file.contentHash = none := by
        cases hbase with
        | free _ => exact hnone
        | recovered e hat _ _ =>
          rw [findMoveCandidate_strip _ rfl, hnone]
          · rfl
          · intro r hr hmem
            rw [List.mem_singleton] at hmem
            rw [h.wf.ids.eq_of_key hr (fileAt_some hat).1 hmem]
            exact (hstub e hat).1
      have heq : (ingestNoRow (i.ctx session) base).1 = ingestNew (i.ctx session) base := by
        rcases ingestNoRow_cases (i.ctx session) base with ⟨r, p, hsome, -⟩ | ⟨-, heq⟩
        · have hsome' : findMoveCandidate base session i.file.contentHash = some (r, p) := hsome
          rw [hmove] at hsome'
          cases hsome'
        · rw [heq]
      rw [heq] at hwf ⊢
      cases hbase with
      | free _ => exact ⟨_, _, hdone.insertNew hi hwf hnew'⟩
      | recovered e hat hlast hout =>
        obtain ⟨he, hp⟩ := fileAt_some hat
        have hX : e.id ∉ X := by
          intro hX
          obtain ⟨r, hr, hid, -, hlast', -⟩ := h.inserted _ hX
          rw [h.wf.ids.eq_of_key hr he hid] at hlast'
          exact hlast hlast'
        have hout' : e.id ∉ a.transcodeOutcomes := by
          intro hmem
          refine hout ⟨by simpa using hmem, ?_⟩
          simpa using ⟨e, he, rfl⟩
        obtain ⟨hactive, hprior⟩ := hstub e hat
        exact ⟨_, _, (hdone.recover hi he hX hactive hprior hout' hp).insertNew hi hwf
          (strip_unmentioned hnew')⟩
  · -- The row at the path is neither of this session nor a stub.
    rcases hinserts with ⟨r, hat', hlast'⟩ | ⟨-, hstub⟩
    · rw [show (i.ctx session).file.path = i.file.path from rfl, hat'] at hat
      cases hat
      exact absurd hlast' hlast
    · rw [(hstub e hat).2] at hprior
      cases hprior

/-- Run: all ingests of the cancelled session. -/
theorem run (h : Cancelling session s a done X Y) {rest : List Ingest}
    (hnew : ∀ i ∈ rest, s.Unmentioned i.newId)
    (hdistinct : ((done ++ rest).map (·.newId)).Nodup)
    (hinserts : Along (ingestStep session) (InsertsRow session) a rest) {a' : Store}
    (hok : ingestAll session rest a = .ok a') :
    ∃ X' Y', Cancelling session s a' (done ++ rest) X' Y' := by
  induction rest generalizing a done X Y with
  | nil =>
    cases hok
    exact ⟨X, Y, by simpa using h⟩
  | cons i rest ih =>
    unfold ingestAll at hok
    cases hstep : ingestDiscoveredFile (i.ctx session) a with
    | error e =>
      rw [hstep] at hok
      cases hok
    | ok result =>
      obtain ⟨a₁, decision⟩ := result
      rw [hstep] at hok
      have hne : ∀ j ∈ done, j.newId ≠ i.newId := by
        intro j hj heq
        rw [List.map_append, List.map_cons] at hdistinct
        exact (List.nodup_append.mp hdistinct).2.2 _ (List.mem_map.mpr ⟨j, hj, rfl⟩) _
          List.mem_cons_self heq
      obtain ⟨X₁, Y₁, h₁⟩ := h.step (hnew i List.mem_cons_self) hne hinserts.1 hstep
      have hnext : ingestStep session a i = a₁ := by
        unfold ingestStep
        rw [hstep]
      have hrest := hinserts.2
      rw [hnext] at hrest
      rw [List.append_cons] at hdistinct ⊢
      exact ih h₁ (fun j hj => hnew j (List.mem_cons_of_mem _ hj)) hdistinct hrest hok

end Cancelling

end Cancelling

/-! ## Sessions -/

section Sessions

/-- Cancel a session that is in progress. -/
def cancelInProgress (now : Time) (p : ScanSession) : ScanSession :=
  if p.status = .inProgress then { p with status := .cancelled, lastHeartbeatAt := now } else p

@[simp] theorem cancelInProgress_id (now : Time) (p : ScanSession) :
    (cancelInProgress now p).id = p.id := by
  unfold cancelInProgress
  split <;> rfl

theorem cancelInProgress_ne (now : Time) (p : ScanSession) :
    (cancelInProgress now p).status ≠ .inProgress := by
  unfold cancelInProgress
  split
  · exact nofun
  · assumption

theorem cancelInProgress_completed (now : Time) (p : ScanSession) :
    (cancelInProgress now p).status = .completed ↔ p.status = .completed := by
  unfold cancelInProgress
  split
  · rename_i h
    simp [h]
  · rfl

/-- A begin that succeeds cancels every session in progress, all of them stale. -/
theorem beginScanSession_ok {roots : List Path} {id : SessionId} {now : Time} {s s₁ : Store}
    (h : beginScanSession roots id now s = .ok s₁) :
    s₁ = { s with sessions :=
      s.sessions.map (cancelInProgress now) ++ [⟨id, roots, .inProgress, now, now⟩] } ∧
    ∀ p ∈ s.sessions, p.status = .inProgress →
      staleSessionSecs < ageSecs now p.lastHeartbeatAt := by
  unfold beginScanSession at h
  split at h
  · cases h
  · rename_i hnone
    refine ⟨(Except.ok.inj h).symm, ?_⟩
    intro p hp hstatus
    have hlive := List.find?_eq_none.mp hnone p hp
    simpa [hstatus] using hlive

theorem beginScanSession_of_stale {s : Store} {now : Time} (roots : List Path) (id : SessionId)
    (h : ∀ p ∈ s.sessions, p.status = .inProgress →
      staleSessionSecs < ageSecs now p.lastHeartbeatAt) :
    beginScanSession roots id now s =
      .ok { s with sessions :=
        s.sessions.map (cancelInProgress now) ++ [⟨id, roots, .inProgress, now, now⟩] } := by
  have hnone : (s.sessions.find? fun p =>
      p.status = .inProgress ∧ ageSecs now p.lastHeartbeatAt ≤ staleSessionSecs) = none := by
    simp only [List.find?_eq_none, decide_eq_true_eq, not_and, Nat.not_le]
    exact h
  unfold beginScanSession
  rw [hnone]
  rfl

theorem find_session_map {f : ScanSession → ScanSession} (hf : ∀ p, (f p).id = p.id)
    (sessions : List ScanSession) (id : SessionId) :
    (sessions.map f).find? (fun p => p.id = id) = (sessions.find? fun p => p.id = id).map f := by
  rw [List.find?_map]
  congr 2
  funext p
  simp only [Function.comp, hf]

theorem find_session_append {sessions : List ScanSession} {p : ScanSession} (id : SessionId)
    (hp : ∀ q ∈ sessions, q.id ≠ p.id) :
    (sessions ++ [p]).find? (fun q => q.id = id) =
      if p.id = id then some p else sessions.find? fun q => q.id = id := by
  rw [List.find?_append]
  split
  · rename_i hid
    have hnone : (sessions.find? fun q => q.id = id) = none := by
      simp only [List.find?_eq_none, decide_eq_true_eq]
      exact fun q hq hqid => hp q hq (hqid.trans hid.symm)
    rw [hnone]
    simp [hid]
  · rename_i hid
    simp [hid]

/-- The sessions of a store in which a scan began, as a lookup. -/
theorem session_begun {s s₁ : Store} {roots : List Path} {id : SessionId} {now : Time}
    (hs : s₁.sessions = s.sessions.map (cancelInProgress now) ++ [⟨id, roots, .inProgress, now, now⟩])
    (hid : ∀ p ∈ s.sessions, p.id ≠ id) (sid : SessionId) :
    s₁.session sid = if id = sid then some ⟨id, roots, .inProgress, now, now⟩
      else (s.session sid).map (cancelInProgress now) := by
  unfold Store.session
  rw [hs, find_session_append]
  · rw [find_session_map (cancelInProgress_id now)]
  · intro q hq
    obtain ⟨p, hp, rfl⟩ := List.mem_map.mp hq
    rw [cancelInProgress_id]
    exact hid p hp

/-- Sessions in progress before a begin are as little completed afterwards. -/
theorem needsRecovery_map {s s₁ : Store} {now : Time} {sid : SessionId}
    (h : s₁.session sid = (s.session sid).map (cancelInProgress now)) :
    priorSessionNeedsRecovery s₁ (some sid) = priorSessionNeedsRecovery s (some sid) := by
  unfold priorSessionNeedsRecovery
  simp only [h]
  cases s.session sid with
  | none => rfl
  | some p => simp [cancelInProgress_completed]

end Sessions

/-! ## Finishing with other sessions -/

section Finish

variable {session : SessionId} {startedAt : Time} {ss : List ScanSession}

theorem deleteFile_sessions (message : String) (id : Uuid) (s : Store) :
    ({ s with sessions := ss } : Store).deleteFile message id =
      (s.deleteFile message id).map fun s' => { s' with sessions := ss } := by
  unfold Store.deleteFile
  dsimp only
  split <;> rfl

theorem tryPromoteOneMove_sessions (c : MissingCandidate) (s : Store) :
    tryPromoteOneMove c session startedAt { s with sessions := ss } =
      (tryPromoteOneMove c session startedAt s).map
        fun result => ({ result.1 with sessions := ss }, result.2) := by
  have htarget : promotionTarget c session startedAt { s with sessions := ss } =
      promotionTarget c session startedAt s := rfl
  unfold tryPromoteOneMove
  rw [htarget]
  cases promotionTarget c session startedAt s with
  | none => rfl
  | some target =>
    have hsame : (({ s with sessions := ss } : Store).deleteTransitions target.id) =
        { s.deleteTransitions target.id with sessions := ss } := rfl
    dsimp only
    rw [hsame, deleteFile_sessions]
    cases (s.deleteTransitions target.id).deleteFile
        "failed to delete New row for move promotion" target.id with
    | error e => rfl
    | ok s' => rfl

theorem promoteMoves_sessions (candidates : List MissingCandidate) (s : Store) :
    promoteMoves session startedAt candidates { s with sessions := ss } =
      (promoteMoves session startedAt candidates s).map
        fun result => ({ result.1 with sessions := ss }, result.2) := by
  induction candidates generalizing s with
  | nil => rfl
  | cons c candidates ih =>
    unfold promoteMoves
    rw [tryPromoteOneMove_sessions]
    cases tryPromoteOneMove c session startedAt s with
    | error e => rfl
    | ok result =>
      obtain ⟨s', promoted⟩ := result
      simp only [Except.map]
      rw [ih]
      cases promoteMoves session startedAt candidates s' with
      | error e => rfl
      | ok result => rfl

/-- A finish looks only at its own session. -/
theorem finishScanSession_sessions {s : Store} (now : Time)
    (hcurrent : ({ s with sessions := ss } : Store).session session = s.session session) :
    (finishScanSession session now { s with sessions := ss }).map scanResult =
      (finishScanSession session now s).map scanResult := by
  unfold finishScanSession
  rw [hcurrent]
  cases s.session session with
  | none => rfl
  | some p =>
    dsimp only
    split
    · rfl
    · have hcandidates : moveCandidates session p.roots { s with sessions := ss } =
          moveCandidates session p.roots s := rfl
      rw [hcandidates, promoteMoves_sessions]
      cases promoteMoves session p.startedAt (moveCandidates session p.roots s) s with
      | error e => rfl
      | ok result => rfl

theorem ingestAll_keeps_sessions {ingests : List Ingest} {s s' : Store}
    (h : ingestAll session ingests s = .ok s') : s'.sessions = s.sessions := by
  induction ingests generalizing s with
  | nil =>
    cases h
    rfl
  | cons i ingests ih =>
    unfold ingestAll at h
    cases hstep : ingestDiscoveredFile (i.ctx session) s with
    | error e =>
      rw [hstep] at h
      cases h
    | ok result =>
      rw [hstep] at h
      exact (ih h).trans (ingest_sessions hstep)

end Finish

/-! ## No trace -/

section NoTrace

variable {s a : Store} {first second : ScanCall} {cancelledAt : Time}

/-- The store after the cancelled session: the starting one but for inserted
rows and recovered stubs. -/
theorem cancelled_cancelling (hwf : s.WellFormed) (hdraws : FreshDraws s first second) {s₁ b : Store}
    (hbegin : beginScanSession first.roots first.session first.startedAt s = .ok s₁)
    (hingest : ingestAll first.session first.ingests s₁ = .ok b)
    (hinserts : Along (ingestStep first.session) (InsertsRow first.session) s₁ first.ingests) :
    ∃ X Y, Cancelling first.session s₁ b first.ingests X Y := by
  obtain ⟨rfl, -⟩ := beginScanSession_ok hbegin
  have hids : (first.ingests.map (·.newId)).Nodup := by
    have h := hdraws.ids
    rw [List.map_append] at h
    exact (List.nodup_append.mp h).1
  have hstart : Cancelling first.session
      { s with sessions := s.sessions.map (cancelInProgress first.startedAt) ++
        [⟨first.session, first.roots, .inProgress, first.startedAt, first.startedAt⟩] } _ [] [] [] :=
    .start ⟨hwf.ids, hwf.paths, hwf.outcomes⟩ fun r hr => (hdraws.unseen r hr).1
  refine hstart.run ?_ hids hinserts hingest
  intro i hi
  have h := hdraws.newIds i (List.mem_append_left _ hi)
  exact ⟨h.rows, h.links, h.transitions, h.outcomes⟩

/-- The sessions after a cancelled scan: none is in progress, and apart from the
cancelled one they have completed as before. -/
theorem cancelled_sessions (cancelledAt : Time) (hdraws : FreshDraws s first second) {s₁ b : Store}
    (hbegin : beginScanSession first.roots first.session first.startedAt s = .ok s₁)
    (hsessions : b.sessions = s₁.sessions) :
    (∀ p ∈ (cancelScanSession first.session cancelledAt b).sessions, p.status ≠ .inProgress) ∧
      (∀ p ∈ (cancelScanSession first.session cancelledAt b).sessions, p.id ≠ second.session) ∧
      priorSessionNeedsRecovery (cancelScanSession first.session cancelledAt b)
        (some first.session) = true ∧
      ∀ sid, sid ≠ first.session →
        priorSessionNeedsRecovery (cancelScanSession first.session cancelledAt b) (some sid) =
          priorSessionNeedsRecovery s (some sid) := by
  obtain ⟨rfl, -⟩ := beginScanSession_ok hbegin
  let cancel : ScanSession → ScanSession := fun p =>
    if p.id = first.session ∧ p.status = .inProgress then
      { p with status := .cancelled, lastHeartbeatAt := cancelledAt } else p
  have hcancel : ∀ p, (cancel p).id = p.id := by
    intro p
    simp only [cancel]
    split <;> rfl
  have hlookup : ∀ sid, (cancelScanSession first.session cancelledAt b).session sid =
      (b.session sid).map cancel := fun sid => find_session_map hcancel b.sessions sid
  have hbegun : ∀ sid, b.session sid = if first.session = sid then
        some ⟨first.session, first.roots, .inProgress, first.startedAt, first.startedAt⟩
      else (s.session sid).map (cancelInProgress first.startedAt) := by
    intro sid
    exact session_begun hsessions (fun p hp => (hdraws.newSessions p hp).1) sid
  refine ⟨?_, ?_, ?_, ?_⟩
  · intro p hp
    obtain ⟨q, hq, rfl⟩ := List.mem_map.mp hp
    rw [hsessions] at hq
    rcases List.mem_append.mp hq with hq | hq
    · obtain ⟨q₀, -, rfl⟩ := List.mem_map.mp hq
      have hne := cancelInProgress_ne first.startedAt q₀
      rw [if_neg fun hcon => hne hcon.2]
      exact hne
    · rw [List.mem_singleton] at hq
      subst hq
      simp
  · intro p hp
    obtain ⟨q, hq, rfl⟩ := List.mem_map.mp hp
    have hid : (cancel q).id = q.id := hcancel q
    simp only [cancel] at hid
    rw [hid]
    rw [hsessions] at hq
    rcases List.mem_append.mp hq with hq | hq
    · obtain ⟨q₀, hq₀, rfl⟩ := List.mem_map.mp hq
      rw [cancelInProgress_id]
      exact (hdraws.newSessions q₀ hq₀).2
    · rw [List.mem_singleton] at hq
      subst hq
      exact hdraws.sessions
  · unfold priorSessionNeedsRecovery
    simp [hlookup, hbegun, cancel]
  · intro sid hsid
    have hne : first.session ≠ sid := fun h => hsid h.symm
    have hsame : (cancelScanSession first.session cancelledAt b).session sid =
        (s.session sid).map (cancelInProgress first.startedAt) := by
      rw [hlookup, hbegun, if_neg hne, Option.map_map]
      congr 1
      funext p
      simp only [Function.comp, cancel]
      rw [if_neg fun hcon => cancelInProgress_ne first.startedAt p hcon.2]
    exact needsRecovery_map hsame

/-- The ingests of the second session, after the cancelled one and alone. -/
theorem ingestAll_after_cancelled (hwf : s.WellFormed) (hdraws : FreshDraws s first second)
    {s₁ b a₂ s₂ : Store} {X Y : List Uuid}
    (h : Cancelling first.session s₁ b first.ingests X Y)
    (hagain : ∀ i ∈ first.ingests, ∃ j ∈ second.ingests, j.file.path = i.file.path)
    (hs₁ : s₁ = { s with sessions := s₁.sessions })
    (ha₂ : a₂ = { b with sessions := a₂.sessions }) (hs₂ : s₂ = { s with sessions := s₂.sessions })
    (hcurrent : a₂.session second.session = s₂.session second.session)
    (hfirst : priorSessionNeedsRecovery a₂ (some first.session) = true)
    (hothers : ∀ sid, sid ≠ first.session →
      priorSessionNeedsRecovery a₂ (some sid) = priorSessionNeedsRecovery s₂ (some sid))
    (hbefore : ∀ sid, sid ≠ first.session → sid ≠ second.session →
      priorSessionNeedsRecovery s₁ (some sid) = priorSessionNeedsRecovery s₂ (some sid)) :
    ingestAll second.session second.ingests a₂ =
      (ingestAll second.session second.ingests s₂).map
        fun c => { c with sessions := a₂.sessions } := by
  have hfiles₁ : s₁.files = s.files := by rw [hs₁]
  have hout₁ : s₁.transcodeOutcomes = s.transcodeOutcomes := by rw [hs₁]
  have hfiles₂ : s₂.files = s.files := by rw [hs₂]
  have hfilesA : a₂.files = b.files := by rw [ha₂]
  have houtA : a₂.transcodeOutcomes = b.transcodeOutcomes := by rw [ha₂]
  have hout₂ : s₂.transcodeOutcomes = s.transcodeOutcomes := by rw [hs₂]
  have hids := hdraws.ids
  rw [List.map_append] at hids
  have hsecondIds := List.nodup_append.mp hids
  have hunseen : ∀ r ∈ s.files, ∀ sid, r.lastSeenSession = some sid →
      sid ≠ first.session ∧ sid ≠ second.session := by
    intro r hr sid hlast
    have hne := hdraws.unseen r hr
    rw [hlast] at hne
    exact ⟨fun heq => hne.1 (congrArg some heq), fun heq => hne.2 (congrArg some heq)⟩
  have hinserted : Stubs second.session X second.ingests a₂ := by
    refine ⟨?_, ?_, ?_, ?_, hsecondIds.2.1⟩
    · rw [ha₂]
      exact ⟨h.wf.ids, h.wf.paths, h.wf.outcomes⟩
    · intro x hx
      obtain ⟨r, hr, hid, hactive, hlast, i, hi, hp⟩ := h.inserted x hx
      obtain ⟨j, hj, hpath⟩ := hagain i hi
      refine ⟨r, hfilesA ▸ hr, hid, hactive, ?_, ?_, j, hj, by rw [hp, hpath]⟩
      · rw [hlast]
        exact fun heq => hdraws.sessions (Option.some.inj heq)
      · rw [hlast]
        exact hfirst
    · intro x hx
      obtain ⟨i, hi, rfl⟩ := h.newIds x hx
      rw [houtA, h.sameOutcomes, hout₁]
      exact (hdraws.newIds i (List.mem_append_left _ hi)).outcomes
    · intro j hj r hr
      rw [hfilesA] at hr
      have hnew := hdraws.newIds j (List.mem_append_right _ hj)
      have hnew₁ : s₁.Unmentioned j.newId := by
        have htrans : s₁.transitions = s.transitions := by rw [hs₁]
        refine ⟨?_, ?_, ?_, ?_⟩
        · rw [hfiles₁]
          exact hnew.rows
        · rw [hfiles₁]
          exact hnew.links
        · rw [htrans]
          exact hnew.transitions
        · rw [hout₁]
          exact hnew.outcomes
      refine (h.unmentioned _ hnew₁ fun i hi heq => ?_).rows r hr
      exact hsecondIds.2.2 _ (List.mem_map.mpr ⟨i, hi, rfl⟩) _ (List.mem_map.mpr ⟨j, hj, rfl⟩) heq
  have hrecovered : Stubs second.session Y second.ingests s₂ := by
    refine ⟨?_, ?_, ?_, ?_, hsecondIds.2.1⟩
    · rw [hs₂]
      exact ⟨hwf.ids, hwf.paths, hwf.outcomes⟩
    · intro y hy
      obtain ⟨r, hr, hid, hactive, hprior, i, hi, hp⟩ := h.recovered y hy
      rw [hfiles₁] at hr
      obtain ⟨j, hj, hpath⟩ := hagain i hi
      refine ⟨r, hfiles₂ ▸ hr, hid, hactive, (hdraws.unseen r hr).2, ?_, j, hj, by rw [hp, hpath]⟩
      cases hlast : r.lastSeenSession with
      | none =>
        rw [hlast] at hprior
        cases hprior
      | some sid =>
        obtain ⟨hne₁, hne₂⟩ := hunseen r hr sid hlast
        rw [← hbefore sid hne₁ hne₂, ← hlast]
        exact hprior
    · intro y hy
      rw [hout₂, ← hout₁]
      exact h.outcomes y hy
    · intro j hj r hr
      rw [hfiles₂] at hr
      exact (hdraws.newIds j (List.mem_append_right _ hj)).rows r hr
  have hsame : strip X a₂.sessions a₂ =
      { strip Y s₂.sessions s₂ with sessions := a₂.sessions } := by
    have hX : strip X a₂.sessions a₂ = strip X a₂.sessions b := by
      conv_lhs => rw [ha₂]
      rfl
    have hY : strip Y a₂.sessions s₁ = { strip Y s₂.sessions s₂ with sessions := a₂.sessions } := by
      rw [hs₁, hs₂]
      rfl
    rw [hX, h.same, hY]
  rw [hinserted.ingestAll_strip, hrecovered.ingestAll_strip, hsame]
  refine ingestAll_sessions hcurrent fun r hr => ?_
  obtain ⟨r₀, hr₀, -, rfl⟩ := mem_strip.mp hr
  rw [hfiles₂] at hr₀
  rw [clearLink_lastSeenSession]
  cases hlast : r₀.lastSeenSession with
  | none => rfl
  | some sid => exact hothers sid (hunseen r₀ hr₀ sid hlast).1

/-- After a cancelled session that only inserted rows, a session that ingests its
paths again ends with the rows, transitions and counts that it ends with alone. -/
theorem cancelled_scan_leaves_no_trace (hwf : s.WellFormed) (hdraws : FreshDraws s first second)
    (hcancel : first.cancelled cancelledAt s = .ok a)
    (hinserts : ∀ s₁, beginScanSession first.roots first.session first.startedAt s = .ok s₁ →
      Along (ingestStep first.session) (InsertsRow first.session) s₁ first.ingests)
    (hagain : ∀ i ∈ first.ingests, ∃ j ∈ second.ingests, j.file.path = i.file.path)
    (finishedAt : Time) :
    (second.run finishedAt a).map scanResult = (second.run finishedAt s).map scanResult := by
  unfold ScanCall.cancelled scanUpToFinish at hcancel
  cases hbegin : beginScanSession first.roots first.session first.startedAt s with
  | error e =>
    rw [hbegin] at hcancel
    cases hcancel
  | ok s₁ =>
  rw [hbegin] at hcancel
  dsimp only at hcancel
  cases hingest : ingestAll first.session first.ingests s₁ with
  | error e =>
    rw [hingest] at hcancel
    cases hcancel
  | ok b =>
  rw [hingest] at hcancel
  have ha : a = cancelScanSession first.session cancelledAt b := (Except.ok.inj hcancel).symm
  obtain ⟨X, Y, hcancelling⟩ := cancelled_cancelling hwf hdraws hbegin hingest (hinserts s₁ hbegin)
  obtain ⟨hnone, hfresh, hfirst, hothers⟩ :=
    cancelled_sessions cancelledAt hdraws hbegin hcancelling.sessions
  rw [← ha] at hnone hfresh hfirst hothers
  obtain ⟨hs₁, hstale⟩ := beginScanSession_ok hbegin
  -- Both second sessions begin, with the same session row.
  have hbeginA : beginScanSession second.roots second.session second.startedAt a = _ :=
    beginScanSession_of_stale second.roots second.session
      fun p hp hstatus => absurd hstatus (hnone p hp)
  have hbeginS : beginScanSession second.roots second.session second.startedAt s = _ :=
    beginScanSession_of_stale second.roots second.session fun p hp hstatus => by
      refine lt_of_lt_of_le (hstale p hp hstatus) ?_
      exact Nat.div_le_div_right (Nat.sub_le_sub_right hdraws.clock _)
  generalize ha₂ : ({ a with sessions := a.sessions.map (cancelInProgress second.startedAt) ++
    [⟨second.session, second.roots, .inProgress, second.startedAt, second.startedAt⟩] } : Store) =
      a₂ at hbeginA
  generalize hs₂ : ({ s with sessions := s.sessions.map (cancelInProgress second.startedAt) ++
    [⟨second.session, second.roots, .inProgress, second.startedAt, second.startedAt⟩] } : Store) =
      s₂ at hbeginS
  have hlookA : ∀ sid, a₂.session sid = _ := session_begun (by rw [← ha₂]) hfresh
  have hlookS : ∀ sid, s₂.session sid = _ :=
    session_begun (by rw [← hs₂]) fun p hp => (hdraws.newSessions p hp).2
  have hlook₁ : ∀ sid, s₁.session sid = _ :=
    session_begun (by rw [hs₁]) fun p hp => (hdraws.newSessions p hp).1
  have hcurrent : a₂.session second.session = s₂.session second.session := by
    rw [hlookA, hlookS, if_pos rfl, if_pos rfl]
  have hpriorA : ∀ sid, sid ≠ second.session →
      priorSessionNeedsRecovery a₂ (some sid) = priorSessionNeedsRecovery a (some sid) := by
    intro sid hne
    exact needsRecovery_map (by rw [hlookA, if_neg hne.symm])
  have hpriorS : ∀ sid, sid ≠ second.session →
      priorSessionNeedsRecovery s₂ (some sid) = priorSessionNeedsRecovery s (some sid) := by
    intro sid hne
    exact needsRecovery_map (by rw [hlookS, if_neg hne.symm])
  have hprior₁ : ∀ sid, sid ≠ first.session →
      priorSessionNeedsRecovery s₁ (some sid) = priorSessionNeedsRecovery s (some sid) := by
    intro sid hne
    exact needsRecovery_map (by rw [hlook₁, if_neg hne.symm])
  have hingests : ingestAll second.session second.ingests a₂ =
      (ingestAll second.session second.ingests s₂).map
        fun c => { c with sessions := a₂.sessions } := by
    refine ingestAll_after_cancelled hwf hdraws hcancelling hagain ?_ ?_ ?_ hcurrent ?_ ?_ ?_
    · rw [hs₁]
    · rw [← ha₂, ha]
      rfl
    · rw [← hs₂]
    · rw [hpriorA _ hdraws.sessions]
      exact hfirst
    · intro sid hne
      by_cases hsid : sid = second.session
      · rw [hsid]
        exact priorSessionNeedsRecovery_of_session hcurrent
      · rw [hpriorA sid hsid, hothers sid hne, hpriorS sid hsid]
    · intro sid hne₁ hne₂
      rw [hprior₁ sid hne₁, hpriorS sid hne₂]
  simp only [ScanCall.run, runScan, scanUpToFinish, hbeginA, hbeginS, hingests]
  cases hrest : ingestAll second.session second.ingests s₂ with
  | error e => rfl
  | ok c =>
    refine finishScanSession_sessions finishedAt ?_
    have hsessions := ingestAll_keeps_sessions hrest
    simp only [Store.session, hsessions] at hcurrent ⊢
    exact hcurrent

end NoTrace

namespace TwoScans

/-- A library of one file, scanned before. -/
def store : Store :=
  { files :=
      [{ id := 1, path := some ⟨["r", "a"]⟩, size := 5, contentHash := "x", expectedHash := some "x",
         introspectedAt := 3, createdAt := 3, lastSeenSession := some 50 }],
    sessions := [⟨50, [⟨["r"]⟩], .completed, 2, 4⟩] }

def scan (session : SessionId) (startedAt : Time) (ingests : List Ingest) : ScanCall :=
  ⟨[⟨["r"]⟩], session, startedAt, ingests⟩

theorem wellFormed : store.WellFormed where
  ids := by simp [Table.Keyed, store]
  paths := by simp [store]
  outcomes := by simp [store]

theorem freshDraws {i : Ingest} {ingests : List Ingest}
    (hids : ((i :: ingests).map (·.newId)).Nodup) (hnew : ∀ j ∈ i :: ingests, j.newId ≠ 1) :
    FreshDraws store (scan 51 10 [i]) (scan 52 20 ingests) where
  sessions := by simp [scan]
  newSessions := by simp [store, scan]
  unseen := by simp [store, scan]
  ids := hids
  newIds := by
    intro j hj
    have hne := hnew j hj
    refine ⟨?_, ?_, ?_, ?_⟩
    · simpa [store] using hne.symm
    · simp [store]
    · simp [store]
    · simp [store]
  clock := by simp [scan]

/-- A file not known before the cancelled scan. -/
def added (now : Time) (newId : Uuid) : Ingest := ⟨⟨⟨["r", "b"]⟩, 7, "y"⟩, now, newId⟩

/-- The file known before. -/
def known (now : Time) (newId : Uuid) : Ingest := ⟨⟨⟨["r", "a"]⟩, 5, "x"⟩, now, newId⟩

end TwoScans

/-- A cancelled scan that found only a new file, and a scan of both files. -/
theorem cancelled_insert_is_undone :
    ∃ a, (TwoScans.scan 51 10 [TwoScans.added 11 10]).cancelled 12 TwoScans.store = .ok a ∧
      ((TwoScans.scan 52 20 [TwoScans.known 21 20, TwoScans.added 22 21]).run 30 a).map scanResult =
        ((TwoScans.scan 52 20 [TwoScans.known 21 20, TwoScans.added 22 21]).run 30
          TwoScans.store).map scanResult := by
  have hdraws : FreshDraws TwoScans.store (TwoScans.scan 51 10 [TwoScans.added 11 10])
      (TwoScans.scan 52 20 [TwoScans.known 21 20, TwoScans.added 22 21]) :=
    TwoScans.freshDraws (by decide) (by decide)
  refine ⟨_, rfl, cancelled_scan_leaves_no_trace TwoScans.wellFormed hdraws rfl ?_ ?_ 30⟩
  · intro s₁ hbegin
    cases hbegin
    refine ⟨.inr ⟨by decide, ?_⟩, trivial⟩
    intro r hr
    cases hr
  · simp [TwoScans.scan, TwoScans.added]

/-- A cancelled scan that found the known file unchanged: the next scan takes its
row for a stub, and the row is gone. -/
theorem cancelled_scan_loses_known_row :
    TwoScans.store.WellFormed ∧
      FreshDraws TwoScans.store (TwoScans.scan 51 10 [TwoScans.known 11 10])
        (TwoScans.scan 52 20 [TwoScans.known 21 20]) ∧
      ∃ a, (TwoScans.scan 51 10 [TwoScans.known 11 10]).cancelled 12 TwoScans.store = .ok a ∧
        ((TwoScans.scan 52 20 [TwoScans.known 21 20]).run 30 TwoScans.store).map
          (·.1.files.map (·.id)) = .ok [1] ∧
        ((TwoScans.scan 52 20 [TwoScans.known 21 20]).run 30 a).map
          (·.1.files.map (·.id)) = .ok [20] := by
  refine ⟨TwoScans.wellFormed, TwoScans.freshDraws (by decide) (by decide), _, rfl, ?_, ?_⟩
  · decide
  · decide

end Voom.Storage
