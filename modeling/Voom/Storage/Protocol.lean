-- SUMMARY: The scan-session protocol: calls of any number of clients as transactions, and what every interleaving keeps.
import Voom.Storage.Reconcile
import Voom.Storage.Cancel
import Voom.Lib.Transaction

/-!
# The scan-session protocol

Clients begin, feed, finish, cancel and keep alive scan sessions, each call in
an immediate transaction of its own. `beginScanSessionTx` writes the statements
of a begin out; as a transaction it commits exactly what `beginScanSession`
computes (`commit_beginScanSessionTx`).
-/

namespace Voom.Storage

open Lib

/-! ## The calls -/

/-- `UPDATE scan_sessions SET status = 'cancelled'` of one session in progress:
the statement of `cancel_scan_session` and of the takeover in a begin. -/
def cancelStmt (now : Time) (id : SessionId) : Tx VoomError Store Unit :=
  Tx.statement (cancelScanSession id now)

/-- `INSERT INTO scan_sessions`; the id is the primary key. -/
def insertSession (p : ScanSession) : Tx VoomError Store Unit :=
  Tx.guarded (fun s => s.sessions.any (·.id = p.id))
    (.storage .constraintViolation
      "failed to insert scan session: UNIQUE constraint failed: scan_sessions.id")
    fun s => { s with sessions := s.sessions ++ [p] }

/-- The loop over the prior sessions in progress: the ids of the stale ones, or
an error at the first live one. -/
def staleIds (now : Time) : List ScanSession → Except VoomError (List SessionId)
  | [] => .ok []
  | p :: rest =>
    if ageSecs now p.lastHeartbeatAt > staleSessionSecs then
      match staleIds now rest with
      | .error e => .error e
      | .ok ids => .ok (p.id :: ids)
    else
      .error (.storage .other ("another scan is in progress (session " ++ toString p.id ++
        ", last heartbeat " ++ toString p.lastHeartbeatAt ++ "); wait up to " ++
        toString staleSessionSecs ++ " seconds or abandon it manually if stale"))

def cancelEach (now : Time) : List SessionId → Tx VoomError Store Unit
  | [] => pure ()
  | id :: rest => do
    cancelStmt now id
    cancelEach now rest

/-- `begin_scan_session`, statement by statement. -/
def beginScanSessionTx (roots : List Path) (id : SessionId) (now : Time) :
    Tx VoomError Store SessionId := do
  let prior := (← get).sessions.filter fun p => p.status = .inProgress
  match staleIds now prior with
  | .error e => throw e
  | .ok cancelledIds =>
    cancelEach now cancelledIds
    insertSession ⟨id, roots, .inProgress, now, now⟩
    return id

/-- `heartbeat_scan_session`. -/
def heartbeatScanSession (id : SessionId) (now : Time) (s : Store) : Store :=
  { s with sessions := s.sessions.map fun p =>
      if p.id = id ∧ p.status = .inProgress then { p with lastHeartbeatAt := now } else p }

/-- A call of some client, with the clock reading and the ids it draws. -/
inductive SessionCall where
  | begin (roots : List Path) (id : SessionId) (now : Time)
  | ingest (ctx : IngestCtx)
  | finish (session : SessionId) (now : Time)
  | cancel (session : SessionId) (now : Time)
  | heartbeat (session : SessionId) (now : Time)

namespace SessionCall

/-- What a call returns, as far as the protocol goes, and the store it leaves. -/
def run : SessionCall → Store → Except VoomError Unit × Store
  | .begin roots id now => Tx.commit (do discard <| beginScanSessionTx roots id now)
  | .ingest ctx => Tx.commit (do discard <| Tx.ofOperation (ingestDiscoveredFile ctx))
  | .finish session now => Tx.commit (do discard <| Tx.ofOperation (finishScanSession session now))
  | .cancel session now => Tx.commit (cancelStmt now session)
  | .heartbeat session now => Tx.commit (Tx.statement (heartbeatScanSession session now))

def step (s : Store) (c : SessionCall) : Store := (c.run s).2

/-- The session on whose behalf a call is made; a begin has none yet. -/
def session : SessionCall → Option SessionId
  | .begin _ _ _ => none
  | .ingest ctx => some ctx.session
  | .finish session _ | .cancel session _ | .heartbeat session _ => some session

/-- The calls that write file rows. -/
def writesFiles : SessionCall → Bool
  | .ingest _ | .finish _ _ => true
  | .begin _ _ _ | .cancel _ _ | .heartbeat _ _ => false

end SessionCall

/-- The state after the calls of all clients, in the order of their transactions. -/
def runCalls (s : Store) (calls : List SessionCall) : Store :=
  calls.foldl SessionCall.step s

/-! ## A begin, statement by statement -/

section Begin

variable {roots : List Path} {id : SessionId} {now : Time} {s : Store}

/-- The sessions a list of cancel statements is about. -/
def cancelAmong (now : Time) (ids : List SessionId) (p : ScanSession) : ScanSession :=
  if p.id ∈ ids then cancelInProgress now p else p

theorem cancelInProgress_of_ne {now : Time} {p : ScanSession} (h : p.status ≠ .inProgress) :
    cancelInProgress now p = p := if_neg h

theorem cancelScanSession_eq (id : SessionId) (now : Time) (s : Store) :
    cancelScanSession id now s =
      { s with sessions := s.sessions.map fun p => if p.id = id then cancelInProgress now p else p } := by
  unfold cancelScanSession cancelInProgress
  congr 1
  refine List.map_congr_left fun p _ => ?_
  split_ifs <;> simp_all

theorem cancelEach_apply (now : Time) (ids : List SessionId) (s : Store) :
    cancelEach now ids s =
      (.ok (), { s with sessions := s.sessions.map (cancelAmong now ids) }) := by
  induction ids generalizing s with
  | nil =>
    have hid : cancelAmong now [] = id := by
      funext p
      simp [cancelAmong]
    rw [hid, List.map_id]
    rfl
  | cons i ids ih =>
    unfold cancelEach
    rw [Tx.bind_apply]
    unfold cancelStmt Tx.statement
    dsimp only
    rw [ih, cancelScanSession_eq]
    simp only [List.map_map]
    congr 2
    refine List.map_congr_left fun p _ => ?_
    -- A session cancelled by one statement is left alone by the next.
    have htwice : cancelInProgress now (cancelInProgress now p) = cancelInProgress now p :=
      cancelInProgress_of_ne (cancelInProgress_ne now p)
    unfold cancelAmong
    simp only [Function.comp, List.mem_cons]
    split_ifs <;> simp_all

/-- The loop over the prior sessions stops at the first live one. -/
theorem staleIds_eq (now : Time) (prior : List ScanSession) :
    staleIds now prior =
      match prior.find? fun p => ageSecs now p.lastHeartbeatAt ≤ staleSessionSecs with
      | some p =>
        .error (.storage .other ("another scan is in progress (session " ++ toString p.id ++
          ", last heartbeat " ++ toString p.lastHeartbeatAt ++ "); wait up to " ++
          toString staleSessionSecs ++ " seconds or abandon it manually if stale"))
      | none => .ok (prior.map (·.id)) := by
  induction prior with
  | nil => rfl
  | cons p rest ih =>
    unfold staleIds
    by_cases hlive : ageSecs now p.lastHeartbeatAt ≤ staleSessionSecs
    · rw [if_neg (Nat.not_lt.mpr hlive), List.find?_cons_of_pos (by simpa using hlive)]
    · rw [if_pos (Nat.lt_of_not_le hlive), List.find?_cons_of_neg (by simpa using hlive), ih]
      cases rest.find? fun p => ageSecs now p.lastHeartbeatAt ≤ staleSessionSecs <;> rfl

theorem insertSession_apply {p : ScanSession} {s : Store} {b : Bool}
    (h : s.sessions.any (·.id = p.id) = b) :
    insertSession p s = if b then
        (.error (.storage .constraintViolation
          "failed to insert scan session: UNIQUE constraint failed: scan_sessions.id"), s)
      else (.ok (), { s with sessions := s.sessions ++ [p] }) :=
  Tx.guarded_apply h

/-- What the statements of a begin commit is what `beginScanSession` computes,
unless the id is already taken. -/
theorem commit_beginScanSessionTx (roots : List Path) (id : SessionId) (now : Time) (s : Store) :
    (beginScanSessionTx roots id now).commit s =
      match beginScanSession roots id now s with
      | .error e => (.error e, s)
      | .ok s' =>
        if s.sessions.any (·.id = id) then
          (.error (.storage .constraintViolation
            "failed to insert scan session: UNIQUE constraint failed: scan_sessions.id"), s)
        else (.ok id, s') := by
  have hbody : beginScanSessionTx roots id now s =
      match staleIds now (s.sessions.filter fun p => p.status = .inProgress) with
      | .error e => (.error e, s)
      | .ok ids => (do
          cancelEach now ids
          insertSession ⟨id, roots, .inProgress, now, now⟩
          return id : Tx VoomError Store SessionId) s := by
    have hget : (get : Tx VoomError Store Store) s = (.ok s, s) := rfl
    unfold beginScanSessionTx
    rw [Tx.bind_apply, hget]
    dsimp only
    cases staleIds now (s.sessions.filter fun p => p.status = .inProgress) <;> rfl
  unfold Tx.commit
  rw [hbody, staleIds_eq, List.find?_filter]
  unfold beginScanSession
  simp only [decide_eq_true_eq]
  cases s.sessions.find? fun p =>
      p.status = .inProgress ∧ ageSecs now p.lastHeartbeatAt ≤ staleSessionSecs with
  | some p => rfl
  | none =>
    dsimp only
    rw [Tx.bind_apply, cancelEach_apply]
    dsimp only
    rw [Tx.bind_apply]
    -- Every session in progress is among the cancelled ones, and no id changes.
    have hmap : s.sessions.map (cancelAmong now ((s.sessions.filter fun p =>
        p.status = .inProgress).map (·.id))) = s.sessions.map (cancelInProgress now) := by
      refine List.map_congr_left fun p hp => ?_
      unfold cancelAmong
      split
      · rfl
      · rename_i hmem
        refine (cancelInProgress_of_ne fun hstatus => hmem ?_).symm
        exact List.mem_map_of_mem (List.mem_filter.mpr ⟨hp, by simpa using hstatus⟩)
    have hany : (s.sessions.map (cancelInProgress now)).any (·.id = id) =
        s.sessions.any (·.id = id) := by
      rw [List.any_map]
      simp only [Function.comp_def, cancelInProgress_id]
    rw [hmap]
    rw [insertSession_apply hany]
    cases s.sessions.any (·.id = id) <;> rfl

end Begin

/-! ## What one call does -/

section Step

variable {s : Store} {c : SessionCall}

/-- A call changes sessions in progress only, keeps every id and adds at most
the session it begins, after settling all others. -/
inductive CallEffect (s : Store) : List ScanSession → Prop where
  | updates (f : ScanSession → ScanSession) (hid : ∀ p, (f p).id = p.id)
      (hsettled : ∀ p ∈ s.sessions, p.status ≠ .inProgress → f p = p) :
      CallEffect s (s.sessions.map f)
  | begins (p : ScanSession) (now : Time) (hfresh : ∀ q ∈ s.sessions, q.id ≠ p.id) :
      CallEffect s (s.sessions.map (cancelInProgress now) ++ [p])

theorem CallEffect.unchanged (s : Store) : CallEffect s s.sessions := by
  have h := CallEffect.updates (s := s) id (fun _ => rfl) (fun _ _ _ => rfl)
  rwa [List.map_id] at h

theorem promoteMoves_keeps_sessions {session : SessionId} {startedAt : Time}
    {candidates : List MissingCandidate} {s s' : Store} {n : Nat}
    (h : promoteMoves session startedAt candidates s = .ok (s', n)) : s'.sessions = s.sessions := by
  -- Promotions do not look at the sessions, so they leave those they find.
  have hsame : promoteMoves session startedAt candidates s =
      (promoteMoves session startedAt candidates s).map
        fun result => ({ result.1 with sessions := s.sessions }, result.2) :=
    promoteMoves_sessions candidates s
  rw [h] at hsame
  have hstore : s' = { s' with sessions := s.sessions } := congrArg Prod.fst (Except.ok.inj hsame)
  rw [hstore]

theorem finishScanSession_ok_sessions {session : SessionId} {now : Time} {s s' : Store}
    {outcome : ScanFinishOutcome} (h : finishScanSession session now s = .ok (s', outcome)) :
    (∃ p, s.session session = some p ∧ p.status = .inProgress) ∧
      s'.sessions = s.sessions.map fun q =>
        if q.id = session then { q with status := .completed, lastHeartbeatAt := now } else q := by
  unfold finishScanSession at h
  split at h
  · cases h
  · rename_i p hp
    split at h
    · cases h
    rename_i hstatus
    split at h
    · cases h
    · rename_i t n hpromote
      cases h
      refine ⟨⟨p, hp, not_not.mp hstatus⟩, ?_⟩
      rw [← promoteMoves_keeps_sessions hpromote]

/-- The table of sessions after a call. -/
theorem step_effect (hids : Table.Keyed ScanSession.id s.sessions) (c : SessionCall) :
    CallEffect s (c.step s).sessions := by
  unfold SessionCall.step SessionCall.run
  cases c with
  | begin roots id now =>
    dsimp only
    rw [Tx.commit_discard, commit_beginScanSessionTx]
    cases hbegin : beginScanSession roots id now s with
    | error e => exact .unchanged s
    | ok s' =>
      dsimp only
      split
      · exact .unchanged s
      · rename_i hfresh
        rw [(beginScanSession_ok hbegin).1]
        refine .begins _ _ fun q hq hid => hfresh ?_
        exact List.any_eq_true.mpr ⟨q, hq, by simpa using hid⟩
  | ingest ctx =>
    dsimp only
    rw [Tx.commit_discard, Tx.commit_ofOperation]
    cases hingest : ingestDiscoveredFile ctx s with
    | error e => exact .unchanged s
    | ok result =>
      dsimp only
      rw [ingest_sessions hingest]
      exact .unchanged s
  | finish session now =>
    dsimp only
    rw [Tx.commit_discard, Tx.commit_ofOperation]
    cases hfinish : finishScanSession session now s with
    | error e => exact .unchanged s
    | ok result =>
      obtain ⟨⟨p, hp, hstatus⟩, hsessions⟩ := finishScanSession_ok_sessions hfinish
      dsimp only
      rw [hsessions]
      refine .updates _ (fun q => by split <;> rfl) fun q hq hne => ?_
      -- The finished session is in progress, so a settled one is another.
      have hpid : p.id = session := by simpa using List.find?_some hp
      refine if_neg fun hid => hne ?_
      rw [hids.eq_of_key hq (List.mem_of_find?_eq_some hp) (hid.trans hpid.symm)]
      exact hstatus
  | cancel session now =>
    refine .updates _ (fun q => by split <;> rfl) fun q hq hne => if_neg ?_
    exact fun h => hne h.2
  | heartbeat session now =>
    refine .updates _ (fun q => by split <;> rfl) fun q hq hne => if_neg ?_
    exact fun h => hne h.2

/-- A call for a session that is not in progress does nothing, and one that
would write files reports an error. -/
theorem step_settled (hids : Table.Keyed ScanSession.id s.sessions) {p : ScanSession}
    (hp : p ∈ s.sessions) (hstatus : p.status ≠ .inProgress) (c : SessionCall)
    (hc : c.session = some p.id) :
    c.step s = s ∧ (c.writesFiles → ∃ e, (c.run s).1 = .error e) := by
  have hsession : s.session p.id = some p := session_of_mem hids hp
  have hnone : ∀ q ∈ s.sessions, ¬(q.id = p.id ∧ q.status = .inProgress) := by
    rintro q hq ⟨hid, hqstatus⟩
    rw [hids.eq_of_key hq hp hid] at hqstatus
    exact hstatus hqstatus
  have hmap : ∀ f : ScanSession → ScanSession,
      (s.sessions.map fun q => if q.id = p.id ∧ q.status = .inProgress then f q else q) =
        s.sessions := by
    intro f
    conv_rhs => rw [← List.map_id s.sessions]
    exact List.map_congr_left fun q hq => if_neg (hnone q hq)
  unfold SessionCall.step SessionCall.run
  cases c with
  | begin roots id now => cases hc
  | ingest ctx =>
    have hctx : ctx.session = p.id := Option.some.inj hc
    have herror : ∃ e, ingestDiscoveredFile ctx s = .error e := by
      unfold ingestDiscoveredFile validateSessionInProgress
      rw [hctx, hsession]
      exact ⟨_, by simp only [if_neg hstatus]; rfl⟩
    obtain ⟨e, he⟩ := herror
    dsimp only
    rw [Tx.commit_discard, Tx.commit_ofOperation, he]
    exact ⟨rfl, fun _ => ⟨e, rfl⟩⟩
  | finish session now =>
    have hid : session = p.id := Option.some.inj hc
    have herror : ∃ e, finishScanSession session now s = .error e := by
      unfold finishScanSession
      rw [hid, hsession]
      exact ⟨_, if_pos hstatus⟩
    obtain ⟨e, he⟩ := herror
    dsimp only
    rw [Tx.commit_discard, Tx.commit_ofOperation, he]
    exact ⟨rfl, fun _ => ⟨e, rfl⟩⟩
  | cancel session now =>
    have hid : session = p.id := Option.some.inj hc
    subst hid
    refine ⟨?_, nofun⟩
    change cancelScanSession p.id now s = s
    unfold cancelScanSession
    rw [hmap]
  | heartbeat session now =>
    have hid : session = p.id := Option.some.inj hc
    subst hid
    refine ⟨?_, nofun⟩
    change heartbeatScanSession p.id now s = s
    unfold heartbeatScanSession
    rw [hmap]

end Step

/-! ## Every interleaving -/

section Runs

variable {s : Store}

/-- The sessions of a store the protocol has run on. -/
structure SessionsOk (s : Store) : Prop where
  ids : Table.Keyed ScanSession.id s.sessions
  single : (s.sessions.filter fun p => p.status = .inProgress).length ≤ 1

theorem SessionsOk.step (h : SessionsOk s) (c : SessionCall) : SessionsOk (c.step s) := by
  have heffect := step_effect h.ids c
  generalize hsessions : (c.step s).sessions = sessions at heffect
  refine ⟨?_, ?_⟩
  · rw [hsessions]
    cases heffect with
    | updates f hid _ =>
      have hkeys : (s.sessions.map f).map ScanSession.id = s.sessions.map ScanSession.id := by
        rw [List.map_map]
        exact List.map_congr_left fun p _ => hid p
      unfold Table.Keyed
      rw [hkeys]
      exact h.ids
    | begins p now hfresh =>
      have hkeys : (s.sessions.map (cancelInProgress now)).map ScanSession.id =
          s.sessions.map ScanSession.id := by
        rw [List.map_map]
        exact List.map_congr_left fun p _ => cancelInProgress_id now p
      refine Table.Keyed.append ?_ ?_
      · unfold Table.Keyed
        rw [hkeys]
        exact h.ids
      · intro q hq
        obtain ⟨q₀, hq₀, rfl⟩ := List.mem_map.mp hq
        rw [cancelInProgress_id]
        exact hfresh q₀ hq₀
  · rw [hsessions, ← List.countP_eq_length_filter]
    cases heffect with
    | updates f _ hsettled =>
      rw [List.countP_map]
      have hle := h.single
      rw [← List.countP_eq_length_filter] at hle
      refine le_trans (List.countP_mono_left fun p hp hf => ?_) hle
      -- A session that is in progress afterwards was so before.
      by_contra hne
      have hstatus : p.status ≠ .inProgress := by simpa using hne
      simp only [Function.comp, hsettled p hp hstatus] at hf
      exact hne hf
    | begins p now _ =>
      have hzero : (s.sessions.map (cancelInProgress now)).countP
          (fun p => p.status = .inProgress) = 0 := by
        rw [List.countP_eq_zero]
        intro q hq
        obtain ⟨q₀, -, rfl⟩ := List.mem_map.mp hq
        simpa using cancelInProgress_ne now q₀
      rw [List.countP_append, hzero, Nat.zero_add]
      exact List.countP_le_length

theorem SessionsOk.run (h : SessionsOk s) (calls : List SessionCall) :
    SessionsOk (runCalls s calls) := by
  induction calls generalizing s with
  | nil => exact h
  | cons c calls ih => exact ih (h.step c)

/-- A session that is over stays as it is, whatever is called. -/
theorem SessionsOk.mem_step (h : SessionsOk s) {p : ScanSession} (hp : p ∈ s.sessions)
    (hstatus : p.status ≠ .inProgress) (c : SessionCall) : p ∈ (c.step s).sessions := by
  have heffect := step_effect h.ids c
  generalize (c.step s).sessions = sessions at heffect
  cases heffect with
  | updates f _ hsettled => exact List.mem_map.mpr ⟨p, hp, hsettled p hp hstatus⟩
  | begins q now _ =>
    refine List.mem_append_left _ (List.mem_map.mpr ⟨p, hp, ?_⟩)
    exact cancelInProgress_of_ne hstatus

theorem SessionsOk.mem_run (h : SessionsOk s) {p : ScanSession} (hp : p ∈ s.sessions)
    (hstatus : p.status ≠ .inProgress) (calls : List SessionCall) :
    p ∈ (runCalls s calls).sessions := by
  induction calls generalizing s with
  | nil => exact hp
  | cons c calls ih => exact ih (h.step c) (h.mem_step hp hstatus c)

/-- The session is over: its row stands as given, and a call on its behalf
leaves the whole store alone and fails if it is one that writes files. -/
structure Over (p : ScanSession) (s : Store) : Prop where
  row : s.session p.id = some p
  calls : ∀ c : SessionCall, c.session = some p.id →
    c.step s = s ∧ (c.writesFiles → ∃ e, (c.run s).1 = .error e)

theorem SessionsOk.isOver (h : SessionsOk s) {p : ScanSession} (hp : p ∈ s.sessions)
    (hstatus : p.status ≠ .inProgress) (later : List SessionCall) : Over p (runCalls s later) where
  row := session_of_mem (h.run later).ids (h.mem_run hp hstatus later)
  calls := step_settled (h.run later).ids (h.mem_run hp hstatus later) hstatus

/-- The protocol at one reachable state. -/
structure ProtocolHolds (s : Store) : Prop where
  single : (s.sessions.filter fun p => p.status = .inProgress).length ≤ 1
  /-- A completed or cancelled session is over, now and after any further calls. -/
  ended : ∀ p ∈ s.sessions, p.status ≠ .inProgress → ∀ later, Over p (runCalls s later)
  begin_fails : ∀ roots id now e s',
    (SessionCall.begin roots id now).run s = (.error e, s') → s' = s
  /-- So is one that a begin finds stale and cancels. -/
  taken_over : ∀ roots id now s', (SessionCall.begin roots id now).run s = (.ok (), s') →
    ∀ p ∈ s.sessions, p.status = .inProgress → ∀ later,
      Over { p with status := .cancelled, lastHeartbeatAt := now } (runCalls s' later)

/-- Whatever the clients call, in whatever order and by whatever clocks, the
protocol holds at every state they reach from a store without sessions. -/
theorem scan_session_protocol (s₀ : Store) (calls : List SessionCall) :
    ProtocolHolds (runCalls { s₀ with sessions := [] } calls) := by
  have hstart : SessionsOk { s₀ with sessions := [] } := ⟨List.nodup_nil, Nat.zero_le _⟩
  have hok := hstart.run calls
  generalize runCalls { s₀ with sessions := [] } calls = s at hok
  refine ⟨hok.single, fun p hp hstatus => hok.isOver hp hstatus, ?_, ?_⟩
  · intro roots id now e s' h
    exact Tx.commit_error h
  · intro roots id now s' h p hp hstatus later
    have hs' : s' = (SessionCall.begin roots id now).step s := by
      unfold SessionCall.step
      rw [h]
    have hok' : SessionsOk s' := hs' ▸ hok.step _
    refine hok'.isOver ?_ (fun h => by cases h) later
    simp only [SessionCall.run] at h
    rw [Tx.commit_discard, commit_beginScanSessionTx] at h
    cases hbegin : beginScanSession roots id now s with
    | error e =>
      rw [hbegin] at h
      cases h
    | ok s₁ =>
      rw [hbegin] at h
      dsimp only at h
      split at h
      · cases h
      · cases h
        rw [(beginScanSession_ok hbegin).1]
        refine List.mem_append_left _ (List.mem_map.mpr ⟨p, hp, ?_⟩)
        exact if_pos hstatus

end Runs

end Voom.Storage
