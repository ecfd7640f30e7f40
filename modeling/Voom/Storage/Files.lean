-- SUMMARY: The files table of the store: upserts, post-execution records and scan sessions.
import Voom.Domain.Events
import Voom.Domain.Transition
import Voom.Lib.Table

/-!
# The files table

The operations of `file_storage.rs` that read or write the `files` table. A
transaction that fails is rolled back, so a failing operation returns only its
error. Rows stand in the order of their `rowid`, the order in which a query
without `ORDER BY` visits them. Identifiers and clock readings that an
operation draws are arguments.
-/

namespace Voom.Storage

open Lib

/-! ## Rows -/

abbrev SessionId := Uuid

/-- A row of `files`, with its rows of `tracks`. -/
structure FileRow where
  id : Uuid
  path : Option Path
  size : Nat
  contentHash : Hash
  expectedHash : Option Hash := none
  status : FileStatus := .active
  supersededBy : Option Uuid := none
  tracks : List Track := []
  introspectedAt : Time
  lastSeenSession : Option SessionId := none
  createdAt : Time
  deriving DecidableEq, Repr

inductive ScanSessionStatus where
  | inProgress | completed | cancelled
  deriving DecidableEq, Repr, Inhabited

def ScanSessionStatus.asStr : ScanSessionStatus → String
  | .inProgress => "in_progress"
  | .completed => "completed"
  | .cancelled => "cancelled"

structure ScanSession where
  id : SessionId
  roots : List Path
  status : ScanSessionStatus
  startedAt : Time
  lastHeartbeatAt : Time
  deriving DecidableEq, Repr

structure Store where
  files : List FileRow := []
  transitions : List FileTransition := []
  sessions : List ScanSession := []
  /-- `scan_session_mutations`: paths VOOM itself touched during a session. -/
  mutations : List (SessionId × Path) := []
  /-- The file ids that `transcode_outcomes` refers to, without `ON DELETE`. -/
  transcodeOutcomes : List Uuid := []
  deriving DecidableEq, Repr

structure DiscoveredFile where
  path : Path
  size : Nat
  contentHash : Hash
  deriving DecidableEq, Repr

inductive IngestDecision where
  | new (fileId : Uuid) (needsIntrospection : Bool)
  | unchanged (fileId : Uuid)
  | externallyChanged (fileId superseded : Uuid)
  | moved (fileId : Uuid) (fromPath : Path)
  | duplicate (fileId : Uuid)
  deriving DecidableEq, Repr

/-- `needs_introspection_path`, as the flag the pipeline makes of it. -/
def IngestDecision.needsIntrospection : IngestDecision → Bool
  | .new _ needsIntrospection => needsIntrospection
  | .externallyChanged _ _ | .moved _ _ => true
  | .unchanged _ | .duplicate _ => false

structure ScanFinishOutcome where
  missing : Nat
  promotedMoves : Nat
  deriving DecidableEq, Repr

/-! ## Lookups -/

namespace Store

variable (s : Store)

def fileAt (path : Path) : Option FileRow :=
  s.files.find? fun r => r.path = some path

def session (id : SessionId) : Option ScanSession :=
  s.sessions.find? fun session => session.id = id

def modifyFile (id : Uuid) (f : FileRow → FileRow) : Store :=
  { s with files := Table.modify FileRow.id id f s.files }

def addTransition (t : FileTransition) : Store :=
  { s with transitions := s.transitions ++ [t] }

def deleteTransitions (fileId : Uuid) : Store :=
  { s with transitions := s.transitions.filter fun t => t.fileId ≠ fileId }

/-- Deleting a file row cascades to its tracks, but not to `transcode_outcomes`. -/
def deleteFile (message : String) (id : Uuid) : Except VoomError Store :=
  if s.transcodeOutcomes.contains id ∧ s.files.any (·.id = id) then
    .error (.storage .constraintViolation (message ++ ": FOREIGN KEY constraint failed"))
  else .ok { s with files := Table.delete FileRow.id id s.files }

end Store

/-! ## Upserts -/

/-- `upsert_file`: update the row at the path in place, or insert one. -/
def upsertFile (file : MediaFile) (now : Time) (s : Store) : Except VoomError Store :=
  if ¬ (file.tracks.map (·.index)).Nodup then
    .error (.storage .constraintViolation
      "failed to insert track: UNIQUE constraint failed: tracks.file_id, tracks.stream_index")
  else
    match s.fileAt file.path with
    | some existing =>
      .ok (s.modifyFile existing.id fun r =>
        { r with size := file.size, contentHash := file.contentHash.getD "", status := file.status,
                 tracks := file.tracks, introspectedAt := file.introspectedAt })
    | none =>
      if s.files.any (·.id = file.id) then
        .error (.storage .constraintViolation
          "failed to upsert file: UNIQUE constraint failed: files.id")
      else
        .ok { s with files := s.files ++
          [{ id := file.id, path := some file.path, size := file.size,
             contentHash := file.contentHash.getD "", status := file.status, tracks := file.tracks,
             introspectedAt := file.introspectedAt, createdAt := now }] }

/-- A stored fingerprint of the file at a path. -/
structure StoredFingerprint where
  size : Nat
  contentHash : Hash
  lastSeen : Time
  deriving DecidableEq, Repr

/-- `file_fingerprint_by_path`: an empty hash stands for none. -/
def fileFingerprintByPath (s : Store) (path : Path) : Option StoredFingerprint :=
  match s.fileAt path with
  | none => none
  | some r =>
    if r.contentHash = "" then none
    else some { size := r.size, contentHash := r.contentHash, lastSeen := r.introspectedAt }

/-- `file_by_path`, as far as the cache check and the evaluation look at it. -/
def fileByPath (s : Store) (path : Path) : Option MediaFile :=
  (s.fileAt path).map fun r =>
    { id := r.id, path, size := r.size,
      contentHash := if r.contentHash = "" then none else some r.contentHash,
      expectedHash := r.expectedHash, status := r.status, tracks := r.tracks,
      introspectedAt := r.introspectedAt }

/-- `record_post_execution`: rename, transition and expected hash in one bundle. -/
def recordPostExecution (newPath : Option Path) (newExpectedHash : Option Hash)
    (transition : FileTransition) (s : Store) : Except VoomError Store :=
  let id := transition.fileId
  let renamed : Except VoomError Store :=
    match newPath with
    | none => .ok s
    | some path =>
      if s.files.any fun r => r.id ≠ id ∧ r.path = some path then
        if s.files.any (·.id = id) then
          .error (.storage .constraintViolation
            "failed to rename file path in bundle: UNIQUE constraint failed: files.path")
        else .ok s
      else .ok (s.modifyFile id fun r => { r with path := some path })
  match renamed with
  | .error e => .error e
  | .ok s =>
    let s := s.addTransition transition
    match newExpectedHash with
    | none => .ok s
    | some hash => .ok (s.modifyFile id fun r => { r with expectedHash := some hash })

/-! ## Beginning and cancelling a session -/

def staleSessionSecs : Nat := 60

/-- Whole seconds since an instant; the clock reads nanoseconds. -/
def ageSecs (now instant : Time) : Nat := (now - instant) / 10 ^ 9

/-- `begin_scan_session`: a live session is in the way, stale ones are cancelled. -/
def beginScanSession (roots : List Path) (id : SessionId) (now : Time) (s : Store) :
    Except VoomError Store :=
  match s.sessions.find? fun p =>
      p.status = .inProgress ∧ ageSecs now p.lastHeartbeatAt ≤ staleSessionSecs with
  | some p =>
    .error (.storage .other ("another scan is in progress (session " ++ toString p.id ++
      ", last heartbeat " ++ toString p.lastHeartbeatAt ++ "); wait up to " ++
      toString staleSessionSecs ++ " seconds or abandon it manually if stale"))
  | none =>
    let sessions := s.sessions.map fun p =>
      if p.status = .inProgress then { p with status := .cancelled, lastHeartbeatAt := now } else p
    .ok { s with sessions := sessions ++ [⟨id, roots, .inProgress, now, now⟩] }

/-- `cancel_scan_session`: only the session row changes. -/
def cancelScanSession (id : SessionId) (now : Time) (s : Store) : Store :=
  { s with sessions := s.sessions.map fun p =>
      if p.id = id ∧ p.status = .inProgress then
        { p with status := .cancelled, lastHeartbeatAt := now }
      else p }

/-! ## Ingesting -/

/-- The common context of the ingest helpers. -/
structure IngestCtx where
  now : Time
  session : SessionId
  file : DiscoveredFile
  /-- The identifier drawn for a new row. -/
  newId : Uuid

/-- `validate_session_in_progress_in_tx`. -/
def validateSessionInProgress (s : Store) (session : SessionId) : Except VoomError Unit :=
  match s.session session with
  | none => .error (.storage .notFound ("unknown scan session " ++ toString session))
  | some p =>
    if p.status = .inProgress then .ok ()
    else
      .error (.storage .other ("scan session " ++ toString session ++
        " is not in_progress (status: " ++ p.status.asStr ++ ")"))

/-- `prior_session_needs_recovery_in_tx`: last seen by a session that is not
known to have completed. -/
def priorSessionNeedsRecovery (s : Store) (prior : Option SessionId) : Bool :=
  match prior with
  | none => false
  | some prior => ((s.session prior).map (·.status)) ≠ some .completed

/-- `find_move_candidate_in_tx`: the first missing row with the hash whose path
lies under the session's roots. -/
def findMoveCandidate (s : Store) (session : SessionId) (contentHash : Hash) :
    Option (FileRow × Path) :=
  let roots := ((s.session session).map (·.roots)).getD []
  s.files.findSome? fun r =>
    match r.path with
    | some path =>
      if r.expectedHash = some contentHash ∧ r.status = .missing ∧ isUnderAny path roots = true then
        some (r, path)
      else none
    | none => none

/-- `recover_stub_in_tx`: delete the row and its transitions and clear what
points to it. -/
def recoverStub (s : Store) (existingId : Uuid) : Except VoomError Store :=
  let files := s.files.map fun r =>
    if r.supersededBy = some existingId then { r with supersededBy := none } else r
  let cleared : Store := { s with files }
  (cleared.deleteTransitions existingId).deleteFile "failed to delete stub file row" existingId

def discoveryTransition (fileId : Uuid) (file : DiscoveredFile) : FileTransition :=
  { fileId, path := file.path, toHash := file.contentHash, toSize := file.size,
    source := .discovery }

/-- A move found by its content: the row has a new path. -/
def moveTransition (fileId : Uuid) (fromPath : Path) (file : DiscoveredFile) : FileTransition :=
  { discoveryTransition fileId file with
    fromPath := some fromPath, sourceDetail := some "detected_move" }

/-- `ingest_unchanged_in_tx`, with the backfill of a missing expected hash. -/
def ingestUnchanged (ctx : IngestCtx) (existing : FileRow) (s : Store) : Store :=
  s.modifyFile existing.id fun r =>
    { r with size := ctx.file.size, contentHash := ctx.file.contentHash, status := .active,
             lastSeenSession := some ctx.session,
             expectedHash := if existing.expectedHash.isNone then some ctx.file.contentHash
               else r.expectedHash }

/-- `insert_active_file_in_tx`: the row has no tracks yet. -/
def insertActiveFile (ctx : IngestCtx) (s : Store) : Store :=
  { s with files := s.files ++
    [{ id := ctx.newId, path := some ctx.file.path, size := ctx.file.size,
       contentHash := ctx.file.contentHash, expectedHash := some ctx.file.contentHash,
       status := .active, introspectedAt := ctx.now, createdAt := ctx.now,
       lastSeenSession := some ctx.session }] }

/-- `ingest_externally_changed_in_tx`: the old row gives up its path to a new one. -/
def ingestExternallyChanged (ctx : IngestCtx) (existing : FileRow) (s : Store) : Store :=
  let s := s.addTransition
    { fileId := existing.id, path := ctx.file.path, toHash := ctx.file.contentHash,
      toSize := ctx.file.size, source := .external, fromHash := existing.expectedHash,
      fromSize := some existing.size }
  let s := s.modifyFile existing.id fun r =>
    { r with path := none, status := .missing, supersededBy := some ctx.newId }
  (insertActiveFile ctx s).addTransition (discoveryTransition ctx.newId ctx.file)

/-- `ingest_moved_in_tx`: the missing row is found again at the new path. -/
def ingestMoved (ctx : IngestCtx) (missing : FileRow) (priorPath : Path) (s : Store) : Store :=
  (s.modifyFile missing.id fun r =>
    { r with path := some ctx.file.path, size := ctx.file.size,
             contentHash := ctx.file.contentHash, status := .active,
             lastSeenSession := some ctx.session }).addTransition
    (moveTransition missing.id priorPath ctx.file)

def ingestNew (ctx : IngestCtx) (s : Store) : Store :=
  (insertActiveFile ctx s).addTransition (discoveryTransition ctx.newId ctx.file)

/-- The no-row path of an ingest: a move or a new file. -/
def ingestNoRow (ctx : IngestCtx) (s : Store) : Store × IngestDecision :=
  match findMoveCandidate s ctx.session ctx.file.contentHash with
  | some (missing, priorPath) =>
    (ingestMoved ctx missing priorPath s, .moved missing.id priorPath)
  | none => (ingestNew ctx s, .new ctx.newId true)

/-- `ingest_discovered_file`. -/
def ingestDiscoveredFile (ctx : IngestCtx) (s : Store) : Except VoomError (Store × IngestDecision) :=
  match validateSessionInProgress s ctx.session with
  | .error e => .error e
  | .ok () =>
    match s.fileAt ctx.file.path with
    | none => .ok (ingestNoRow ctx s)
    | some existing =>
      if existing.lastSeenSession = some ctx.session then .ok (s, .duplicate existing.id)
      else if priorSessionNeedsRecovery s existing.lastSeenSession then
        match recoverStub s existing.id with
        | .error e => .error e
        | .ok s => .ok (ingestNoRow ctx s)
      else if existing.expectedHash = none ∨ existing.expectedHash = some ctx.file.contentHash then
        .ok (ingestUnchanged ctx existing s, .unchanged existing.id)
      else
        .ok (ingestExternallyChanged ctx existing s, .externallyChanged ctx.newId existing.id)

/-! ## Finishing -/

/-- A row that is active but was not seen by the session. -/
def unseen (session : SessionId) (r : FileRow) : Bool :=
  r.status = .active ∧ r.path.isSome ∧ r.lastSeenSession ≠ some session

/-- Whether a row has a path under the roots. -/
def underRoots (roots : List Path) (r : FileRow) : Bool :=
  r.path.any fun path => isUnderAny path roots

structure MissingCandidate where
  id : Uuid
  path : Path
  expectedHash : Hash
  deriving DecidableEq, Repr

/-- The rows `promote_moves_in_tx` considers. -/
def moveCandidates (session : SessionId) (roots : List Path) (s : Store) : List MissingCandidate :=
  (s.files.filter fun r => unseen session r && underRoots roots r).filterMap fun r =>
    match r.path, r.expectedHash with
    | some path, some expectedHash => some ⟨r.id, path, expectedHash⟩
    | _, _ => none

/-- The target of a promotion: a row of this session that was created since it
started, has the hash and supersedes nothing. -/
def promotionTarget (c : MissingCandidate) (session : SessionId) (startedAt : Time) (s : Store) :
    Option FileRow :=
  s.files.find? fun r =>
    r.lastSeenSession = some session ∧ r.contentHash = c.expectedHash ∧ startedAt ≤ r.createdAt ∧
      r.path.isSome ∧ r.id ≠ c.id ∧ ¬ s.files.any fun old => old.supersededBy = some r.id

/-- `try_promote_one_move_in_tx`. -/
def tryPromoteOneMove (c : MissingCandidate) (session : SessionId) (startedAt : Time) (s : Store) :
    Except VoomError (Store × Bool) :=
  match promotionTarget c session startedAt s with
  | none => .ok (s, false)
  | some target =>
    match (s.deleteTransitions target.id).deleteFile
        "failed to delete New row for move promotion" target.id with
    | .error e => .error e
    | .ok s =>
      let s := s.modifyFile c.id fun r =>
        { r with path := target.path, size := target.size, contentHash := c.expectedHash,
                 status := .active, lastSeenSession := some session }
      .ok (s.addTransition (moveTransition c.id c.path
        ⟨target.path.getD ⟨[]⟩, target.size, c.expectedHash⟩), true)

/-- `promote_moves_in_tx`; the candidates are selected up front. -/
def promoteMoves (session : SessionId) (startedAt : Time) :
    List MissingCandidate → Store → Except VoomError (Store × Nat)
  | [], s => .ok (s, 0)
  | c :: rest, s =>
    match tryPromoteOneMove c session startedAt s with
    | .error e => .error e
    | .ok (s, promoted) =>
      match promoteMoves session startedAt rest s with
      | .error e => .error e
      | .ok (s, n) => .ok (s, if promoted then n + 1 else n)

/-- The rows `mark_missing_in_finish_tx` marks: unseen, under the roots and not
touched by VOOM itself. -/
def markedMissing (session : SessionId) (roots : List Path) (s : Store) (r : FileRow) : Bool :=
  unseen session r && underRoots roots r &&
    !(s.mutations.any fun m => m.1 = session ∧ some m.2 = r.path)

def markMissingInFinish (session : SessionId) (roots : List Path) (s : Store) : Store × Nat :=
  ({ s with files := s.files.map fun r =>
      if markedMissing session roots s r then { r with status := .missing } else r },
    (s.files.filter (markedMissing session roots s)).length)

/-- `finish_scan_session`. -/
def finishScanSession (session : SessionId) (now : Time) (s : Store) :
    Except VoomError (Store × ScanFinishOutcome) :=
  match s.session session with
  | none => .error (.storage .other ("unknown scan session " ++ toString session))
  | some p =>
    if p.status ≠ .inProgress then
      .error (.storage .other ("scan session " ++ toString session ++
        " is not in_progress (status: " ++ p.status.asStr ++ ")"))
    else
      match promoteMoves session p.startedAt (moveCandidates session p.roots s) s with
      | .error e => .error e
      | .ok (s, promotedMoves) =>
        let (s, missing) := markMissingInFinish session p.roots s
        .ok ({ s with sessions := s.sessions.map fun q =>
            if q.id = session then { q with status := .completed, lastHeartbeatAt := now } else q },
          ⟨missing, promotedMoves⟩)

end Voom.Storage
