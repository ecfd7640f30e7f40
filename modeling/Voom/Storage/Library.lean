-- SUMMARY: The library database over whole histories: scans, introspections, executed plans and the upkeep of missing files.
import Voom.Storage.Protocol
import Voom.Storage.Rows

/-!
# The library database

The store with what the upkeep of files needs besides: the column
`missing_since` of its rows and the paths in `bad_files`. `LibraryOp` has every
operation that writes the `files` table; a run is a list of them, each in a
transaction of its own, with any clock readings and any drawn ids.
-/

namespace Voom.Storage

open Lib

structure Library where
  store : Store := {}
  /-- The column `missing_since`, by the id of the row. -/
  missingSince : Uuid → Option Time := fun _ => none
  /-- The paths of `bad_files`. -/
  badFiles : List Path := []

namespace Library

/-- No two rows have the same value in the column, `NULL` apart. -/
def Distinct {β : Type} (column : FileRow → Option β) (rows : List FileRow) : Prop :=
  ∀ r ∈ rows, ∀ r' ∈ rows, column r = column r' → column r ≠ none → r = r'

instance {β : Type} [DecidableEq β] (column : FileRow → Option β) (rows : List FileRow) :
    Decidable (Distinct column rows) :=
  inferInstanceAs (Decidable (∀ r ∈ rows, ∀ r' ∈ rows, _ → _ → _))

/-- The unique columns of `files`: `id`, `path` and `superseded_by`. -/
structure Unique (s : Store) : Prop where
  ids : Table.Keyed FileRow.id s.files
  paths : Distinct FileRow.path s.files
  links : Distinct FileRow.supersededBy s.files

instance (s : Store) : Decidable (Unique s) :=
  decidable_of_iff ((s.files.map FileRow.id).Nodup ∧ Distinct FileRow.path s.files ∧
      Distinct FileRow.supersededBy s.files)
    ⟨fun h => ⟨h.1, h.2.1, h.2.2⟩, fun h => ⟨h.ids, h.paths, h.links⟩⟩

/-- Set the column `missing_since` of some rows. -/
def setMissingSince (ids : List Uuid) (value : Option Time) (since : Uuid → Option Time) :
    Uuid → Option Time :=
  fun id => if id ∈ ids then value else since id

/-- The store an operation would leave, unless a unique column refuses it. -/
def keeping (l : Library) (s : Store) (missingSince : Uuid → Option Time) : Library :=
  if Unique s then { l with store := s, missingSince } else l

/-! ## Scans -/

/-- `missing_since` after an ingest: a row found again is not missing, one that
gave up its path is, and one that is inserted was never. -/
def ingestMissingSince (now : Time) (since : Uuid → Option Time) :
    IngestDecision → Uuid → Option Time
  | .new fileId _ => setMissingSince [fileId] none since
  | .unchanged fileId => setMissingSince [fileId] none since
  | .externallyChanged fileId superseded =>
    setMissingSince [fileId] none (setMissingSince [superseded] (some now) since)
  | .moved fileId _ => setMissingSince [fileId] none since
  | .duplicate _ => since

/-- The rows a finish promotes. -/
def promotedIds (session : SessionId) (startedAt : Time) : List MissingCandidate → Store → List Uuid
  | [], _ => []
  | c :: rest, s =>
    match tryPromoteOneMove c session startedAt s with
    | .error _ => []
    | .ok (s', true) => c.id :: promotedIds session startedAt rest s'
    | .ok (s', false) => promotedIds session startedAt rest s'

/-- `missing_since` after a finish: promoted rows are back, unseen ones missing. -/
def finishMissingSince (session : SessionId) (now : Time) (s : Store)
    (since : Uuid → Option Time) : Uuid → Option Time :=
  match s.session session with
  | none => since
  | some p =>
    let candidates := moveCandidates session p.roots s
    match promoteMoves session p.startedAt candidates s with
    | .error _ => since
    | .ok (t, _) =>
      let missing := (t.files.filter (markedMissing session p.roots t)).map (·.id)
      setMissingSince missing (some now)
        (setMissingSince (promotedIds session p.startedAt candidates s) none since)

/-- A call of the scan-session protocol. -/
def sessionCall (c : SessionCall) (l : Library) : Library :=
  match c with
  | .ingest ctx =>
    match ingestDiscoveredFile ctx l.store with
    | .error _ => l
    | .ok (s, decision) => l.keeping s (ingestMissingSince ctx.now l.missingSince decision)
  | .finish session now =>
    match finishScanSession session now l.store with
    | .error _ => l
    | .ok (s, _) => l.keeping s (finishMissingSince session now l.store l.missingSince)
  | .begin _ _ _ | .cancel _ _ | .heartbeat _ _ => { l with store := c.step l.store }

/-! ## Introspections -/

/-- `upsert_file`; an upsert leaves the column `missing_since` of a row at the
path alone, an inserted row has none. -/
def upsertFile (file : MediaFile) (now : Time) (l : Library) : Library :=
  match Storage.upsertFile file now l.store with
  | .error _ => l
  | .ok s =>
    l.keeping s (if l.store.fileAt file.path = none then
      setMissingSince [file.id] none l.missingSince else l.missingSince)

/-- `delete_bad_file_by_path`. -/
def deleteBadFileByPath (path : Path) (l : Library) : Library :=
  { l with badFiles := l.badFiles.filter (· ≠ path) }

/-- `upsert_bad_file`, as far as the paths go. -/
def upsertBadFile (path : Path) (l : Library) : Library :=
  if path ∈ l.badFiles then l else { l with badFiles := l.badFiles ++ [path] }

/-- `handle_file_introspected`: the file is good, and is stored. -/
def fileIntrospected (file : MediaFile) (now : Time) (l : Library) : Library :=
  match Storage.upsertFile file now l.store with
  | .error _ => l
  | .ok _ => deleteBadFileByPath file.path (upsertFile file now l)

/-! ## Executed plans -/

/-- Another row has the path to which the row of an id is renamed. -/
def pathTaken (id : Uuid) (path : Path) (l : Library) : Bool :=
  l.store.files.any (·.id = id) && l.store.files.any fun r => r.id ≠ id ∧ r.path = some path

/-- `UPDATE files SET path`. -/
def renameStmt (id : Uuid) (path : Path) : Tx VoomError Library Unit :=
  Tx.guarded (pathTaken id path)
    (.storage .constraintViolation
      "failed to rename file path in bundle: UNIQUE constraint failed: files.path")
    fun l => { l with store := l.store.modifyFile id fun r => { r with path := some path } }

/-- `insert_full_transition_in_tx`; the id it drew may be taken. -/
def insertTransitionStmt (transition : FileTransition) (idTaken : Bool) :
    Tx VoomError Library Unit :=
  Tx.guarded (fun _ => idTaken)
    (.storage .constraintViolation
      "failed to insert transition: UNIQUE constraint failed: file_transitions.id")
    fun l => { l with store := l.store.addTransition transition }

def expectedHashStmt (id : Uuid) (hash : Hash) : Tx VoomError Library Unit :=
  Tx.statement fun l =>
    { l with store := l.store.modifyFile id fun r => { r with expectedHash := some hash } }

/-- The statements of `record_post_execution` after the rename. -/
def recordAfterRename (newExpectedHash : Option Hash) (transition : FileTransition)
    (idTaken : Bool) : Tx VoomError Library Unit := do
  insertTransitionStmt transition idTaken
  match newExpectedHash with
  | some hash => expectedHashStmt transition.fileId hash
  | none => pure ()
  Tx.statement (deleteBadFileByPath transition.path)

/-- `record_post_execution`, statement by statement. -/
def recordPostExecutionTx (newPath : Option Path) (newExpectedHash : Option Hash)
    (transition : FileTransition) (idTaken : Bool) : Tx VoomError Library Unit := do
  match newPath with
  | some path => renameStmt transition.fileId path
  | none => pure ()
  recordAfterRename newExpectedHash transition idTaken

theorem modifyFile_of_absent {s : Store} {id : Uuid} {f : FileRow → FileRow}
    (h : s.files.any (·.id = id) = false) : s.modifyFile id f = s := by
  unfold Store.modifyFile Table.modify
  have hrows : (s.files.map fun r => if r.id = id then f r else r) = s.files := by
    conv_rhs => rw [← List.map_id s.files]
    refine List.map_congr_left fun r hr => if_neg fun hid => ?_
    exact absurd (by simpa using hid) (List.any_eq_false.mp h r hr)
  rw [hrows]

/-- The rename as a statement and as the first part of `recordPostExecution`. -/
theorem renameStmt_apply (id : Uuid) (path : Path) (l : Library) :
    renameStmt id path l =
      if l.store.files.any fun r => r.id ≠ id ∧ r.path = some path then
        if l.store.files.any (·.id = id) then
          (.error (.storage .constraintViolation
            "failed to rename file path in bundle: UNIQUE constraint failed: files.path"), l)
        else (.ok (), l)
      else
        (.ok (), { l with store := l.store.modifyFile id fun r => { r with path := some path } }) := by
  cases hother : l.store.files.any fun r => r.id ≠ id ∧ r.path = some path with
  | false =>
    have hfree : pathTaken id path l = false := by rw [pathTaken, hother, Bool.and_false]
    exact Tx.guarded_apply hfree
  | true =>
    cases hid : l.store.files.any (·.id = id) with
    | false =>
      -- No row is renamed, so none can clash.
      have hfree : pathTaken id path l = false := by rw [pathTaken, hid, Bool.false_and]
      unfold renameStmt
      rw [Tx.guarded_apply hfree, modifyFile_of_absent hid]
      rfl
    | true =>
      have htaken : pathTaken id path l = true := by rw [pathTaken, hid, hother, Bool.and_self]
      exact Tx.guarded_apply htaken

theorem recordAfterRename_apply (newExpectedHash : Option Hash) (transition : FileTransition)
    (idTaken : Bool) (l : Library) :
    recordAfterRename newExpectedHash transition idTaken l =
      if idTaken then
        (.error (.storage .constraintViolation
          "failed to insert transition: UNIQUE constraint failed: file_transitions.id"), l)
      else (.ok (), deleteBadFileByPath transition.path { l with
        store := match newExpectedHash with
          | none => l.store.addTransition transition
          | some hash => (l.store.addTransition transition).modifyFile transition.fileId
              fun r => { r with expectedHash := some hash } }) := by
  unfold recordAfterRename
  rw [Tx.bind_apply]
  cases idTaken with
  | true => rfl
  | false => cases newExpectedHash <;> rfl

/-- What the statements of a post-execution record commit is what
`recordPostExecution` computes, unless the transition's id is taken. -/
theorem commit_recordPostExecutionTx (newPath : Option Path) (newExpectedHash : Option Hash)
    (transition : FileTransition) (idTaken : Bool) (l : Library) :
    (recordPostExecutionTx newPath newExpectedHash transition idTaken).commit l =
      match Storage.recordPostExecution newPath newExpectedHash transition l.store with
      | .error e => (.error e, l)
      | .ok s =>
        if idTaken then
          (.error (.storage .constraintViolation
            "failed to insert transition: UNIQUE constraint failed: file_transitions.id"), l)
        else (.ok (), deleteBadFileByPath transition.path { l with store := s }) := by
  unfold Storage.recordPostExecution Tx.commit
  cases newPath with
  | none =>
    have hbody : recordPostExecutionTx none newExpectedHash transition idTaken l =
        recordAfterRename newExpectedHash transition idTaken l := rfl
    rw [hbody, recordAfterRename_apply]
    cases idTaken <;> cases newExpectedHash <;> rfl
  | some path =>
    have hbody : recordPostExecutionTx (some path) newExpectedHash transition idTaken l =
        (renameStmt transition.fileId path >>= fun _ =>
          recordAfterRename newExpectedHash transition idTaken) l := rfl
    rw [hbody, Tx.bind_apply, renameStmt_apply]
    dsimp only
    cases l.store.files.any fun r => r.id ≠ transition.fileId ∧ r.path = some path with
    | true =>
      cases l.store.files.any (·.id = transition.fileId) with
      | true => rfl
      | false =>
        simp only [if_true, if_false, Bool.false_eq_true, recordAfterRename_apply]
        cases idTaken <;> cases newExpectedHash <;> rfl
    | false =>
      simp only [if_false, Bool.false_eq_true, recordAfterRename_apply]
      cases idTaken <;> cases newExpectedHash <;> rfl

/-! ## Missing files -/

/-- `mark_missing`: only an active row. -/
def markMissing (id : Uuid) (now : Time) (l : Library) : Library :=
  { l with
    store := l.store.modifyFile id fun r =>
      if r.status = .active then { r with status := .missing } else r
    missingSince :=
      setMissingSince ((l.store.files.filter fun r => r.id = id ∧ r.status = .active).map (·.id))
        (some now) l.missingSince }

/-- `reactivate_file`: whatever row it is, it is active at the path again. -/
def reactivateFile (id : Uuid) (newPath : Path) (l : Library) : Library :=
  l.keeping (l.store.modifyFile id fun r => { r with status := .active, path := some newPath })
    (setMissingSince [id] none l.missingSince)

/-- `status = 'missing' AND missing_since < cutoff`. -/
def purgeable (l : Library) (cutoff : Time) (r : FileRow) : Bool :=
  r.status = .missing ∧ (l.missingSince r.id).any (· < cutoff)

/-- `purge_missing`: two statements without a transaction around them, so the
transitions are gone even if a reference refuses the deletion of the rows. -/
def purgeMissing (olderThan : Time) (l : Library) : Library :=
  let purged := l.store.files.filter (l.purgeable olderThan)
  let s : Store := { l.store with
    transitions := l.store.transitions.filter fun t => ¬ purged.any fun r => r.id = t.fileId }
  if purged.any fun r => s.transcodeOutcomes.contains r.id then { l with store := s }
  else { l with store := { s with files := s.files.filter fun r => !l.purgeable olderThan r } }

end Library

/-! ## Histories -/

inductive LibraryOp where
  | session (call : SessionCall)
  | upsertFile (file : MediaFile) (now : Time)
  | fileIntrospected (file : MediaFile) (now : Time)
  | upsertBadFile (path : Path)
  | recordPostExecution (newPath : Option Path) (newExpectedHash : Option Hash)
      (transition : FileTransition) (idTaken : Bool)
  | markMissing (id : Uuid) (now : Time)
  | reactivateFile (id : Uuid) (newPath : Path)
  | purgeMissing (olderThan : Time)

/-- The library after an operation; one that fails leaves it as it was. -/
def LibraryOp.step (l : Library) : LibraryOp → Library
  | .session call => l.sessionCall call
  | .upsertFile file now => l.upsertFile file now
  | .fileIntrospected file now => l.fileIntrospected file now
  | .upsertBadFile path => l.upsertBadFile path
  | .recordPostExecution newPath newExpectedHash transition idTaken =>
    ((Library.recordPostExecutionTx newPath newExpectedHash transition idTaken).commit l).2
  | .markMissing id now => l.markMissing id now
  | .reactivateFile id newPath => l.reactivateFile id newPath
  | .purgeMissing olderThan => l.purgeMissing olderThan

/-- The library after a history, from an empty database. -/
def runLibrary (ops : List LibraryOp) : Library := ops.foldl LibraryOp.step {}

end Voom.Storage
