-- SUMMARY: Verification records: the queries of the database and the loops of the in-memory store.
import Mathlib.Data.List.Dedup
import Mathlib.Data.Prod.Lex
import Mathlib.Data.String.Basic
import Mathlib.Tactic.Simps.Basic
import Voom.Domain.Rfc3339
import Voom.Lib.Window
import Voom.Storage.FileReading

/-!
# Verification records

Two stores keep media files and the records of their verifications. The
database answers with aggregates and window functions over texts; the in-memory
store, which stands for it in tests, loops over its files.
-/

namespace Voom.Storage

open Voom.Lib Voom.Lib.Sql Voom.Rfc3339 Voom.Storage.Sqlite

/-! ## Records -/

inductive VerificationMode where
  | quick
  | thorough
  | hash
  deriving DecidableEq, Repr

def VerificationMode.asStr : VerificationMode → String
  | .quick => "quick"
  | .thorough => "thorough"
  | .hash => "hash"

inductive VerificationOutcome where
  | ok
  | warning
  | error
  deriving DecidableEq, Repr

def VerificationOutcome.asStr : VerificationOutcome → String
  | .ok => "ok"
  | .warning => "warning"
  | .error => "error"

/-- A single persisted verification result. -/
structure VerificationRecord where
  id : Uuid
  fileId : String
  verifiedAt : DateTime
  mode : VerificationMode
  outcome : VerificationOutcome
  errorCount : Nat
  warningCount : Nat
  contentHash : Option Hash
  details : Option String
  deriving DecidableEq

/-- Aggregate integrity summary across the library. -/
structure IntegritySummary where
  totalFiles : Nat
  neverVerified : Nat
  stale : Nat
  withErrors : Nat
  withWarnings : Nat
  hashMismatches : Nat
  deriving DecidableEq, Repr

/-! ## The database -/

/-- A row of `verifications`. -/
structure VerificationRow where
  id : String
  fileId : String
  verifiedAt : List Char
  mode : String
  outcome : String
  errorCount : Int
  warningCount : Int
  contentHash : Option Hash
  details : Option String
  deriving DecidableEq

/-- `insert_verification` -/
@[simps] def verificationRow (env : FileEnv) (record : VerificationRecord) : VerificationRow where
  id := env.uuid record.id
  fileId := record.fileId
  verifiedAt := formatIso record.verifiedAt
  mode := record.mode.asStr
  outcome := record.outcome.asStr
  errorCount := record.errorCount
  warningCount := record.warningCount
  contentHash := record.contentHash
  details := record.details

structure VerificationDb where
  files : List Row
  verifications : List VerificationRow

namespace VerificationDb

def isActive (f : Row) : Bool := f "status" = .text FileStatus.active.asStr

/-- `v.file_id = f.id` -/
def isOf (f : Row) (v : VerificationRow) : Bool := f "id" = .text v.fileId

variable (db : VerificationDb)

/-- `MAX(verified_at)` of the group of a file, `NULL` where the outer join finds none. -/
def lastAt (f : Row) : Option (List Char) :=
  ((db.verifications.filter (isOf f)).map (·.verifiedAt)).max?

/-- `INTEGRITY_FILE_AGGREGATES_SQL`: `total_files`, `never_verified` and `stale`. -/
def integrityFileAggregates (since : List Char) : Nat × Nat × Nat :=
  let files := db.files.filter isActive
  (files.length, (files.filter fun f => (db.lastAt f).isNone).length,
    (files.filter fun f => (db.lastAt f).any (· < since)).length)

/-- `FROM verifications v JOIN files f ON f.id = v.file_id WHERE f.status = 'active'`. The
identifier is the key of the files. -/
def activeVerifications : List VerificationRow :=
  db.verifications.filter fun v => db.files.any fun f => isOf f v && isActive f

/-- The rows of `latest` with `rn = 1`. -/
def latestVerifications : List VerificationRow :=
  db.activeVerifications.filter fun v =>
    Window.rowNumber (fun v => OrderDual.toDual (toLex (v.verifiedAt, v.id)))
      (db.activeVerifications.filter (·.fileId = v.fileId)) v = 1

/-- `INTEGRITY_OUTCOME_AGGREGATES_SQL`: `with_errors` and `with_warnings`. -/
def integrityOutcomeAggregates : Nat × Nat :=
  ((db.latestVerifications.filter (·.outcome = "error")).length,
    (db.latestVerifications.filter (·.outcome = "warning")).length)

/-- `prev_hash IS NOT NULL AND prev_hash <> content_hash` -/
def hashesDiffer : Option Hash → Option Hash → Bool
  | some previous, some hash => previous ≠ hash
  | _, _ => false

def hashVerifications : List VerificationRow := db.verifications.filter (·.mode = "hash")

/-- The rows with `rn = 1` whose `LAG` has another hash. -/
def changedHashes : List VerificationRow :=
  db.hashVerifications.filter fun v =>
    let partition := db.hashVerifications.filter (·.fileId = v.fileId)
    Window.rowNumber (fun v => OrderDual.toDual v.verifiedAt) partition v = 1 &&
      (Window.lag (·.verifiedAt) partition v).any fun previous =>
        hashesDiffer previous.contentHash v.contentHash

/-- `INTEGRITY_HASH_MISMATCHES_SQL`: a count of distinct files. -/
def integrityHashMismatches : Nat := (db.changedHashes.map (·.fileId)).dedup.length

def integritySummary (since : DateTime) : IntegritySummary :=
  let (totalFiles, neverVerified, stale) := db.integrityFileAggregates (formatIso since)
  let (withErrors, withWarnings) := db.integrityOutcomeAggregates
  { totalFiles, neverVerified, stale, withErrors, withWarnings,
    hashMismatches := db.integrityHashMismatches }

/-- What the query for due files selects. -/
def dueColumns : List String :=
  ["id", "path", "size", "content_hash", "expected_hash", "status", "container", "duration",
   "bitrate", "tags", "plugin_metadata", "introspected_at"]

/-- `row_to_due_file` -/
def rowToDueFile (env : FileEnv) (r : Selected) : Except RowError MediaFile := do
  let path ← r.get asString "path"
  let id ← r.get asString "id"
  let fileId ← (env.parseUuid id).mapError fun e =>
    .conversion ("invalid UUID in files: " ++ id ++ ": " ++ e)
  let size ← r.get asI64 "size"
  let contentHash ← r.get (asOption asString) "content_hash"
  let expectedHash ← r.get (asOption asString) "expected_hash"
  let status ← r.get asString "status"
  let container ← r.get asString "container"
  let duration ← r.get (asOption asF64) "duration"
  let bitrate ← r.get (asOption asI32) "bitrate"
  let introspectedAt ← r.get asString "introspected_at"
  let introspected ← (env.parseDatetime introspectedAt).mapError fun e =>
    .conversion ("corrupt datetime in files.introspected_at: " ++ introspectedAt ++ ": " ++ e)
  return {
    id := fileId, path := .ofText path, size := size.toNat
    contentHash := contentHash.filter (· ≠ "")
    expectedHash, status := (parseStatus status).getD .active
    container := .fromExtension container, duration := duration.getD (.finite 0)
    bitrate := (bitrate.filter (0 ≤ ·)).map Int.toNat, introspectedAt := introspected }

/-- The text of an identifier sorts the rows. -/
def idLe (f f' : Row) : Bool :=
  match f "id", f' "id" with
  | .text id, .text id' => id ≤ id'
  | .text _, _ => false
  | _, _ => true

def listFilesDueForVerification (env : FileEnv) (cutoff : DateTime) :
    Except ReadError (List MediaFile) :=
  let due := db.files.filter fun f =>
    isActive f && f "path" ≠ .null && (db.lastAt f).all (· < formatIso cutoff)
  storageErr "failed to read files due for verification"
    ((due.mergeSort idLe).mapM fun f => rowToDueFile env ⟨dueColumns, f⟩)

end VerificationDb

/-! ## The in-memory store -/

structure InMemoryStore where
  files : List MediaFile
  verifications : List VerificationRecord

namespace InMemoryStore

/-- The comparison of `max_by`: by time, and by identifier at the same time. -/
def recordKey (r : VerificationRecord) : DateTime ×ₗ Uuid := toLex (r.verifiedAt, r.id)

variable (env : FileEnv) (store : InMemoryStore)

def ofFile (file : MediaFile) : List VerificationRecord :=
  store.verifications.filter (·.fileId = env.uuid file.id)

def latest (file : MediaFile) : Option VerificationRecord :=
  Window.maxBy recordKey (store.ofFile env file)

def hashChangedForLatest (fileId : String) (latest : VerificationRecord) : Bool :=
  if latest.mode ≠ .hash then false
  else
    let hashed := store.verifications.filter fun r => r.fileId = fileId && r.mode = .hash
    (Window.maxBy (·.verifiedAt) (hashed.filter (·.verifiedAt < latest.verifiedAt))).any
      (·.contentHash ≠ latest.contentHash)

/-- One round of the loop over the active files. -/
def tally (since : DateTime) (s : IntegritySummary) (file : MediaFile) : IntegritySummary :=
  match store.latest env file with
  | some record =>
    let s := if record.verifiedAt < since then { s with stale := s.stale + 1 } else s
    let s := if record.outcome = .error then { s with withErrors := s.withErrors + 1 } else s
    let s := if record.outcome = .warning then { s with withWarnings := s.withWarnings + 1 } else s
    if store.hashChangedForLatest (env.uuid file.id) record then
      { s with hashMismatches := s.hashMismatches + 1 }
    else s
  | none => { s with neverVerified := s.neverVerified + 1 }

def activeFiles : List MediaFile := store.files.filter (·.status = .active)

def integritySummary (since : DateTime) : IntegritySummary :=
  store.activeFiles.foldl (store.tally env since) ⟨store.activeFiles.length, 0, 0, 0, 0, 0⟩

def listFilesDueForVerification (cutoff : DateTime) : List MediaFile :=
  (store.activeFiles.filter fun file =>
    (store.latest env file).all (·.verifiedAt < cutoff)).mergeSort (·.id ≤ ·.id)

end InMemoryStore

end Voom.Storage
