-- SUMMARY: `upsert_file` on the database: the row of a file and the rows of its tracks.
import Voom.Domain.Media
import Voom.Lib.Outcome
import Voom.Migration.Schema

/-!
# Storing a media file

`upsert_file` is one transaction: it drops the tracks stored for the path, writes the
row of the file under the identifier the path already has, and inserts the tracks anew.
The texts of identifiers, times and JSON documents are parameters.
-/

namespace Voom.Storage.Sqlite

open Voom.Lib.Sql Voom.Storage.Schema

structure UpsertEnv where
  uuid : Uuid → String
  formatDatetime : Time → String
  rfc3339 : Time → String
  tagsJson : List (String × String) → String
  metadataJson : List (String × Json) → String

inductive StoreError where
  | sql (error : SqlError)
  | columnType (column : String)
  deriving DecidableEq, Repr

/-! ## Parameters -/

namespace Param

/-- A parameter that may be absent. -/
def optional {α : Type} (f : α → Value) (value : Option α) : Value := value.elim .null f

def nat (n : Nat) : Value := .integer n

def bool (b : Bool) : Value := .integer (if b then 1 else 0)

/-- SQLite stores a NaN as `NULL`. -/
def float : F64 → Value
  | .finite value => .real value
  | .infinity negative => .infinity negative
  | .nan => .null

/-- `as i64` of a 64-bit size. -/
def size (n : Nat) : Value :=
  .integer (if n % 2 ^ 64 < 2 ^ 63 then n % 2 ^ 64 else n % 2 ^ 64 - 2 ^ 64)

end Param

section

variable (env : UpsertEnv)

/-! ## The file -/

def fileRow (id : String) (file : MediaFile) (now : Time) : Row :=
  row
    [ ("id", .text id),
      ("path", .text file.path.display),
      ("filename", .text file.fileName),
      ("size", Param.size file.size),
      ("content_hash", .text (file.contentHash.getD "")),
      ("status", .text file.status.asStr),
      ("container", .text file.container.asStr),
      ("duration", Param.float file.duration),
      ("bitrate", Param.optional Param.nat file.bitrate),
      ("crop_left", Param.optional (Param.nat ·.left) file.cropDetection),
      ("crop_top", Param.optional (Param.nat ·.top) file.cropDetection),
      ("crop_right", Param.optional (Param.nat ·.right) file.cropDetection),
      ("crop_bottom", Param.optional (Param.nat ·.bottom) file.cropDetection),
      ("crop_detected_at",
        Param.optional (fun d => .text (env.formatDatetime d.detectedAt)) file.cropDetection),
      ("crop_settings_fingerprint",
        Param.optional .text (file.cropDetection.bind (·.settingsFingerprint))),
      ("tags", .text (env.tagsJson file.tags)),
      ("plugin_metadata", .text (env.metadataJson file.pluginMetadata)),
      ("introspected_at", .text (env.formatDatetime file.introspectedAt)),
      ("created_at", .text (env.formatDatetime now)),
      ("updated_at", .text (env.formatDatetime now)) ]

/-- The columns of `DO UPDATE SET`. -/
def updatedColumns : List String :=
  ["filename", "size", "content_hash", "status", "container", "duration", "bitrate", "crop_left",
   "crop_top", "crop_right", "crop_bottom", "crop_detected_at", "crop_settings_fingerprint",
   "tags", "plugin_metadata", "introspected_at", "updated_at"]

def hasPath (path : String) (r : Row) : Bool := r "path" = .text path

/-- `INSERT .. ON CONFLICT(path) DO UPDATE`. A new row needs an identifier of its own. -/
def upsertFileRow (path : String) (r : Row) (files : List Row) : Except StoreError (List Row) :=
  if files.any (hasPath path) then
    .ok (files.map fun old =>
      if hasPath path old then fun c => if c ∈ updatedColumns then r c else old c else old)
  else if files.any (Row.clashes ["id"] r) then .error (.sql (.uniqueConstraint "files.id"))
  else .ok (files ++ [r])

/-- `SELECT id FROM files WHERE path = ?1`, read as a text. -/
def existingId (path : String) (files : List Row) : Except StoreError (Option String) :=
  match files.find? (hasPath path) with
  | none => .ok none
  | some r =>
    match r "id" with
    | .text id => .ok (some id)
    | _ => .error (.columnType "id")

/-! ## The tracks -/

def trackRow (id fileId : String) (track : Track) : Row :=
  row
    [ ("id", .text id),
      ("file_id", .text fileId),
      ("stream_index", Param.nat track.index),
      ("track_type", .text track.trackType.asStr),
      ("codec", .text track.codec),
      ("language", .text track.language),
      ("title", .text track.title),
      ("is_default", Param.bool track.isDefault),
      ("is_forced", Param.bool track.isForced),
      ("channels", Param.optional Param.nat track.channels),
      ("channel_layout", Param.optional .text track.channelLayout),
      ("sample_rate", Param.optional Param.nat track.sampleRate),
      ("bit_depth", Param.optional Param.nat track.bitDepth),
      ("loudness_integrated_lufs", Param.optional Param.float track.loudnessIntegratedLufs),
      ("loudness_true_peak_db", Param.optional Param.float track.loudnessTruePeakDb),
      ("loudness_range_lu", Param.optional Param.float track.loudnessRangeLu),
      ("loudness_measured_at",
        Param.optional (fun time => .text (env.rfc3339 time)) track.loudnessMeasuredAt),
      ("width", Param.optional Param.nat track.width),
      ("height", Param.optional Param.nat track.height),
      ("frame_rate", Param.optional Param.float track.frameRate),
      ("is_vfr", Param.bool track.isVfr),
      ("is_hdr", Param.bool track.isHdr),
      ("hdr_format", Param.optional .text track.hdrFormat),
      ("pixel_format", Param.optional .text track.pixelFormat),
      ("color_primaries", Param.optional .text track.colorPrimaries),
      ("color_transfer", Param.optional .text track.colorTransfer),
      ("color_matrix", Param.optional .text track.colorMatrix),
      ("max_cll", Param.optional Param.nat track.maxCll),
      ("max_fall", Param.optional Param.nat track.maxFall),
      ("master_display", Param.optional .text track.masterDisplay),
      ("dolby_vision_profile", Param.optional Param.nat track.dolbyVisionProfile),
      ("is_animation", Param.optional Param.bool track.isAnimation) ]

/-- The rows of the tracks, each under a fresh identifier. -/
def trackRows (newId : Nat → Uuid) (fileId : String) (tracks : List Track) : List Row :=
  tracks.mapIdx fun i track => trackRow env (env.uuid (newId i)) fileId track

/-- `file_id IN (SELECT id FROM files WHERE path = ?1)`. -/
def ofPath (path : String) (files : List Row) (r : Row) : Bool :=
  files.any fun file => hasPath path file && r "file_id" = file "id" && r "file_id" ≠ .null

/-- `upsert_tracks_in_tx`: one `INSERT` after the other, under the keys of the table. That a
file with the identifier exists is seen to by the caller. -/
def upsertTracksInTx : List Row → List Row → Except StoreError (List Row)
  | rows, [] => .ok rows
  | rows, r :: rest =>
    if rows.any (Row.clashes ["id"] r) then .error (.sql (.uniqueConstraint "tracks.id"))
    else if rows.any (Row.clashes ["file_id", "stream_index"] r) then
      .error (.sql (.uniqueConstraint "tracks.file_id, tracks.stream_index"))
    else upsertTracksInTx (rows ++ [r]) rest

/-! ## The transaction -/

def requireTable (db : Database) (name : String) : Except StoreError Table :=
  match db.table name with
  | some t => .ok t
  | none => .error (.sql (.noSuchTable name))

/-- Replace the rows of a table. -/
def setRows (db : Database) (name : String) (rows : List Row) : Database :=
  db.modifyTable name fun t => { t with rows }

def upsertFile (db : Database) (file : MediaFile) (newId : Nat → Uuid) (now : Time) :
    Except StoreError Database := do
  let files ← requireTable db "files"
  let path := file.path.display
  let existing ← existingId path files.rows
  let effectiveId := existing.getD (env.uuid file.id)
  let tracks ← requireTable db "tracks"
  let kept := tracks.rows.filter fun r => !ofPath path files.rows r
  let fileRows ← upsertFileRow path (fileRow env effectiveId file now) files.rows
  let rows ← upsertTracksInTx kept (trackRows env newId effectiveId file.tracks)
  return setRows (setRows db "files" fileRows) "tracks" rows

end

/-! ## What a successful upsert does -/

theorem upsertTracksInTx_eq {rows new rows' : List Row}
    (h : upsertTracksInTx rows new = .ok rows') : rows' = rows ++ new := by
  induction new generalizing rows with
  | nil => rw [← Except.ok.inj h, List.append_nil]
  | cons r rest ih =>
    simp only [upsertTracksInTx] at h
    split at h
    · cases h
    · split at h
      · cases h
      · rw [ih h, List.append_assoc, List.singleton_append]

theorem requireTable_eq {db : Database} {name : String} {t : Table}
    (h : requireTable db name = .ok t) : db.table name = some t := by
  unfold requireTable at h
  split at h
  · rename_i t' ht
    rw [ht, Except.ok.inj h]
  · cases h

/-- The path has a row, whose identifier is used, or the identifier is the one of the file. -/
theorem existingId_cases {path : String} {files : List Row} {existing : Option String}
    (h : existingId path files = .ok existing) :
    (∃ old ∈ files, hasPath path old = true ∧ ∃ id, old "id" = .text id ∧ existing = some id) ∨
      (files.any (hasPath path) = false ∧ existing = none) := by
  unfold existingId at h
  split at h
  · rename_i hnone
    exact .inr ⟨List.any_eq_false.mpr (List.find?_eq_none.mp hnone), (Except.ok.inj h).symm⟩
  · rename_i old hold
    split at h
    · rename_i id hid
      refine .inl ⟨old, List.mem_of_find?_eq_some hold, List.find?_some hold, id, hid, ?_⟩
      exact (Except.ok.inj h).symm
    · cases h

theorem upsertFileRow_cases {path : String} {r : Row} {files fileRows : List Row}
    (h : upsertFileRow path r files = .ok fileRows) :
    (files.any (hasPath path) = true ∧
        fileRows = files.map fun old =>
          if hasPath path old then fun c => if c ∈ updatedColumns then r c else old c else old) ∨
      (files.any (hasPath path) = false ∧ files.any (Row.clashes ["id"] r) = false ∧
        fileRows = files ++ [r]) := by
  unfold upsertFileRow at h
  split at h
  · rename_i hpath
    exact .inl ⟨hpath, (Except.ok.inj h).symm⟩
  · rename_i hpath
    split at h
    · cases h
    · rename_i hid
      exact .inr ⟨Bool.not_eq_true _ ▸ hpath, Bool.not_eq_true _ ▸ hid, (Except.ok.inj h).symm⟩

/-- The tracks of other paths stay, and the tracks of the file come after them. -/
theorem upsertFile_ok {env : UpsertEnv} {db db' : Database} {file : MediaFile}
    {newId : Nat → Uuid} {now : Time} (h : upsertFile env db file newId now = .ok db') :
    ∃ files tracks existing fileRows,
      db.table "files" = some files ∧ db.table "tracks" = some tracks ∧
      existingId file.path.display files.rows = .ok existing ∧
      upsertFileRow file.path.display
        (fileRow env (existing.getD (env.uuid file.id)) file now) files.rows = .ok fileRows ∧
      db' = setRows (setRows db "files" fileRows) "tracks"
        ((tracks.rows.filter fun r => !ofPath file.path.display files.rows r) ++
          trackRows env newId (existing.getD (env.uuid file.id)) file.tracks) := by
  obtain ⟨files, hfiles, h⟩ := Lib.bind_eq_ok.mp h
  obtain ⟨existing, hexisting, h⟩ := Lib.bind_eq_ok.mp h
  obtain ⟨tracks, htracks, h⟩ := Lib.bind_eq_ok.mp h
  obtain ⟨fileRows, hfileRows, h⟩ := Lib.bind_eq_ok.mp h
  obtain ⟨rows, hrows, h⟩ := Lib.bind_eq_ok.mp h
  refine ⟨files, tracks, existing, fileRows, requireTable_eq hfiles, requireTable_eq htracks,
    hexisting, hfileRows, ?_⟩
  rw [← upsertTracksInTx_eq hrows]
  exact (Except.ok.inj h).symm

end Voom.Storage.Sqlite
