-- SUMMARY: Reading files and their tracks from the database: the row mappers and the queries.
import Voom.Storage.Columns

/-!
# Reading media files

`file`, `file_by_path` and `list_files` map rows of `files` with `row_to_file`,
load the tracks of each, and build media files from both. One row that a mapper
refuses makes the whole query fail. Each mapper has a lemma that says what it
makes of the row `upsert_file` wrote, and which checks it still runs.
-/

namespace Voom.Storage.Sqlite

open Voom.Lib Voom.Lib.Sql Voom.Storage.Schema

/-- The texts of `upsert_file`, with what parses them. -/
structure FileEnv extends UpsertEnv where
  parseUuid : String → Except String Uuid
  parseDatetime : String → Except String Time
  parseTags : String → Except String (List (String × String))
  parseMetadata : String → Except String (List (String × Json))

/-- A storage error: of a statement, with its context, or of a value. -/
inductive ReadError where
  | row (context : String) (error : RowError)
  | malformed (context : String)
  | noSuchTable (name : String)
  | other (message error : String)
  deriving DecidableEq, Repr

/-- `map_err(storage_err(..))` -/
def storageErr {α : Type} (context : String) (x : Except RowError α) : Except ReadError α :=
  x.mapError (.row context)

/-- `map_err(other_storage_err(..))` -/
def otherErr {α : Type} (message : String) (x : Except String α) : Except ReadError α :=
  x.mapError (.other message)

/-- `checked_optional_i32_to_u32(row.get(column)?, field)` -/
def Selected.getU32 (r : Selected) (column field : String) : Except RowError (Option Nat) := do
  let value ← r.get (asOption asI32) column
  checkedOptional checkedI32ToU32 field value

/-- `row.get::<_, i32>(column)? != 0` -/
def Selected.getBool (r : Selected) (column : String) : Except RowError Bool := do
  let value ← r.get asI32 column
  return value ≠ 0

/-! ## Files -/

/-- What the file queries select. -/
def fileColumns : List String :=
  ["id", "path", "size", "content_hash", "expected_hash", "status", "container", "duration",
   "bitrate", "crop_left", "crop_top", "crop_right", "crop_bottom", "crop_detected_at",
   "crop_settings_fingerprint", "tags", "plugin_metadata", "introspected_at"]

/-- A row of `files`, read but not yet parsed. -/
structure FileRow where
  id : String
  path : String
  size : Nat
  contentHash : String
  expectedHash : Option String
  status : String
  container : String
  duration : Option F64
  bitrate : Option Nat
  cropLeft : Option Int
  cropTop : Option Int
  cropRight : Option Int
  cropBottom : Option Int
  cropDetectedAt : Option String
  cropSettingsFingerprint : Option String
  tags : Option String
  pluginMetadata : Option String
  introspectedAt : String

def rowToFile (r : Selected) : Except RowError FileRow := do
  let size ← r.get asI64 "size"
  let size ← checkedI64ToU64 size "files.size"
  let bitrate ← r.getU32 "bitrate" "files.bitrate"
  let id ← r.get asString "id"
  let path ← r.get (asOption asString) "path"
  let contentHash ← r.get asString "content_hash"
  let expectedHash ← r.get (asOption asString) "expected_hash"
  let status ← r.get asString "status"
  let container ← r.get asString "container"
  let duration ← r.get (asOption asF64) "duration"
  let cropLeft ← r.get (asOption asI64) "crop_left"
  let cropTop ← r.get (asOption asI64) "crop_top"
  let cropRight ← r.get (asOption asI64) "crop_right"
  let cropBottom ← r.get (asOption asI64) "crop_bottom"
  let cropDetectedAt ← r.get (asOption asString) "crop_detected_at"
  let cropSettingsFingerprint ← r.get (asOption asString) "crop_settings_fingerprint"
  let tags ← r.get (asOption asString) "tags"
  let pluginMetadata ← r.get (asOption asString) "plugin_metadata"
  let introspectedAt ← r.get asString "introspected_at"
  return {
    id, path := path.getD "", size, contentHash, expectedHash, status, container, duration,
    bitrate, cropLeft, cropTop, cropRight, cropBottom, cropDetectedAt, cropSettingsFingerprint,
    tags, pluginMetadata, introspectedAt }

/-- `FileStatus::parse` -/
def parseStatus : String → Option FileStatus
  | "active" => some .active
  | "missing" => some .missing
  | "quarantined" => some .quarantined
  | _ => none

def parseFileStatus (s : String) : Except ReadError FileStatus :=
  match parseStatus s with
  | some status => .ok status
  | none => .error (.other "unknown file status in files.status" s)

/-- `u32::try_from` of a crop edge. -/
def cropEdge (field : String) (value : Int) : Except ReadError Nat :=
  if 0 ≤ value ∧ value < 2 ^ 32 then .ok value.toNat
  else .error (.other ("invalid files." ++ field) "out of range integral type conversion attempted")

section

variable (env : FileEnv)

def parseUuid (s : String) : Except ReadError Uuid :=
  otherErr ("invalid UUID '" ++ s ++ "'") (env.parseUuid s)

def parseDatetime (s : String) : Except ReadError Time :=
  otherErr ("invalid datetime '" ++ s ++ "'") (env.parseDatetime s)

namespace FileRow

/-- A detection with an edge or its time missing is none. -/
def cropDetection (fr : FileRow) : Except ReadError (Option CropDetection) :=
  match fr.cropDetectedAt, fr.cropLeft, fr.cropTop, fr.cropRight, fr.cropBottom with
  | some detectedAt, some left, some top, some right, some bottom => do
    let left ← cropEdge "crop_left" left
    let top ← cropEdge "crop_top" top
    let right ← cropEdge "crop_right" right
    let bottom ← cropEdge "crop_bottom" bottom
    let detectedAt ← parseDatetime env detectedAt
    return some {
      left, top, right, bottom, detectedAt, settingsFingerprint := fr.cropSettingsFingerprint }
  | _, _, _, _, _ => .ok none

/-- A `HashMap` from its JSON text, empty if there is none. -/
def parseMap {α : Type} (message : String) (parse : String → Except String (List α)) :
    Option String → Except ReadError (List α)
  | none => .ok []
  | some s => otherErr message (parse s)

/-- An empty text stands for no hash. -/
def contentHashOf (s : String) : Option Hash := if s = "" then none else some s

def toMediaFile (fr : FileRow) (tracks : List Track) : Except ReadError MediaFile := do
  let tags ← parseMap "corrupt JSON in files.tags" env.parseTags fr.tags
  let pluginMetadata ←
    parseMap "corrupt JSON in files.plugin_metadata" env.parseMetadata fr.pluginMetadata
  let id ← parseUuid env fr.id
  let cropDetection ← fr.cropDetection env
  let introspectedAt ← parseDatetime env fr.introspectedAt
  let status ← parseFileStatus fr.status
  return {
    id, path := .ofText fr.path, size := fr.size
    contentHash := contentHashOf fr.contentHash
    expectedHash := fr.expectedHash
    status, container := .fromExtension fr.container, duration := fr.duration.getD (.finite 0)
    bitrate := fr.bitrate, tracks, tags, pluginMetadata, introspectedAt, cropDetection }

end FileRow

/-! ## Tracks -/

/-- What the track queries select. -/
def trackColumns : List String :=
  ["stream_index", "track_type", "codec", "language", "title", "is_default", "is_forced",
   "channels", "channel_layout", "sample_rate", "bit_depth", "loudness_integrated_lufs",
   "loudness_true_peak_db", "loudness_range_lu", "loudness_measured_at", "width", "height",
   "frame_rate", "is_vfr", "is_hdr", "hdr_format", "pixel_format", "color_primaries",
   "color_transfer", "color_matrix", "max_cll", "max_fall", "master_display",
   "dolby_vision_profile", "is_animation"]

/-- `TrackType::from_str` -/
def strToTrackType : String → Option TrackType
  | "video" => some .video
  | "audio_main" => some .audioMain
  | "audio_alternate" => some .audioAlternate
  | "audio_commentary" => some .audioCommentary
  | "audio_music" => some .audioMusic
  | "audio_sfx" => some .audioSfx
  | "audio_non_speech" => some .audioNonSpeech
  | "subtitle_main" => some .subtitleMain
  | "subtitle_forced" => some .subtitleForced
  | "subtitle_commentary" => some .subtitleCommentary
  | "attachment" => some .attachment
  | _ => none

def trackTypeForRow (s : String) : Except RowError TrackType :=
  match strToTrackType s with
  | some trackType => .ok trackType
  | none => .error (.conversion ("unknown track type: " ++ s))

def parseOptionalDatetime (s : Option String) (field : String) : Except RowError (Option Time) :=
  match s with
  | none => .ok none
  | some v =>
    match env.parseDatetime v with
    | .ok t => .ok (some t)
    | .error e => .error (.conversion ("corrupt datetime in " ++ field ++ ": " ++ v ++ ": " ++ e))

/-- `u8::try_from` of the profile. -/
def dolbyProfile (value : Int) (field : String) : Except RowError Nat :=
  checkedUnsigned 8 field value

def rowToTrack (r : Selected) : Except RowError Track := do
  let trackTypeStr ← r.get asString "track_type"
  let trackType ← trackTypeForRow trackTypeStr
  let streamIndex ← r.get asI32 "stream_index"
  let index ← checkedI32ToU32 streamIndex "tracks.stream_index"
  let channels ← r.getU32 "channels" "tracks.channels"
  let sampleRate ← r.getU32 "sample_rate" "tracks.sample_rate"
  let bitDepth ← r.getU32 "bit_depth" "tracks.bit_depth"
  let width ← r.getU32 "width" "tracks.width"
  let height ← r.getU32 "height" "tracks.height"
  let codec ← r.get asString "codec"
  let language ← r.get asString "language"
  let title ← r.get asString "title"
  let isDefault ← r.getBool "is_default"
  let isForced ← r.getBool "is_forced"
  let channelLayout ← r.get (asOption asString) "channel_layout"
  let loudnessIntegratedLufs ← r.get (asOption asF64) "loudness_integrated_lufs"
  let loudnessTruePeakDb ← r.get (asOption asF64) "loudness_true_peak_db"
  let loudnessRangeLu ← r.get (asOption asF64) "loudness_range_lu"
  let measuredAt ← r.get (asOption asString) "loudness_measured_at"
  let loudnessMeasuredAt ← parseOptionalDatetime env measuredAt "tracks.loudness_measured_at"
  let frameRate ← r.get (asOption asF64) "frame_rate"
  let isVfr ← r.getBool "is_vfr"
  let isHdr ← r.getBool "is_hdr"
  let hdrFormat ← r.get (asOption asString) "hdr_format"
  let pixelFormat ← r.get (asOption asString) "pixel_format"
  let colorPrimaries ← r.get (asOption asString) "color_primaries"
  let colorTransfer ← r.get (asOption asString) "color_transfer"
  let colorMatrix ← r.get (asOption asString) "color_matrix"
  let maxCll ← r.getU32 "max_cll" "tracks.max_cll"
  let maxFall ← r.getU32 "max_fall" "tracks.max_fall"
  let masterDisplay ← r.get (asOption asString) "master_display"
  let dolbyVisionProfile ← r.get (asOption asI32) "dolby_vision_profile"
  let dolbyVisionProfile ←
    checkedOptional dolbyProfile "tracks.dolby_vision_profile" dolbyVisionProfile
  let isAnimation ← r.get (asOption asI32) "is_animation"
  return {
    index, trackType, codec, language, title, isDefault, isForced, channels, channelLayout,
    sampleRate, bitDepth, loudnessIntegratedLufs, loudnessTruePeakDb, loudnessRangeLu,
    loudnessMeasuredAt, width, height, frameRate, isVfr, isHdr, hdrFormat, pixelFormat,
    colorPrimaries, colorTransfer, colorMatrix, maxCll, maxFall, masterDisplay,
    dolbyVisionProfile, isAnimation := isAnimation.map (· ≠ 0) }

/-! ## Queries -/

def tableRows (db : Database) (name : String) : Except ReadError (List Row) :=
  match db.table name with
  | some t => .ok t.rows
  | none => .error (.noSuchTable name)

/-- The key of `ORDER BY stream_index`. -/
def streamIndexOf (r : Row) : Int :=
  match r "stream_index" with
  | .integer n => n
  | _ => 0

/-- `SELECT .. FROM tracks WHERE file_id = ?1 ORDER BY stream_index` -/
def tracksOf (tracks : List Row) (fileId : String) : List Row :=
  (tracks.filter fun r => r "file_id" = .text fileId).mergeSort fun r r' =>
    streamIndexOf r ≤ streamIndexOf r'

def loadTracks (tracks : List Row) (fileId : Uuid) : Except ReadError (List Track) :=
  storageErr "failed to collect tracks"
    ((tracksOf tracks (env.uuid fileId)).mapM fun r => rowToTrack env ⟨trackColumns, r⟩)

def file (db : Database) (id : Uuid) : Except ReadError (Option MediaFile) := do
  let files ← tableRows db "files"
  match files.find? fun r => r "id" = .text (env.uuid id) with
  | none => return none
  | some r => do
    let fr ← storageErr "failed to get file" (rowToFile ⟨fileColumns, r⟩)
    let rows ← tableRows db "tracks"
    let tracks ← loadTracks env rows id
    let mf ← fr.toMediaFile env tracks
    return some mf

def fileByPath (db : Database) (path : Path) : Except ReadError (Option MediaFile) := do
  let files ← tableRows db "files"
  match files.find? (hasPath path.display) with
  | none => return none
  | some r => do
    let fr ← storageErr "failed to get file by path" (rowToFile ⟨fileColumns, r⟩)
    let id ← parseUuid env fr.id
    let rows ← tableRows db "tracks"
    let tracks ← loadTracks env rows id
    let mf ← fr.toMediaFile env tracks
    return some mf

/-- The order of the batch query, by file and then by stream. -/
def batchLe (r r' : Row) : Bool :=
  match r "file_id", r' "file_id" with
  | .text id, .text id' => id < id' || id = id' && streamIndexOf r ≤ streamIndexOf r'
  | .text _, _ => false
  | _, _ => true

/-- A row of the batch query, with the file it belongs to. -/
def rowToOwnedTrack (r : Row) : Except ReadError (Uuid × Track) := do
  let fileIdStr ← storageErr "failed to read track row"
    (Selected.get ⟨"file_id" :: trackColumns, r⟩ asString "file_id")
  let track ← storageErr "failed to read track row" (rowToTrack env ⟨"file_id" :: trackColumns, r⟩)
  let fileId ← parseUuid env fileIdStr
  return (fileId, track)

/-- `load_tracks_batch`: the tracks of some files, with their files, in chunks of 500. -/
def loadTracksBatch (tracks : List Row) (fileIds : List Uuid) :
    Except ReadError (List (Uuid × Track)) := do
  let chunks ← (fileIds.toChunks 500).mapM fun chunk =>
    let inChunk (r : Row) : Bool := chunk.any fun id => r "file_id" = .text (env.uuid id)
    ((tracks.filter inChunk).mergeSort batchLe).mapM (rowToOwnedTrack env)
  return chunks.flatten

structure FileFilters where
  container : Option Container := none
  hasCodec : Option String := none
  hasLanguage : Option String := none
  pathPrefix : Option String := none
  limit : Option Nat := none
  offset : Option Nat := none
  includeMissing : Bool := false

namespace FileFilters

/-- `LIKE 'prefix%'` with the wildcards of the prefix escaped: ASCII letters match in either case. -/
def likePrefix (start s : String) : Bool :=
  (start.toList.map Char.toLower).isPrefixOf (s.toList.map Char.toLower)

/-- The join with `tracks`: one track has the codec and the language. -/
def hasTrack (filters : FileFilters) (tracks : List Row) (r : Row) : Bool :=
  (filters.hasCodec.isNone && filters.hasLanguage.isNone) ||
    tracks.any fun t => t "file_id" = r "id" && t "file_id" ≠ .null &&
      filters.hasCodec.all (fun codec => t "codec" = .text codec) &&
      filters.hasLanguage.all fun language => t "language" = .text language

/-- The `WHERE` of the list query. -/
def selects (filters : FileFilters) (tracks : List Row) (r : Row) : Bool :=
  (filters.includeMissing || r "status" = .text FileStatus.active.asStr) &&
    filters.container.all (fun container => r "container" = .text container.asStr) &&
    filters.pathPrefix.all (fun start =>
      match r "path" with
      | .text path => likePrefix start path
      | _ => false) &&
    filters.hasTrack tracks r

end FileFilters

/-- `ORDER BY path`: a row without a path comes first. -/
def pathLe (r r' : Row) : Bool :=
  match r "path", r' "path" with
  | .text path, .text path' => path ≤ path'
  | .text _, _ => false
  | _, _ => true

/-- An `OFFSET` needs a `LIMIT` before it. -/
def paginate (filters : FileFilters) (rows : List Row) : Except ReadError (List Row) :=
  match filters.limit, filters.offset with
  | none, none => .ok rows
  | none, some _ => .error (.malformed "failed to prepare list query")
  | some limit, offset => .ok ((rows.drop (min (offset.getD 0) 1000000)).take (min limit 10000))

def listFiles (db : Database) (filters : FileFilters) : Except ReadError (List MediaFile) := do
  let files ← tableRows db "files"
  let tracks ← tableRows db "tracks"
  let rows ← paginate filters ((files.filter (filters.selects tracks)).mergeSort pathLe)
  let rows ← storageErr "failed to collect files" (rows.mapM fun r => rowToFile ⟨fileColumns, r⟩)
  let fileIds ← rows.mapM fun fr => parseUuid env fr.id
  let tracksMap ← loadTracksBatch env tracks fileIds
  (rows.zip fileIds).mapM fun (fr, id) =>
    fr.toMediaFile env ((tracksMap.filter (·.1 = id)).map (·.2))

end

/-! ## What the mappers make of stored rows -/

/-- Identifiers and times can be read back. -/
structure FileEnv.Faithful (env : FileEnv) : Prop where
  uuid : ∀ u, env.parseUuid (env.uuid u) = .ok u
  datetime : ∀ t, env.parseDatetime (env.formatDatetime t) = .ok t
  rfc3339 : ∀ t, env.parseDatetime (env.rfc3339 t) = .ok t

/-- The numbers of a track are of their types. -/
structure TrackTyped (t : Track) : Prop where
  dolbyVisionProfile : ∀ n ∈ t.dolbyVisionProfile, n < 2 ^ 8

/-- The 32-bit numbers of a track leave the sign bit clear. -/
structure TrackFits (t : Track) : Prop where
  index : t.index < 2 ^ 31
  channels : ∀ n ∈ t.channels, n < 2 ^ 31
  sampleRate : ∀ n ∈ t.sampleRate, n < 2 ^ 31
  bitDepth : ∀ n ∈ t.bitDepth, n < 2 ^ 31
  width : ∀ n ∈ t.width, n < 2 ^ 31
  height : ∀ n ∈ t.height, n < 2 ^ 31
  maxCll : ∀ n ∈ t.maxCll, n < 2 ^ 31
  maxFall : ∀ n ∈ t.maxFall, n < 2 ^ 31

/-- A track without its NaNs. -/
def trackAsRead (t : Track) : Track :=
  { t with
    loudnessIntegratedLufs := t.loudnessIntegratedLufs.filter (· ≠ .nan)
    loudnessTruePeakDb := t.loudnessTruePeakDb.filter (· ≠ .nan)
    loudnessRangeLu := t.loudnessRangeLu.filter (· ≠ .nan)
    frameRate := t.frameRate.filter (· ≠ .nan) }

theorem Selected.get_of_mem {α : Type} {r : Selected} (f : String → Value → Except RowError α)
    {column : String} (h : column ∈ r.columns) : r.get f column = f column (r.values column) :=
  if_pos h

/-- A 32-bit column that may be absent. -/
theorem Selected.getU32_iff {r : Selected} {column field : String} {o : Option Nat}
    (h : column ∈ r.columns) (hvalue : r.values column = Param.optional Param.nat o) :
    ((∀ n ∈ o, n < 2 ^ 31) → r.getU32 column field = .ok o) ∧
      ∀ o', r.getU32 column field = .ok o' → ∀ n ∈ o, n < 2 ^ 31 := by
  unfold getU32
  rw [get_of_mem _ h, hvalue]
  cases o with
  | none => exact ⟨fun _ => rfl, fun _ _ => nofun⟩
  | some n =>
    simp only [Param.optional, Option.elim_some, asOption_some_nat, asI32_nat]
    refine ⟨fun hsmall => ?_, fun o' hread m hm => ?_⟩
    · rw [if_pos (hsmall n rfl), map_ok, ok_bind, checkedOptional_some,
        checkedI32ToU32_natCast (hsmall n rfl), map_ok]
    · cases hm
      by_contra hbig
      rw [if_neg hbig] at hread
      cases hread

section

variable {env : FileEnv} (henv : env.Faithful)

theorem trackTypeForRow_asStr (t : TrackType) : trackTypeForRow t.asStr = .ok t := by
  cases t <;> rfl

include henv in
theorem parseOptionalDatetime_rfc3339 (o : Option Time) (field : String) :
    parseOptionalDatetime env (o.map env.rfc3339) field = .ok o := by
  cases o with
  | none => rfl
  | some t => simp [parseOptionalDatetime, henv.rfc3339]

/-- The mapper does not look at the column in front. -/
theorem rowToTrack_batch (values : Row) :
    rowToTrack env ⟨"file_id" :: trackColumns, values⟩ = rowToTrack env ⟨trackColumns, values⟩ := by
  simp [rowToTrack, Selected.getU32, Selected.getBool, Selected.get, trackColumns]

theorem asI32_dolbyProfile {o : Option Nat} (ho : ∀ n ∈ o, n < 2 ^ 8) {column : String} :
    asOption asI32 column (Param.optional Param.nat o) = .ok (o.map Nat.cast) := by
  cases o with
  | none => rfl
  | some n =>
    have hn : n < 2 ^ 8 := ho n rfl
    simp only [Param.optional, Option.elim_some, asOption_some_nat, asI32_nat]
    rw [if_pos (by omega), map_ok, Option.map_some]

/-- A profile of eight bits, through a signed column of 32. -/
theorem dolbyProfile_natCast {o : Option Nat} (ho : ∀ n ∈ o, n < 2 ^ 8) {field : String} :
    checkedOptional dolbyProfile field (o.map Nat.cast) = .ok o := by
  cases o with
  | none => rfl
  | some n =>
    have hn : n < 2 ^ 8 := ho n rfl
    rw [Option.map_some, checkedOptional_some, dolbyProfile, checkedUnsigned,
      if_pos (by omega), Int.toNat_natCast, map_ok]

include henv in
/-- Only the checked 32-bit columns stand between a row and its track. -/
theorem rowToTrack_trackRow {id fileId : String} {t : Track} (ht : TrackTyped t) :
    rowToTrack env ⟨trackColumns, trackRow env.toUpsertEnv id fileId t⟩ = (do
      let r : Selected := ⟨trackColumns, trackRow env.toUpsertEnv id fileId t⟩
      let streamIndex ← asI32 "stream_index" (Param.nat t.index)
      let index ← checkedI32ToU32 streamIndex "tracks.stream_index"
      let channels ← r.getU32 "channels" "tracks.channels"
      let sampleRate ← r.getU32 "sample_rate" "tracks.sample_rate"
      let bitDepth ← r.getU32 "bit_depth" "tracks.bit_depth"
      let width ← r.getU32 "width" "tracks.width"
      let height ← r.getU32 "height" "tracks.height"
      let maxCll ← r.getU32 "max_cll" "tracks.max_cll"
      let maxFall ← r.getU32 "max_fall" "tracks.max_fall"
      .ok { trackAsRead t with
        index, channels, sampleRate, bitDepth, width, height, maxCll, maxFall }) := by
  -- the columns but the checked ones are read as they were written
  simp [rowToTrack, Selected.getBool, Selected.get, trackColumns, trackRow, row, List.lookup_cons,
    asString, ok_bind, trackTypeForRow_asStr, asF64_float, asString_map,
    parseOptionalDatetime_rfc3339 henv, asI32_optional_bool, trackAsRead, Function.comp_def,
    asI32_dolbyProfile ht.dolbyVisionProfile, dolbyProfile_natCast ht.dolbyVisionProfile]

include henv in
theorem rowToTrack_fits {id fileId : String} {t : Track} (ht : TrackTyped t) (hfits : TrackFits t) :
    rowToTrack env ⟨trackColumns, trackRow env.toUpsertEnv id fileId t⟩ = .ok (trackAsRead t) := by
  have hread {column field : String} {o : Option Nat} (hcolumn : column ∈ trackColumns)
      (hvalue : trackRow env.toUpsertEnv id fileId t column = Param.optional Param.nat o)
      (ho : ∀ n ∈ o, n < 2 ^ 31) :
      Selected.getU32 ⟨trackColumns, trackRow env.toUpsertEnv id fileId t⟩ column field = .ok o :=
    (Selected.getU32_iff hcolumn hvalue).1 ho
  rw [rowToTrack_trackRow henv ht]
  simp only [asI32_nat, if_pos hfits.index, ok_bind, checkedI32ToU32_natCast hfits.index]
  rw [hread (by decide) rfl hfits.channels, ok_bind, hread (by decide) rfl hfits.sampleRate, ok_bind,
    hread (by decide) rfl hfits.bitDepth, ok_bind, hread (by decide) rfl hfits.width, ok_bind,
    hread (by decide) rfl hfits.height, ok_bind, hread (by decide) rfl hfits.maxCll, ok_bind,
    hread (by decide) rfl hfits.maxFall, ok_bind]
  rfl

include henv in
theorem fits_of_rowToTrack {id fileId : String} {t t' : Track} (ht : TrackTyped t)
    (h : rowToTrack env ⟨trackColumns, trackRow env.toUpsertEnv id fileId t⟩ = .ok t') :
    TrackFits t := by
  have hsmall {column field : String} {o o' : Option Nat} (hcolumn : column ∈ trackColumns)
      (hvalue : trackRow env.toUpsertEnv id fileId t column = Param.optional Param.nat o)
      (ho : Selected.getU32 ⟨trackColumns, trackRow env.toUpsertEnv id fileId t⟩ column field = .ok o') :
      ∀ n ∈ o, n < 2 ^ 31 :=
    (Selected.getU32_iff hcolumn hvalue).2 o' ho
  rw [rowToTrack_trackRow henv ht] at h
  obtain ⟨streamIndex, hindex, h⟩ := bind_eq_ok.mp h
  obtain ⟨index, -, h⟩ := bind_eq_ok.mp h
  obtain ⟨channels, hchannels, h⟩ := bind_eq_ok.mp h
  obtain ⟨sampleRate, hsampleRate, h⟩ := bind_eq_ok.mp h
  obtain ⟨bitDepth, hbitDepth, h⟩ := bind_eq_ok.mp h
  obtain ⟨width, hwidth, h⟩ := bind_eq_ok.mp h
  obtain ⟨height, hheight, h⟩ := bind_eq_ok.mp h
  obtain ⟨maxCll, hmaxCll, h⟩ := bind_eq_ok.mp h
  obtain ⟨maxFall, hmaxFall, -⟩ := bind_eq_ok.mp h
  refine ⟨?_, hsmall (by decide) rfl hchannels, hsmall (by decide) rfl hsampleRate,
    hsmall (by decide) rfl hbitDepth, hsmall (by decide) rfl hwidth, hsmall (by decide) rfl hheight,
    hsmall (by decide) rfl hmaxCll, hsmall (by decide) rfl hmaxFall⟩
  by_contra hbig
  rw [asI32_nat, if_neg hbig] at hindex
  cases hindex

end

/-! ## Rows of files -/

/-- The fields of a file are of their types. -/
structure FileTyped (f : MediaFile) : Prop where
  path : f.path.Plain
  size : f.size < 2 ^ 64
  crop : ∀ d ∈ f.cropDetection,
    d.left < 2 ^ 32 ∧ d.top < 2 ^ 32 ∧ d.right < 2 ^ 32 ∧ d.bottom < 2 ^ 32
  tracks : ∀ t ∈ f.tracks, TrackTyped t

/-- The size and the bit rate are read back. -/
structure FileFits (f : MediaFile) : Prop where
  size : f.size < 2 ^ 63
  bitrate : ∀ n ∈ f.bitrate, n < 2 ^ 31
  tracks : ∀ t ∈ f.tracks, TrackFits t

/-- The maps of a file survive their JSON. -/
structure FileEnv.Keeps (env : FileEnv) (f : MediaFile) : Prop where
  tags : env.parseTags (env.tagsJson f.tags) = .ok f.tags
  metadata : env.parseMetadata (env.metadataJson f.pluginMetadata) = .ok f.pluginMetadata

/-- A row of `files` holds a file under an identifier and an expected hash. -/
def Stored (env : FileEnv) (r : Row) (id : Uuid) (f : MediaFile) (expected : Option Hash) : Prop :=
  (∀ c ∈ fileColumns, c ≠ "expected_hash" → r c = fileRow env.toUpsertEnv (env.uuid id) f 0 c) ∧
    r "expected_hash" = Param.optional .text expected

/-- What `row_to_file` makes of such a row. -/
def storedFileRow (env : FileEnv) (id : Uuid) (f : MediaFile) (expected : Option Hash) : FileRow :=
  { id := env.uuid id, path := f.path.display, size := f.size
    contentHash := f.contentHash.getD "", expectedHash := expected, status := f.status.asStr
    container := f.container.asStr, duration := (some f.duration).filter (· ≠ .nan), bitrate := f.bitrate
    cropLeft := f.cropDetection.map (·.left), cropTop := f.cropDetection.map (·.top)
    cropRight := f.cropDetection.map (·.right), cropBottom := f.cropDetection.map (·.bottom)
    cropDetectedAt := f.cropDetection.map (env.formatDatetime ·.detectedAt)
    cropSettingsFingerprint := f.cropDetection.bind (·.settingsFingerprint)
    tags := some (env.tagsJson f.tags), pluginMetadata := some (env.metadataJson f.pluginMetadata)
    introspectedAt := env.formatDatetime f.introspectedAt }

/-- A NaN is stored as `NULL`, and read as no duration. -/
def durationAsRead (duration : F64) : F64 := if duration = .nan then .finite 0 else duration

theorem getD_filter_duration (x : F64) :
    ((some x).filter (· ≠ .nan)).getD (.finite 0) = durationAsRead x := by
  cases x <;> rfl

/-- What `to_media_file` makes of that. -/
def fileAsRead (id : Uuid) (f : MediaFile) (expected : Option Hash) (tracks : List Track) : MediaFile :=
  { f with
    id, tracks, expectedHash := expected
    duration := durationAsRead f.duration
    contentHash := FileRow.contentHashOf (f.contentHash.getD "") }

section

variable {env : FileEnv} (henv : env.Faithful) {id : Uuid} {f : MediaFile} {expected : Option Hash}
  {r : Row}

theorem asOption_natMap {α : Type} (g : α → Nat) (o : Option α) (column : String) :
    asOption asI64 column (Param.optional (fun a => Param.nat (g a)) o) =
      .ok (o.map fun a => (g a : Int)) := by
  cases o <;> rfl

theorem rowToFile_stored (hf : FileTyped f) (hr : Stored env r id f expected) :
    rowToFile ⟨fileColumns, r⟩ = (do
      let size ← checkedI64ToU64 (asStored f.size) "files.size"
      let bitrate ← Selected.getU32 ⟨fileColumns, r⟩ "bitrate" "files.bitrate"
      .ok { storedFileRow env id f expected with size, bitrate }) := by
  obtain ⟨hcolumns, hexpected⟩ := hr
  simp only [fileColumns, List.forall_mem_cons] at hcolumns
  simp [fileRow, row, List.lookup_cons] at hcolumns
  simp [rowToFile, Selected.get, fileColumns, hcolumns, hexpected, asI64_size hf.size, ok_bind,
    asString, asString_map, asOption_natMap, asF64_some, storedFileRow]

theorem bitrate_stored (hr : Stored env r id f expected) :
    Selected.values ⟨fileColumns, r⟩ "bitrate" = Param.optional Param.nat f.bitrate :=
  hr.1 "bitrate" (by decide) (by decide)

theorem bitrate_mem : "bitrate" ∈ fileColumns := by decide

theorem rowToFile_fits (hf : FileTyped f) (hr : Stored env r id f expected) (hsize : f.size < 2 ^ 63)
    (hbitrate : ∀ n ∈ f.bitrate, n < 2 ^ 31) :
    rowToFile ⟨fileColumns, r⟩ = .ok (storedFileRow env id f expected) := by
  rw [rowToFile_stored hf hr, checkedI64ToU64_asStored hf.size, if_pos hsize, ok_bind,
    (Selected.getU32_iff bitrate_mem (bitrate_stored hr)).1 hbitrate, ok_bind]
  rfl

theorem fits_of_rowToFile (hf : FileTyped f) (hr : Stored env r id f expected) {fr : FileRow}
    (h : rowToFile ⟨fileColumns, r⟩ = .ok fr) : f.size < 2 ^ 63 ∧ ∀ n ∈ f.bitrate, n < 2 ^ 31 := by
  rw [rowToFile_stored hf hr] at h
  obtain ⟨size, hsize, h⟩ := bind_eq_ok.mp h
  obtain ⟨bitrate, hbitrate, -⟩ := bind_eq_ok.mp h
  refine ⟨?_, (Selected.getU32_iff bitrate_mem (bitrate_stored hr)).2 bitrate hbitrate⟩
  by_contra hbig
  rw [checkedI64ToU64_asStored hf.size, if_neg hbig] at hsize
  cases hsize

theorem cropEdge_natCast {n : Nat} (hn : n < 2 ^ 32) (field : String) :
    cropEdge field n = .ok n := by
  unfold cropEdge
  rw [if_pos (by omega), Int.toNat_natCast]

include henv in
theorem parseDatetime_formatDatetime (t : Time) :
    parseDatetime env (env.formatDatetime t) = .ok t := by
  simp only [parseDatetime, otherErr, henv.datetime, Except.mapError]

include henv in
theorem parseUuid_uuid (u : Uuid) : parseUuid env (env.uuid u) = .ok u := by
  simp only [parseUuid, otherErr, henv.uuid, Except.mapError]

include henv in
theorem cropDetection_stored (hf : FileTyped f) :
    (storedFileRow env id f expected).cropDetection env = .ok f.cropDetection := by
  cases hcrop : f.cropDetection with
  | none => simp [FileRow.cropDetection, storedFileRow, hcrop]
  | some d =>
    obtain ⟨hleft, htop, hright, hbottom⟩ := hf.crop d hcrop
    simp [FileRow.cropDetection, storedFileRow, hcrop, cropEdge_natCast hleft, cropEdge_natCast htop,
      cropEdge_natCast hright, cropEdge_natCast hbottom, parseDatetime_formatDatetime henv, ok_bind]

theorem fromExtension_asStr (c : Container) : Container.fromExtension c.asStr = c := by
  cases c <;> decide

theorem parseFileStatus_asStr (s : FileStatus) : parseFileStatus s.asStr = .ok s := by
  cases s <;> rfl

include henv in
theorem toMediaFile_stored (hf : FileTyped f) (hkeeps : env.Keeps f) (tracks : List Track) :
    (storedFileRow env id f expected).toMediaFile env tracks =
      .ok (fileAsRead id f expected tracks) := by
  unfold FileRow.toMediaFile
  rw [cropDetection_stored henv hf]
  simp only [storedFileRow, getD_filter_duration]
  simp [FileRow.parseMap, otherErr, hkeeps.tags, hkeeps.metadata, ok_bind,
    parseUuid_uuid henv, parseDatetime_formatDatetime henv, parseFileStatus_asStr,
    fromExtension_asStr, Path.ofText_display hf.path, fileAsRead, Except.mapError]

end

end Voom.Storage.Sqlite
