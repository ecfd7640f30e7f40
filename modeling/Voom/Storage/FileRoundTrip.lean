-- SUMMARY: Which media files the store returns as they were upserted, and when its listings can fail.
import Voom.Storage.FileReading
import Voom.Storage.Reopen

/-!
# Round trips of media files

After `upsert_file`, `file_by_path` returns the file under the identifier and the
expected hash that its path had before. It does so exactly for files whose
numbers the mappers accept and whose other values have a text or a number of
their own in the table: unsigned values of 32 bits are written as 64-bit
integers and read as signed 32-bit ones. Files that fit keep every listing
readable.
-/

namespace Voom.Storage.Sqlite

open Voom.Lib Voom.Lib.Sql Voom.Storage.Schema

/-! ## What a path holds -/

/-- What the schema and the writers of `files` and `tracks` see to. -/
structure Sound (env : FileEnv) (db : Database) : Prop where
  owned : Owned db
  ids : ∀ files, db.table "files" = some files → ∀ r ∈ files.rows, ∃ u, r "id" = .text (env.uuid u)
  hashes : ∀ files, db.table "files" = some files → ∀ r ∈ files.rows,
    ∃ expected, r "expected_hash" = Param.optional .text expected

/-- The expected hash of a row. -/
def expectedHashOf (r : Row) : Option Hash :=
  match r "expected_hash" with
  | .text hash => some hash
  | _ => none

/-- The identifier and the expected hash of the row at a path. -/
def heldAt (env : FileEnv) (db : Database) (path : Path) : Option (Uuid × Option Hash) := do
  let files ← db.table "files"
  let r ← files.rows.find? (hasPath path.display)
  match r "id" with
  | .text id => (env.parseUuid id).toOption.map fun u => (u, expectedHashOf r)
  | _ => none

/-- The file under the identifier and the expected hash that its path held. -/
def underHeld (held : Option (Uuid × Option Hash)) (f : MediaFile) : MediaFile :=
  match held with
  | none => f
  | some (id, expectedHash) => { f with id, expectedHash }

/-- No measured value of a track is a NaN. -/
structure TrackNumeric (t : Track) : Prop where
  loudnessIntegratedLufs : ∀ x ∈ t.loudnessIntegratedLufs, x ≠ .nan
  loudnessTruePeakDb : ∀ x ∈ t.loudnessTruePeakDb, x ≠ .nan
  loudnessRangeLu : ∀ x ∈ t.loudnessRangeLu, x ≠ .nan
  frameRate : ∀ x ∈ t.frameRate, x ≠ .nan

/-- The file is read back as it was written. -/
structure RoundTripping (held : Option (Uuid × Option Hash)) (f : MediaFile) : Prop where
  fits : FileFits f
  numeric : ∀ t ∈ f.tracks, TrackNumeric t
  duration : f.duration ≠ .nan
  contentHash : f.contentHash ≠ some ""
  expectedHash : held = none → f.expectedHash = none

theorem trackAsRead_iff (t : Track) : trackAsRead t = t ↔ TrackNumeric t := by
  have hfilter (o : Option F64) : o.filter (· ≠ .nan) = o ↔ ∀ x ∈ o, x ≠ .nan := by
    cases o with
    | none => simp
    | some x => simp [Option.filter_some]
  constructor
  · intro h
    exact ⟨(hfilter _).mp (congrArg (·.loudnessIntegratedLufs) h),
      (hfilter _).mp (congrArg (·.loudnessTruePeakDb) h),
      (hfilter _).mp (congrArg (·.loudnessRangeLu) h), (hfilter _).mp (congrArg (·.frameRate) h)⟩
  · intro h
    unfold trackAsRead
    rw [(hfilter _).mpr h.loudnessIntegratedLufs, (hfilter _).mpr h.loudnessTruePeakDb,
      (hfilter _).mpr h.loudnessRangeLu, (hfilter _).mpr h.frameRate]

theorem contentHashOf_iff (hash : Option Hash) :
    FileRow.contentHashOf (hash.getD "") = hash ↔ hash ≠ some "" := by
  cases hash with
  | none => simp [FileRow.contentHashOf]
  | some s =>
    by_cases hs : s = ""
    · simp [FileRow.contentHashOf, hs]
    · simp [FileRow.contentHashOf, hs]

/-! ## After an upsert -/

section

variable {env : FileEnv} (henv : env.Faithful) {db db' : Database} {f : MediaFile}
  {newId : Nat → Uuid} {now : Time}

/-- The identifier and the expected hash that the stored row has. -/
def idAndHash (held : Option (Uuid × Option Hash)) (f : MediaFile) : Uuid × Option Hash :=
  held.getD (f.id, none)

theorem expectedHashOf_optional {r : Row} {expected : Option Hash}
    (h : r "expected_hash" = Param.optional .text expected) : expectedHashOf r = expected := by
  unfold expectedHashOf
  rw [h]
  cases expected <;> rfl

include henv in
/-- The row at the path, if there is one, has an identifier and an expected hash. -/
theorem held_cases (hdb : Sound env db) {files : Table} (hfiles : db.table "files" = some files)
    {path : Path} {existing : Option String}
    (h : existingId path.display files.rows = .ok existing) :
    (∃ old u expected, files.rows.find? (hasPath path.display) = some old ∧
        old "id" = .text (env.uuid u) ∧ old "expected_hash" = Param.optional .text expected ∧
        existing = some (env.uuid u) ∧ heldAt env db path = some (u, expected)) ∨
      (files.rows.find? (hasPath path.display) = none ∧ existing = none ∧
        heldAt env db path = none) := by
  unfold existingId at h
  unfold heldAt
  simp only [hfiles, Option.bind_eq_bind, Option.bind_some]
  cases hfind : files.rows.find? (hasPath path.display) with
  | none =>
    rw [hfind] at h
    exact .inr ⟨rfl, (Except.ok.inj h).symm, rfl⟩
  | some old =>
    have hold : old ∈ files.rows := List.mem_of_find?_eq_some hfind
    obtain ⟨u, hid⟩ := hdb.ids files hfiles old hold
    obtain ⟨expected, hexpected⟩ := hdb.hashes files hfiles old hold
    rw [hfind] at h
    simp only [hid] at h
    refine .inl ⟨old, u, expected, rfl, hid, hexpected, (Except.ok.inj h).symm, ?_⟩
    simp only [Option.bind_some, hid, henv.uuid, expectedHashOf_optional hexpected]
    rfl

/-- The row of `DO UPDATE`. -/
def updated (r old : Row) : Row := fun c => if c ∈ updatedColumns then r c else old c

theorem hasPath_updated (path : String) (r old : Row) :
    hasPath path (updated r old) = hasPath path old := by
  have hpath : updated r old "path" = old "path" := if_neg (by decide)
  unfold hasPath
  rw [hpath]

/-- The queries see the identifier in its own column only, and not the time. -/
theorem fileRow_congr (id id' : String) : ∀ c ∈ fileColumns, c ≠ "id" →
    fileRow env.toUpsertEnv id f now c = fileRow env.toUpsertEnv id' f 0 c := by
  simp [fileColumns, fileRow, row, List.lookup_cons]

theorem kept_columns : ∀ c ∈ fileColumns, c ∉ updatedColumns →
    c = "id" ∨ c = "path" ∨ c = "expected_hash" := by
  simp [fileColumns, updatedColumns]

/-- The updated columns, with the three that stay, are those of the file. -/
theorem stored_updated {old : Row} {id : String} {u : Uuid} {expected : Option Hash}
    (hid : old "id" = .text (env.uuid u)) (hpath : hasPath f.path.display old = true)
    (hexpected : old "expected_hash" = Param.optional .text expected) :
    Stored env (updated (fileRow env.toUpsertEnv id f now) old) u f expected := by
  have hpath : old "path" = .text f.path.display := by simpa [hasPath] using hpath
  have hkept : updated (fileRow env.toUpsertEnv id f now) old "expected_hash" =
      old "expected_hash" := if_neg (by decide)
  refine ⟨fun c hc hne => ?_, hkept.trans hexpected⟩
  unfold updated
  split
  · rename_i hupdated
    refine fileRow_congr _ _ c hc ?_
    rintro rfl
    exact absurd hupdated (by decide)
  · rename_i hold
    rcases kept_columns c hc hold with rfl | rfl | rfl
    · exact hid
    · exact hpath
    · exact absurd rfl hne

theorem stored_new {u : Uuid} :
    Stored env (fileRow env.toUpsertEnv (env.uuid u) f now) u f none := by
  refine ⟨fun c hc _ => ?_, rfl⟩
  by_cases hid : c = "id"
  · subst hid
    rfl
  · exact fileRow_congr _ _ c hc hid

/-- The path holds the updated row, or the new one. -/
theorem find_upsertFileRow {path : String} {r : Row} {files fileRows : List Row}
    (h : upsertFileRow path r files = .ok fileRows) (hr : hasPath path r = true) :
    fileRows.find? (hasPath path) = some ((files.find? (hasPath path)).elim r (updated r)) := by
  obtain ⟨hany, rfl⟩ | ⟨hnone, -, rfl⟩ := upsertFileRow_cases h
  · obtain ⟨old, hold⟩ : ∃ old, files.find? (hasPath path) = some old :=
      Option.isSome_iff_exists.mp (List.find?_isSome.mpr (List.any_eq_true.mp hany))
    have hsame (row : Row) :
        hasPath path (if hasPath path row then updated r row else row) = hasPath path row := by
      split
      · exact hasPath_updated path r row
      · rfl
    change (files.map fun row => if hasPath path row then updated r row else row).find? _ = _
    rw [List.find?_map, Function.comp_def]
    simp only [hsame, hold, Option.map_some, List.find?_some hold, if_true]
    rfl
  · have hfind : files.find? (hasPath path) = none :=
      List.find?_eq_none.mpr (List.any_eq_false.mp hnone)
    rw [List.find?_append, hfind, Option.none_or, List.find?_singleton, if_pos hr]
    rfl

/-- The tracks under the identifier are those of the file. -/
theorem filter_fileId {id : String} {kept : List Row} (hkept : ∀ r ∈ kept, r "file_id" ≠ .text id)
    (tracks : List Track) :
    (kept ++ trackRows env.toUpsertEnv newId id tracks).filter (fun r => r "file_id" = .text id) =
      trackRows env.toUpsertEnv newId id tracks := by
  have hnone : kept.filter (fun r => decide (r "file_id" = .text id)) = [] :=
    List.filter_eq_nil_iff.mpr fun r hr => by simpa using hkept r hr
  have hall : (trackRows env.toUpsertEnv newId id tracks).filter
      (fun r => decide (r "file_id" = .text id)) = trackRows env.toUpsertEnv newId id tracks := by
    refine List.filter_eq_self.mpr fun r hr => ?_
    obtain ⟨i, track, -, rfl⟩ := mem_trackRows hr
    exact decide_eq_true rfl
  rw [List.filter_append, hnone, hall, List.nil_append]

include henv in
/-- The upsert leaves the row of the file at its path and its tracks under its identifier. -/
theorem upsertFile_stored (hdb : Sound env db)
    (h : upsertFile env.toUpsertEnv db f newId now = .ok db') {id : Uuid} {expected : Option Hash}
    (hheld : idAndHash (heldAt env db f.path) f = (id, expected)) :
    ∃ files tracks r,
      db'.table "files" = some files ∧ db'.table "tracks" = some tracks ∧
      files.rows.find? (hasPath f.path.display) = some r ∧ Stored env r id f expected ∧
      tracks.rows.filter (fun r => r "file_id" = .text (env.uuid id)) =
        trackRows env.toUpsertEnv newId (env.uuid id) f.tracks := by
  obtain ⟨files, tracks, existing, fileRows, hfiles, htracks, hexisting, hfileRows, rfl⟩ :=
    upsertFile_ok h
  obtain ⟨-, -, hid⟩ := upsertFileRow_ids hexisting hfileRows
  have hothers := kept_file_id (hdb.owned files tracks hfiles htracks) hid
  have hfiles' : (setRows db "files" fileRows).table "files" = some { files with rows := fileRows } :=
    table_setRows_self _ hfiles
  have htracks' : (setRows db "files" fileRows).table "tracks" = some tracks :=
    (table_setRows_ne (by decide)).trans htracks
  have hnewPath (id : String) : hasPath f.path.display (fileRow env.toUpsertEnv id f now) = true := by
    simp [hasPath, fileRow, row, List.lookup_cons]
  have hrow := find_upsertFileRow hfileRows (hnewPath _)
  rcases held_cases henv hdb hfiles hexisting with
    ⟨old, u, expected', hfind, hold, hhash, rfl, hat⟩ | ⟨hfind, rfl, hat⟩
  · obtain ⟨rfl, rfl⟩ : u = id ∧ expected' = expected := by simpa [idAndHash, hat] using hheld
    have hpath := List.find?_some hfind
    rw [hfind] at hrow
    refine ⟨_, _, _, (table_setRows_ne (by decide)).trans hfiles', table_setRows_self _ htracks', hrow,
      stored_updated hold hpath hhash, filter_fileId (fun r hr => ?_) _⟩
    obtain ⟨hr, hkept⟩ := List.mem_filter.mp hr
    exact hothers r hr hkept
  · obtain ⟨rfl, rfl⟩ : f.id = id ∧ none = expected := by simpa [idAndHash, hat] using hheld
    rw [hfind] at hrow
    refine ⟨_, _, _, (table_setRows_ne (by decide)).trans hfiles', table_setRows_self _ htracks', hrow,
      stored_new, filter_fileId (fun r hr => ?_) _⟩
    obtain ⟨hr, hkept⟩ := List.mem_filter.mp hr
    exact hothers r hr hkept

/-! ## Reading it back -/

theorem storageErr_ok {α : Type} {context : String} {x : Except RowError α} {a : α} :
    storageErr context x = .ok a ↔ x = .ok a := by
  cases x <;> simp [storageErr, Except.mapError]

include henv in
theorem mapM_trackRows (fileId : String) {tracks : List Track} (ht : ∀ t ∈ tracks, TrackTyped t)
    (hfits : ∀ t ∈ tracks, TrackFits t) :
    (trackRows env.toUpsertEnv newId fileId tracks).mapM
      (fun r => rowToTrack env ⟨trackColumns, r⟩) = .ok (tracks.map trackAsRead) := by
  unfold trackRows
  rw [List.mapIdx_eq_zipIdx_map, List.mapM_map]
  have hread : ∀ p ∈ tracks.zipIdx, rowToTrack env ⟨trackColumns,
      trackRow env.toUpsertEnv (env.uuid (newId p.2)) fileId p.1⟩ = .ok (trackAsRead p.1) := by
    intro p hp
    have hmem := List.fst_mem_of_mem_zipIdx hp
    exact rowToTrack_fits henv (ht p.1 hmem) (hfits p.1 hmem)
  obtain ⟨results, hresults⟩ := Succeeds.mapM_iff.mpr fun p hp => ⟨_, hread p hp⟩
  have hmap := mapM_eq_map hresults fun p hp t h => Except.ok.inj (h.symm.trans (hread p hp))
  refine hresults.trans (congrArg _ (hmap.trans ?_))
  calc tracks.zipIdx.map (fun p => trackAsRead p.1)
      = (tracks.zipIdx.map Prod.fst).map trackAsRead := by
        rw [List.map_map]
        rfl
    _ = tracks.map trackAsRead := by rw [List.zipIdx_map_fst]

include henv in
theorem fits_of_mapM_trackRows {fileId : String} {tracks : List Track}
    (ht : ∀ t ∈ tracks, TrackTyped t)
    (h : Succeeds ((trackRows env.toUpsertEnv newId fileId tracks).mapM
      (fun r => rowToTrack env ⟨trackColumns, r⟩))) : ∀ t ∈ tracks, TrackFits t := by
  intro t htrack
  obtain ⟨i, hrow⟩ : ∃ i, trackRow env.toUpsertEnv (env.uuid (newId i)) fileId t ∈
      trackRows env.toUpsertEnv newId fileId tracks := exists_trackRow htrack
  obtain ⟨t', hread⟩ := Succeeds.mapM_iff.mp h _ hrow
  exact fits_of_rowToTrack henv (ht t htrack) hread

/-- Tracks in the order of their indices are in the order of the query. -/
theorem tracksOf_eq {rows : List Row} {fileId : String} {tracks : List Track}
    (hrows : rows.filter (fun r => r "file_id" = .text fileId) =
      trackRows env.toUpsertEnv newId fileId tracks)
    (hsorted : tracks.Pairwise fun t t' => t.index < t'.index) :
    tracksOf rows fileId = trackRows env.toUpsertEnv newId fileId tracks := by
  unfold tracksOf
  rw [hrows]
  refine List.mergeSort_of_pairwise ?_
  unfold trackRows
  rw [List.mapIdx_eq_zipIdx_map, List.pairwise_map]
  have hfst : (tracks.zipIdx.map Prod.fst).Pairwise fun t t' => t.index < t'.index := by
    rwa [List.zipIdx_map_fst]
  rw [List.pairwise_map] at hfst
  refine hfst.imp fun {p p'} hlt => decide_eq_true ?_
  have hle : (p.1.index : Int) ≤ p'.1.index := by omega
  exact hle

include henv in
/-- What `file_by_path` returns: only the checks of the mappers are left to pass. -/
theorem fileByPath_upsertFile (hdb : Sound env db) (hf : FileTyped f) (hkeeps : env.Keeps f)
    (hsorted : f.tracks.Pairwise fun t t' => t.index < t'.index)
    (h : upsertFile env.toUpsertEnv db f newId now = .ok db') {id : Uuid} {expected : Option Hash}
    (hheld : idAndHash (heldAt env db f.path) f = (id, expected)) :
    (FileFits f → fileByPath env db' f.path =
      .ok (some (fileAsRead id f expected (f.tracks.map trackAsRead)))) ∧
    ∀ mf, fileByPath env db' f.path = .ok mf → FileFits f := by
  obtain ⟨files, tracks, r, hfiles, htracks, hfind, hstored, hfilter⟩ :=
    upsertFile_stored henv hdb h hheld
  have hrows : tableRows db' "files" = .ok files.rows := by simp only [tableRows, hfiles]
  have htrackRows : tableRows db' "tracks" = .ok tracks.rows := by simp only [tableRows, htracks]
  have htracksOf := tracksOf_eq hfilter hsorted
  unfold fileByPath
  simp only [hrows, ok_bind, hfind]
  constructor
  · intro hfits
    rw [rowToFile_fits hf hstored hfits.size hfits.bitrate]
    have hid : (storedFileRow env id f expected).id = env.uuid id := rfl
    have hload : loadTracks env tracks.rows id = .ok (f.tracks.map trackAsRead) := by
      unfold loadTracks
      rw [htracksOf]
      exact storageErr_ok.mpr (mapM_trackRows henv _ hf.tracks hfits.tracks)
    simp only [storageErr, Except.mapError, ok_bind, hid, parseUuid_uuid henv, htrackRows, hload,
      toMediaFile_stored henv hf hkeeps]
    rfl
  · intro mf hread
    obtain ⟨fr, hfr, hread⟩ := bind_eq_ok.mp hread
    obtain ⟨hsize, hbitrate⟩ := fits_of_rowToFile hf hstored (storageErr_ok.mp hfr)
    rw [rowToFile_fits hf hstored hsize hbitrate] at hfr
    obtain rfl := Except.ok.inj hfr
    have hid : (storedFileRow env id f expected).id = env.uuid id := rfl
    simp only [hid, parseUuid_uuid henv, ok_bind, htrackRows] at hread
    obtain ⟨read, hload, -⟩ := bind_eq_ok.mp hread
    unfold loadTracks at hload
    rw [htracksOf] at hload
    exact ⟨hsize, hbitrate, fits_of_mapM_trackRows henv hf.tracks ⟨read, storageErr_ok.mp hload⟩⟩

theorem fileAsRead_eq_iff {id : Uuid} {expected expected' : Option Hash} {tracks : List Track} :
    fileAsRead id f expected tracks = { f with id, expectedHash := expected' } ↔
      FileRow.contentHashOf (f.contentHash.getD "") = f.contentHash ∧ expected = expected' ∧
        f.duration ≠ .nan ∧ tracks = f.tracks := by
  have hduration : durationAsRead f.duration = f.duration ↔ f.duration ≠ .nan := by
    cases f.duration <;> simp [durationAsRead]
  simp only [fileAsRead, MediaFile.mk.injEq, true_and, and_true, hduration]

theorem map_trackAsRead_iff {tracks : List Track} :
    tracks.map trackAsRead = tracks ↔ ∀ t ∈ tracks, TrackNumeric t := by
  refine Iff.trans ?_ (forall₂_congr fun t _ => trackAsRead_iff t)
  conv_lhs => rhs; rw [← List.map_id tracks]
  exact List.map_inj_left

/-- What is read is the file under what its path held, if nothing was lost. -/
theorem fileAsRead_underHeld_iff {held : Option (Uuid × Option Hash)} {id : Uuid}
    {expected : Option Hash} (hheld : idAndHash held f = (id, expected)) :
    fileAsRead id f expected (f.tracks.map trackAsRead) = underHeld held f ↔
      (∀ t ∈ f.tracks, TrackNumeric t) ∧ f.duration ≠ .nan ∧ f.contentHash ≠ some "" ∧
        (held = none → f.expectedHash = none) := by
  rw [← map_trackAsRead_iff, ← contentHashOf_iff]
  cases held with
  | none =>
    obtain ⟨rfl, rfl⟩ := Prod.mk.inj hheld
    have hiff : fileAsRead f.id f none (f.tracks.map trackAsRead) = f ↔ _ := fileAsRead_eq_iff
    rw [show underHeld none f = f from rfl, hiff]
    grind
  | some found =>
    obtain rfl := hheld
    rw [show underHeld (some (id, expected)) f = { f with id, expectedHash := expected } from rfl,
      fileAsRead_eq_iff]
    grind

include henv in
theorem fileByPath_iff (hdb : Sound env db) (hf : FileTyped f) (hkeeps : env.Keeps f)
    (hsorted : f.tracks.Pairwise fun t t' => t.index < t'.index)
    (h : upsertFile env.toUpsertEnv db f newId now = .ok db') :
    fileByPath env db' f.path = .ok (some (underHeld (heldAt env db f.path) f)) ↔
      RoundTripping (heldAt env db f.path) f := by
  have hheld : idAndHash (heldAt env db f.path) f = (_, _) := rfl
  obtain ⟨hread, hfits⟩ := fileByPath_upsertFile henv hdb hf hkeeps hsorted h hheld
  have hlost := fileAsRead_underHeld_iff hheld
  constructor
  · intro hok
    have hfile := hfits _ hok
    rw [hread hfile] at hok
    obtain ⟨hnumeric, hduration, hhash, hexpected⟩ := hlost.mp (Option.some.inj (Except.ok.inj hok))
    exact ⟨hfile, hnumeric, hduration, hhash, hexpected⟩
  · intro hround
    rw [hread hround.fits, hlost.mpr ⟨hround.numeric, hround.duration, hround.contentHash,
      hround.expectedHash⟩]

/-! ## Listings -/

/-- Every row of the store is one that the mappers accept. -/
structure Listable (env : FileEnv) (db : Database) : Prop where
  owned : Owned db
  files : ∃ files, db.table "files" = some files ∧ ∀ r ∈ files.rows, ∃ id f expected,
    Stored env r id f expected ∧ FileTyped f ∧ env.Keeps f ∧ f.size < 2 ^ 63 ∧
      ∀ n ∈ f.bitrate, n < 2 ^ 31
  tracks : ∃ tracks, db.table "tracks" = some tracks ∧ ∀ r ∈ tracks.rows, ∃ id fileId t,
    r = trackRow env.toUpsertEnv id (env.uuid fileId) t ∧ TrackTyped t ∧ TrackFits t

theorem Listable.sound (hdb : Listable env db) : Sound env db := by
  obtain ⟨files, hfiles, hrows⟩ := hdb.files
  refine ⟨hdb.owned, fun files' hfiles' r hr => ?_, fun files' hfiles' r hr => ?_⟩
  · obtain rfl := Option.some.inj (hfiles.symm.trans hfiles')
    obtain ⟨id, f, expected, hstored, -⟩ := hrows r hr
    exact ⟨id, hstored.1 "id" (by decide) (by decide)⟩
  · obtain rfl := Option.some.inj (hfiles.symm.trans hfiles')
    obtain ⟨id, f, expected, hstored, -⟩ := hrows r hr
    exact ⟨expected, hstored.2⟩

include henv in
/-- A file that fits keeps the store listable. -/
theorem Listable.upsertFile (hdb : Listable env db) (hf : FileTyped f) (hkeeps : env.Keeps f)
    (hfits : FileFits f) (h : upsertFile env.toUpsertEnv db f newId now = .ok db') :
    Listable env db' := by
  have howned := hdb.owned.upsertFile h
  have hsound := hdb.sound
  obtain ⟨files, tracks, existing, fileRows, hfiles, htracks, hexisting, hfileRows, rfl⟩ :=
    upsertFile_ok h
  obtain ⟨files', hfiles', hrows⟩ := hdb.files
  obtain rfl := Option.some.inj (hfiles.symm.trans hfiles')
  obtain ⟨tracks', htracks', htrackRows⟩ := hdb.tracks
  obtain rfl := Option.some.inj (htracks.symm.trans htracks')
  obtain ⟨u, hu⟩ : ∃ u, existing.getD (env.uuid f.id) = env.uuid u := by
    rcases held_cases henv hsound hfiles hexisting with ⟨-, u, -, -, -, -, rfl, -⟩ | ⟨-, rfl, -⟩
    · exact ⟨u, rfl⟩
    · exact ⟨f.id, rfl⟩
  rw [hu] at hfileRows howned ⊢
  refine ⟨howned, ⟨_, (table_setRows_ne (by decide)).trans (table_setRows_self _ hfiles), ?_⟩,
    ⟨_, table_setRows_self _ ((table_setRows_ne (by decide)).trans htracks), ?_⟩⟩
  · intro r hr
    obtain ⟨-, rfl⟩ | ⟨-, -, rfl⟩ := upsertFileRow_cases hfileRows
    · obtain ⟨old, hold, rfl⟩ := List.mem_map.mp hr
      obtain ⟨id, g, expected, hstored, hg⟩ := hrows old hold
      split
      · rename_i hpath
        have hid := hstored.1 "id" (by decide) (by decide)
        exact ⟨id, f, expected, stored_updated hid hpath hstored.2, hf, hkeeps, hfits.size,
          hfits.bitrate⟩
      · exact ⟨id, g, expected, hstored, hg⟩
    · rcases List.mem_append.mp hr with hr | hr
      · exact hrows r hr
      · obtain rfl := List.mem_singleton.mp hr
        exact ⟨u, f, none, stored_new, hf, hkeeps, hfits.size, hfits.bitrate⟩
  · intro r hr
    rcases List.mem_append.mp hr with hr | hr
    · exact htrackRows r (List.mem_filter.mp hr).1
    · obtain ⟨i, t, ht, rfl⟩ := mem_trackRows hr
      exact ⟨_, u, t, rfl, hf.tracks t ht, hfits.tracks t ht⟩

include henv in
theorem Listable.rowToFile (hdb : Listable env db) {files : Table}
    (hfiles : db.table "files" = some files) {r : Row} (hr : r ∈ files.rows) :
    ∃ id f expected, Sqlite.rowToFile ⟨fileColumns, r⟩ = .ok (storedFileRow env id f expected) ∧
      ∀ tracks, Succeeds ((storedFileRow env id f expected).toMediaFile env tracks) := by
  obtain ⟨files', hfiles', hrows⟩ := hdb.files
  obtain rfl := Option.some.inj (hfiles.symm.trans hfiles')
  obtain ⟨id, f, expected, hstored, hf, hkeeps, hsize, hbitrate⟩ := hrows r hr
  exact ⟨id, f, expected, rowToFile_fits hf hstored hsize hbitrate,
    fun tracks => ⟨_, toMediaFile_stored henv hf hkeeps tracks⟩⟩

include henv in
theorem Listable.rowToTrack (hdb : Listable env db) {tracks : Table}
    (htracks : db.table "tracks" = some tracks) {r : Row} (hr : r ∈ tracks.rows) :
    Succeeds (Sqlite.rowToTrack env ⟨trackColumns, r⟩) ∧
      ∃ fileId, r "file_id" = .text (env.uuid fileId) := by
  obtain ⟨tracks', htracks', hrows⟩ := hdb.tracks
  obtain rfl := Option.some.inj (htracks.symm.trans htracks')
  obtain ⟨id, fileId, t, rfl, ht, hfits⟩ := hrows r hr
  exact ⟨⟨_, rowToTrack_fits henv ht hfits⟩, fileId, rfl⟩

theorem mem_tracksOf {rows : List Row} {fileId : String} {r : Row} (h : r ∈ tracksOf rows fileId) :
    r ∈ rows :=
  (List.mem_filter.mp ((List.mergeSort_perm _ _).mem_iff.mp h)).1

include henv in
theorem Listable.file (hdb : Listable env db) (id : Uuid) : Succeeds (Sqlite.file env db id) := by
  obtain ⟨files, hfiles, -⟩ := hdb.files
  obtain ⟨tracks, htracks, -⟩ := hdb.tracks
  have hrows : tableRows db "files" = .ok files.rows := by simp only [tableRows, hfiles]
  have htrackRows : tableRows db "tracks" = .ok tracks.rows := by simp only [tableRows, htracks]
  have hload : Succeeds (loadTracks env tracks.rows id) := Succeeds.mapError_iff.mpr
    (Succeeds.mapM_iff.mpr fun r hr => (hdb.rowToTrack henv htracks (mem_tracksOf hr)).1)
  obtain ⟨read, hread⟩ := hload
  unfold Sqlite.file
  rw [hrows, ok_bind]
  split
  · exact .pure _
  · rename_i r hfind
    obtain ⟨id', f, expected, hrow, hmedia⟩ :=
      hdb.rowToFile henv hfiles (List.mem_of_find?_eq_some hfind)
    obtain ⟨mf, hmf⟩ := hmedia read
    rw [storageErr_ok.mpr hrow, ok_bind, htrackRows, ok_bind, hread, ok_bind, hmf, ok_bind]
    exact .pure _

include henv in
theorem Listable.loadTracksBatch (hdb : Listable env db) {tracks : Table}
    (htracks : db.table "tracks" = some tracks) (fileIds : List Uuid) :
    Succeeds (Sqlite.loadTracksBatch env tracks.rows fileIds) := by
  refine Succeeds.bind_pure_iff.mpr (Succeeds.mapM_iff.mpr fun chunk _ => ?_)
  refine Succeeds.mapM_iff.mpr fun r hr => ?_
  have hmem : r ∈ tracks.rows :=
    (List.mem_filter.mp ((List.mergeSort_perm _ _).mem_iff.mp hr)).1
  obtain ⟨⟨t, hread⟩, fileId, hfileId⟩ := hdb.rowToTrack henv htracks hmem
  have hget : Selected.get ⟨"file_id" :: trackColumns, r⟩ asString "file_id" =
      .ok (env.uuid fileId) :=
    (Selected.get_of_mem _ List.mem_cons_self).trans (congrArg (asString "file_id") hfileId)
  rw [← rowToTrack_batch] at hread
  unfold rowToOwnedTrack
  rw [storageErr_ok.mpr hget, ok_bind, storageErr_ok.mpr hread, ok_bind, parseUuid_uuid henv, ok_bind]
  exact .pure _

theorem mem_paginate {filters : FileFilters} {rows selected : List Row}
    (h : paginate filters rows = .ok selected) : ∀ r ∈ selected, r ∈ rows := by
  unfold paginate at h
  split at h
  · obtain rfl := Except.ok.inj h
    exact fun _ hr => hr
  · cases h
  · obtain rfl := Except.ok.inj h
    exact fun r hr => List.mem_of_mem_drop (List.mem_of_mem_take hr)

/-- A page has a size. -/
def FileFilters.Paged (filters : FileFilters) : Prop := filters.limit = none → filters.offset = none

theorem FileFilters.Paged.paginate {filters : FileFilters} (h : filters.Paged) (rows : List Row) :
    Succeeds (Sqlite.paginate filters rows) := by
  unfold Sqlite.paginate
  split
  · exact .ok _
  · rename_i hlimit hoffset
    rw [h hlimit] at hoffset
    cases hoffset
  · exact .ok _

include henv in
theorem Listable.listFiles (hdb : Listable env db) {filters : FileFilters} (hpaged : filters.Paged) :
    Succeeds (Sqlite.listFiles env db filters) := by
  obtain ⟨files, hfiles, -⟩ := hdb.files
  obtain ⟨tracks, htracks, -⟩ := hdb.tracks
  have hrows : tableRows db "files" = .ok files.rows := by simp only [tableRows, hfiles]
  have htrackRows : tableRows db "tracks" = .ok tracks.rows := by simp only [tableRows, htracks]
  obtain ⟨selected, hselected⟩ :=
    hpaged.paginate ((files.rows.filter (filters.selects tracks.rows)).mergeSort pathLe)
  have hmem : ∀ r ∈ selected, r ∈ files.rows := fun r hr =>
    (List.mem_filter.mp ((List.mergeSort_perm _ _).mem_iff.mp (mem_paginate hselected r hr))).1
  obtain ⟨frs, hfrs⟩ := Succeeds.mapM_iff.mpr fun r hr =>
    let ⟨_, _, _, hread, _⟩ := hdb.rowToFile henv hfiles (hmem r hr)
    ⟨_, hread⟩
  have hmedia : ∀ fr ∈ frs, (∃ id, fr.id = env.uuid id) ∧
      ∀ tracks, Succeeds (fr.toMediaFile env tracks) := by
    intro fr hfr
    obtain ⟨r, hr, hread⟩ := mem_of_mapM hfrs hfr
    obtain ⟨id, f, expected, hread', hmedia⟩ := hdb.rowToFile henv hfiles (hmem r hr)
    obtain rfl := Except.ok.inj (hread.symm.trans hread')
    exact ⟨⟨id, rfl⟩, hmedia⟩
  obtain ⟨ids, hids⟩ : Succeeds (frs.mapM fun fr => parseUuid env fr.id) := by
    refine Succeeds.mapM_iff.mpr fun fr hfr => ?_
    obtain ⟨⟨id, hid⟩, -⟩ := hmedia fr hfr
    exact ⟨id, hid ▸ parseUuid_uuid henv id⟩
  obtain ⟨map, hmap⟩ := hdb.loadTracksBatch henv htracks ids
  unfold Sqlite.listFiles
  rw [hrows, ok_bind, htrackRows, ok_bind, hselected, ok_bind, storageErr_ok.mpr hfrs, ok_bind, hids,
    ok_bind, hmap, ok_bind]
  refine Succeeds.mapM_iff.mpr fun p hp => ?_
  exact (hmedia p.1 (List.of_mem_zip hp).1).2 _

/-! ## The store -/

/-- One call of `upsert_file`, with the identifiers and the time it takes. -/
structure FileUpsert where
  file : MediaFile
  newId : Nat → Uuid
  now : Time

/-- A sequence of upserts, if all succeed. -/
def upsertFiles (env : FileEnv) (db : Database) (us : List FileUpsert) : Except StoreError Database :=
  us.foldlM (fun db u => upsertFile env.toUpsertEnv db u.file u.newId u.now) db

/-- A store with no files yet. -/
structure Fresh (db : Database) : Prop where
  files : ∃ files, db.table "files" = some files ∧ files.rows = []
  tracks : ∃ tracks, db.table "tracks" = some tracks ∧ tracks.rows = []

theorem Fresh.listable (h : Fresh db) : Listable env db := by
  obtain ⟨⟨files, hfiles, hnone⟩, tracks, htracks, hnone'⟩ := h
  refine ⟨?_, ⟨files, hfiles, by simp [hnone]⟩, ⟨tracks, htracks, by simp [hnone']⟩⟩
  intro files' tracks' _ htable r hr
  obtain rfl := Option.some.inj (htracks.symm.trans htable)
  rw [hnone'] at hr
  cases hr

include henv in
theorem Listable.upsertFiles (hdb : Listable env db) {us : List FileUpsert}
    (hus : ∀ u ∈ us, FileTyped u.file ∧ env.Keeps u.file ∧ FileFits u.file)
    (h : Sqlite.upsertFiles env db us = .ok db') : Listable env db' := by
  induction us generalizing db with
  | nil =>
    obtain rfl := Except.ok.inj h
    exact hdb
  | cons u us ih =>
    obtain ⟨db₁, hstep, h⟩ := bind_eq_ok.mp h
    rw [List.forall_mem_cons] at hus
    obtain ⟨⟨hf, hkeeps, hfits⟩, hus⟩ := hus
    exact ih (hdb.upsertFile henv hf hkeeps hfits hstep) hus h

end

/-- A file that was upserted is returned as it is exactly if it round-trips, and
files that fit leave every listing readable. -/
theorem file_store_round_trips {env : FileEnv} (henv : env.Faithful) :
    (∀ (db db' : Database) (f : MediaFile) (newId : Nat → Uuid) (now : Time), Sound env db →
      FileTyped f → env.Keeps f → (f.tracks.Pairwise fun t t' => t.index < t'.index) →
      upsertFile env.toUpsertEnv db f newId now = .ok db' →
      (fileByPath env db' f.path = .ok (some (underHeld (heldAt env db f.path) f)) ↔
        RoundTripping (heldAt env db f.path) f)) ∧
    ∀ (db db' : Database) (us : List FileUpsert), Fresh db →
      (∀ u ∈ us, FileTyped u.file ∧ env.Keeps u.file ∧ FileFits u.file) →
      upsertFiles env db us = .ok db' →
      Sound env db' ∧ (∀ id, Succeeds (file env db' id)) ∧
        ∀ filters : FileFilters, filters.Paged → Succeeds (listFiles env db' filters) := by
  constructor
  · intro db db' f newId now hdb hf hkeeps hsorted h
    exact fileByPath_iff henv hdb hf hkeeps hsorted h
  · intro db db' us hfresh hus h
    have hdb : Listable env db' := (Fresh.listable hfresh).upsertFiles henv hus h
    exact ⟨hdb.sound, hdb.file henv, fun _ hpaged => hdb.listFiles henv hpaged⟩

namespace SampleStore

def tagsText : String := "\x7b\"TITLE\":\"A\"\x7d"

/-- The texts of identifier 1, of the first second of 1970 and of the maps below
are the real ones; other identifiers and times differ from them in length. -/
def env : FileEnv where
  uuid u := padded "00000000-0000-0000-0000-00000000000" u '1'
  formatDatetime t := padded "1970-01-01T00:00:00+00:00" t ' '
  rfc3339 t := padded "1970-01-01T00:00:00+00:00" t ' '
  tagsJson tags := if tags = [("TITLE", "A")] then tagsText else "\x7b\x7d"
  metadataJson _ := "\x7b\x7d"
  parseUuid s := .ok (s.length - 35)
  parseDatetime s := .ok (s.length - 25)
  parseTags s := .ok (if s = tagsText then [("TITLE", "A")] else [])
  parseMetadata _ := .ok []

theorem env_faithful : env.Faithful := by
  have hdatetime (t : Time) : env.parseDatetime (env.formatDatetime t) = .ok t := by
    have hlength : (env.formatDatetime t).length = 25 + t := length_padded _ t ' '
    change Except.ok ((env.formatDatetime t).length - 25) = _
    rw [hlength, Nat.add_sub_cancel_left]
  refine ⟨fun u => ?_, hdatetime, hdatetime⟩
  have hlength : (env.uuid u).length = 35 + u := length_padded _ u '1'
  change Except.ok ((env.uuid u).length - 35) = _
  rw [hlength, Nat.add_sub_cancel_left]

def db : Database :=
  { tables :=
      [{ name := "files", columns := fileColumns }, { name := "tracks", columns := trackColumns }] }

theorem db_fresh : Fresh db := ⟨⟨_, rfl, rfl⟩, ⟨_, rfl, rfl⟩⟩

def video : Track :=
  { index := 0, trackType := .video, codec := "hevc", width := some 3840, height := some 2160,
    frameRate := some (.finite 24), isHdr := true, hdrFormat := some "HDR10", maxCll := some 1000,
    maxFall := some 400, isAnimation := some true }

def film : MediaFile :=
  { id := 1, path := ⟨["films", "a.mkv"]⟩, size := 7000000000, contentHash := some "h",
    container := .mkv, duration := .finite 7200, bitrate := some 8000000, tracks := [video],
    tags := [("TITLE", "A")],
    cropDetection := some { left := 0, right := 0, top := 140, bottom := 140 } }

/-- The same film with a bit rate that needs all 32 bits. -/
def fastFilm : MediaFile := { film with bitrate := some (2 ^ 31) }

theorem video_typed : TrackTyped video := ⟨by simp [video]⟩

theorem film_typed : FileTyped film where
  path := by simp [film, Path.Plain]
  size := by decide
  crop := by simp [film]
  tracks := List.forall_mem_singleton.mpr video_typed

theorem film_keeps : env.Keeps film where
  tags := by
    change Except.ok (if tagsText = tagsText then [("TITLE", "A")] else []) = _
    rw [if_pos rfl]
    rfl
  metadata := rfl

theorem film_roundTripping : RoundTripping none film where
  fits := ⟨by decide, by simp [film], List.forall_mem_singleton.mpr (by constructor <;> simp [video])⟩
  numeric := List.forall_mem_singleton.mpr (by constructor <;> simp [video])
  duration := by simp [film]
  contentHash := by simp [film]
  expectedHash _ := rfl

/-- The film is returned, and the store can be listed after it. -/
theorem film_round_trips : ∃ db', upsertFile env.toUpsertEnv db film (fun _ => 2) 0 = .ok db' ∧
    fileByPath env db' film.path = .ok (some film) ∧ Succeeds (listFiles env db' {}) := by
  obtain ⟨db', hdb'⟩ : ∃ db', upsertFile env.toUpsertEnv db film (fun _ => 2) 0 = .ok db' :=
    ⟨_, rfl⟩
  refine ⟨db', hdb', ?_, ?_⟩
  · exact ((file_store_round_trips env_faithful).1 db db' film (fun _ => 2) 0
      (Fresh.listable db_fresh).sound film_typed film_keeps (by simp [film]) hdb').mpr
      film_roundTripping
  · have hus : ∀ u ∈ [FileUpsert.mk film (fun _ => 2) 0],
        FileTyped u.file ∧ env.Keeps u.file ∧ FileFits u.file :=
      List.forall_mem_singleton.mpr ⟨film_typed, film_keeps, film_roundTripping.fits⟩
    have hrun : upsertFiles env db [FileUpsert.mk film (fun _ => 2) 0] = .ok db' := by
      rw [upsertFiles, List.foldlM_cons, hdb']
      rfl
    exact ((file_store_round_trips env_faithful).2 db db' _ db_fresh hus hrun).2.2 {} fun _ => rfl

/-- The fast film is stored, and cannot be read. -/
theorem fastFilm_unreadable :
    ∃ db', upsertFile env.toUpsertEnv db fastFilm (fun _ => 2) 0 = .ok db' ∧
      ∀ mf, fileByPath env db' fastFilm.path ≠ .ok mf := by
  have htyped : FileTyped fastFilm :=
    ⟨film_typed.path, film_typed.size, film_typed.crop, film_typed.tracks⟩
  have hkeeps : env.Keeps fastFilm := ⟨film_keeps.tags, film_keeps.metadata⟩
  obtain ⟨db', hdb'⟩ : ∃ db', upsertFile env.toUpsertEnv db fastFilm (fun _ => 2) 0 = .ok db' :=
    ⟨_, rfl⟩
  have hheld : idAndHash (heldAt env db fastFilm.path) fastFilm = (1, none) := rfl
  refine ⟨db', hdb', fun mf hmf => ?_⟩
  have hfits := (fileByPath_upsertFile env_faithful (Fresh.listable db_fresh).sound htyped hkeeps
    (by simp [fastFilm, film]) hdb' hheld).2 mf hmf
  exact absurd (hfits.bitrate (2 ^ 31) rfl) (by omega)

end SampleStore

end Voom.Storage.Sqlite
