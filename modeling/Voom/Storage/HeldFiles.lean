-- SUMMARY: The files a database holds, what reading them gives, and what an upsert makes of them.
import Voom.Lib.Paging
import Voom.Lib.Sorting
import Voom.Storage.FileRoundTrip

/-!
# The files of a store

The store is seen as the list of its files, each with the rows of its tracks.
Reading rows of `files` loads all their tracks in batches, which gives each file
what loading its own tracks would give; and an upsert of the database is an
upsert of the list.
-/

namespace Voom.Storage.Sqlite

open Voom.Lib Voom.Lib.Sql Voom.Storage.Schema

/-! ## What a store holds -/

/-- A file in the store, under its identifier and its expected hash. -/
structure StoredFile where
  id : Uuid
  file : MediaFile
  expectedHash : Option Hash := none

/-- The file as it is returned: its tracks come in the order of their indices. -/
def StoredFile.asRead (s : StoredFile) : MediaFile :=
  fileAsRead s.id s.file s.expectedHash
    ((s.file.tracks.mergeSort fun t t' => t.index ≤ t'.index).map trackAsRead)

/-- The tracks under the identifier are those of the file. -/
def OwnsTracks (env : FileEnv) (tracks : List Row) (s : StoredFile) : Prop :=
  ∃ newId, tracks.filter (fun r => r "file_id" = .text (env.uuid s.id)) =
    trackRows env.toUpsertEnv newId (env.uuid s.id) s.file.tracks

/-- The database holds these files, with identifiers and paths of their own. -/
structure Holds (env : FileEnv) (db : Database) (store : List StoredFile) : Prop where
  owned : Owned db
  files : ∃ files, db.table "files" = some files ∧
    List.Forall₂ (fun r s => Stored env r s.id s.file s.expectedHash) files.rows store
  tracks : ∃ tracks, db.table "tracks" = some tracks ∧ ∀ s ∈ store, OwnsTracks env tracks.rows s
  ids : (store.map (·.id)).Nodup
  paths : (store.map (·.file.path.display)).Nodup
  typed : ∀ s ∈ store, FileTyped s.file
  keeps : ∀ s ∈ store, env.Keeps s.file

/-! ## Tracks in batches -/

section

variable {env : FileEnv} (henv : env.Faithful) {tracks : List Row}

include henv in
theorem uuid_inj {u v : Uuid} (h : env.uuid u = env.uuid v) : u = v := by
  have hparse := henv.uuid u
  rw [h, henv.uuid v] at hparse
  exact (Except.ok.inj hparse).symm

/-- The tracks of a chunk. -/
def loadChunk (env : FileEnv) (tracks : List Row) (chunk : List Uuid) :
    Except ReadError (List (Uuid × Track)) :=
  let inChunk (r : Row) : Bool := chunk.any fun id => r "file_id" = .text (env.uuid id)
  ((tracks.filter inChunk).mergeSort batchLe).mapM (rowToOwnedTrack env)

theorem loadTracksBatch_eq (fileIds : List Uuid) : loadTracksBatch env tracks fileIds = (do
    let chunks ← (fileIds.toChunks 500).mapM (loadChunk env tracks)
    return chunks.flatten) := rfl

theorem mem_chunk {chunk : List Uuid} {r : Row}
    (h : r ∈ (tracks.filter fun r => chunk.any fun id => r "file_id" = .text (env.uuid id)).mergeSort
      batchLe) : r ∈ tracks ∧ ∃ id ∈ chunk, r "file_id" = .text (env.uuid id) := by
  rw [List.mem_mergeSort, List.mem_filter] at h
  obtain ⟨hr, hchunk⟩ := h
  obtain ⟨id, hid, heq⟩ := List.any_eq_true.mp hchunk
  exact ⟨hr, id, hid, of_decide_eq_true heq⟩

include henv in
/-- A row that is read belongs to the file whose identifier it holds. -/
theorem rowToOwnedTrack_eq_ok {r : Row} {id : Uuid} (hid : r "file_id" = .text (env.uuid id))
    {p : Uuid × Track} : rowToOwnedTrack env r = .ok p ↔
      p.1 = id ∧ rowToTrack env ⟨trackColumns, r⟩ = .ok p.2 := by
  have hget : Selected.get ⟨"file_id" :: trackColumns, r⟩ asString "file_id" = .ok (env.uuid id) :=
    (Selected.get_of_mem _ List.mem_cons_self).trans (congrArg (asString "file_id") hid)
  unfold rowToOwnedTrack
  rw [rowToTrack_batch, storageErr_ok.mpr hget, ok_bind]
  constructor
  · intro h
    obtain ⟨t, ht, h⟩ := bind_eq_ok.mp h
    rw [parseUuid_uuid henv, ok_bind] at h
    obtain rfl := Except.ok.inj h
    exact ⟨rfl, storageErr_ok.mp ht⟩
  · rintro ⟨rfl, ht⟩
    rw [storageErr_ok.mpr ht, ok_bind, parseUuid_uuid henv]
    rfl

theorem batchLe_trans (a b c : Row) (hab : batchLe a b) (hbc : batchLe b c) : batchLe a c := by
  unfold batchLe at *
  grind

theorem batchLe_total (a b : Row) : batchLe a b || batchLe b a := by
  unfold batchLe
  grind

/-- The rows of one file in a chunk are those of the query for that file. -/
theorem filter_chunk {chunk : List Uuid} {id : Uuid} (hid : id ∈ chunk) :
    ((tracks.filter fun r => chunk.any fun id => r "file_id" = .text (env.uuid id)).mergeSort
        batchLe).filter (fun r => r "file_id" = .text (env.uuid id)) =
      tracksOf tracks (env.uuid id) := by
  rw [filter_mergeSort batchLe_trans batchLe_total, List.filter_filter]
  have hone : ∀ r ∈ tracks, (decide (r "file_id" = .text (env.uuid id)) &&
      chunk.any fun id => r "file_id" = .text (env.uuid id)) =
        decide (r "file_id" = .text (env.uuid id)) := by
    intro r _
    by_cases heq : r "file_id" = .text (env.uuid id)
    · have hany : chunk.any (fun id => r "file_id" = .text (env.uuid id)) = true :=
        List.any_eq_true.mpr ⟨id, hid, decide_eq_true heq⟩
      rw [hany, Bool.and_true]
    · rw [decide_eq_false heq, Bool.false_and]
  rw [List.filter_congr hone]
  unfold tracksOf
  rw [← List.map_id ((tracks.filter _).mergeSort batchLe)]
  conv_rhs => rw [← List.map_id (tracks.filter _)]
  refine List.map_mergeSort fun r hr r' hr' => ?_
  have hr := of_decide_eq_true (List.mem_filter.mp hr).2
  have hr' := of_decide_eq_true (List.mem_filter.mp hr').2
  simp [batchLe, hr, hr']

include henv in
theorem owner_of_loadChunk {chunk : List Uuid} {owned : List (Uuid × Track)}
    (h : loadChunk env tracks chunk = .ok owned) : ∀ p ∈ owned, p.1 ∈ chunk := by
  intro p hp
  obtain ⟨r, hr, hread⟩ := mem_of_mapM h hp
  obtain ⟨-, id, hid, heq⟩ := mem_chunk hr
  rw [((rowToOwnedTrack_eq_ok henv heq).mp hread).1]
  exact hid

include henv in
theorem loadChunk_tracksOf {chunk : List Uuid} {owned : List (Uuid × Track)}
    (h : loadChunk env tracks chunk = .ok owned) {id : Uuid} (hid : id ∈ chunk) :
    (tracksOf tracks (env.uuid id)).mapM (rowToOwnedTrack env) = .ok (owned.filter (·.1 = id)) := by
  rw [← filter_chunk hid]
  refine mapM_filter h fun r hr p hp => ?_
  obtain ⟨-, id', -, heq⟩ := mem_chunk hr
  have howner : p.1 = id' := ((rowToOwnedTrack_eq_ok henv heq).mp hp).1
  have hsame : env.uuid id' = env.uuid id ↔ id' = id := ⟨uuid_inj henv, congrArg env.uuid⟩
  rw [howner, heq]
  simp [hsame]

include henv in
/-- Among the chunks, the tracks of a file are those of its own chunk. -/
theorem loadChunks_tracksOf {chunks : List (List Uuid)} {owned : List (List (Uuid × Track))}
    (h : chunks.mapM (loadChunk env tracks) = .ok owned) (hnodup : chunks.flatten.Nodup) {id : Uuid}
    (hid : id ∈ chunks.flatten) :
    (tracksOf tracks (env.uuid id)).mapM (rowToOwnedTrack env) =
      .ok (owned.flatten.filter (·.1 = id)) := by
  induction chunks generalizing owned with
  | nil => cases hid
  | cons chunk chunks ih =>
    rw [List.mapM_cons] at h
    obtain ⟨first, hfirst, h⟩ := bind_eq_ok.mp h
    obtain ⟨rest, hrest, h⟩ := bind_eq_ok.mp h
    obtain rfl := Except.ok.inj h
    rw [List.flatten_cons] at hnodup hid
    obtain ⟨-, hnodup, hdisjoint⟩ := List.nodup_append.mp hnodup
    rw [List.flatten_cons, List.filter_append]
    rcases List.mem_append.mp hid with hid | hid
    · have hnone : rest.flatten.filter (fun p => decide (p.1 = id)) = [] := by
        refine List.filter_eq_nil_iff.mpr fun p hp => ?_
        obtain ⟨part, hpart, hp⟩ := List.mem_flatten.mp hp
        obtain ⟨other, hother, hload⟩ := mem_of_mapM hrest hpart
        have hmem : p.1 ∈ chunks.flatten :=
          List.mem_flatten.mpr ⟨other, hother, owner_of_loadChunk henv hload p hp⟩
        simpa using (hdisjoint id hid p.1 hmem).symm
      rw [hnone, List.append_nil]
      exact loadChunk_tracksOf henv hfirst hid
    · have hnone : first.filter (fun p => decide (p.1 = id)) = [] := by
        refine List.filter_eq_nil_iff.mpr fun p hp => ?_
        simpa using hdisjoint p.1 (owner_of_loadChunk henv hfirst p hp) id hid
      rw [hnone, List.nil_append]
      exact ih hrest hnodup hid

theorem fileId_of_mem_tracksOf {fileId : String} {r : Row} (h : r ∈ tracksOf tracks fileId) :
    r "file_id" = .text fileId := by
  unfold tracksOf at h
  rw [List.mem_mergeSort, List.mem_filter] at h
  exact of_decide_eq_true h.2

include henv in
/-- The batch query gives each file what the query for that file gives. -/
theorem loadTracks_of_batch {fileIds : List Uuid} {owned : List (Uuid × Track)}
    (h : loadTracksBatch env tracks fileIds = .ok owned) (hnodup : fileIds.Nodup) {id : Uuid}
    (hid : id ∈ fileIds) :
    loadTracks env tracks id = .ok ((owned.filter (·.1 = id)).map (·.2)) := by
  rw [loadTracksBatch_eq] at h
  obtain ⟨parts, hparts, h⟩ := bind_eq_ok.mp h
  obtain rfl := Except.ok.inj h
  rw [← toChunks_flatten 500 fileIds] at hnodup hid
  have hload := loadChunks_tracksOf henv hparts hnodup hid
  refine storageErr_ok.mpr ?_
  refine mapM_follows hload fun r hr p hp => ?_
  exact ((rowToOwnedTrack_eq_ok henv (fileId_of_mem_tracksOf hr)).mp hp).2

end

/-! ## Reading what is held -/

section

variable {env : FileEnv} (henv : env.Faithful) {tracks : List Row} {s : StoredFile}

include henv in
theorem loadTracks_owned (howns : OwnsTracks env tracks s) (ht : ∀ t ∈ s.file.tracks, TrackTyped t)
    (hfits : ∀ t ∈ s.file.tracks, TrackFits t) :
    loadTracks env tracks s.id =
      .ok ((s.file.tracks.mergeSort fun t t' => t.index ≤ t'.index).map trackAsRead) := by
  obtain ⟨newId, howns⟩ := howns
  -- the rows are sorted as their tracks are
  let toRow (p : Track × Nat) : Row :=
    trackRow env.toUpsertEnv (env.uuid (newId p.2)) (env.uuid s.id) p.1
  have hrows : tracksOf tracks (env.uuid s.id) =
      (s.file.tracks.zipIdx.mergeSort fun p p' => p.1.index ≤ p'.1.index).map toRow := by
    unfold tracksOf
    rw [howns, trackRows, List.mapIdx_eq_zipIdx_map]
    refine (List.map_mergeSort fun p _ p' _ => ?_).symm
    change _ = decide ((p.1.index : Int) ≤ p'.1.index)
    simp
  have hsorted : (s.file.tracks.zipIdx.mergeSort fun p p' => p.1.index ≤ p'.1.index).map Prod.fst =
      s.file.tracks.mergeSort fun t t' => t.index ≤ t'.index := by
    conv_rhs => rw [← List.zipIdx_map_fst 0 s.file.tracks]
    exact List.map_mergeSort fun _ _ _ _ => rfl
  unfold loadTracks
  refine storageErr_ok.mpr ?_
  rw [hrows, List.mapM_map, ← hsorted, List.map_map]
  refine mapM_eq_ok_map fun p hp => ?_
  have hmem := List.fst_mem_of_mem_zipIdx (List.mem_mergeSort.mp hp)
  exact rowToTrack_fits henv (ht p.1 hmem) (hfits p.1 hmem)

include henv in
theorem fits_of_loadTracks (howns : OwnsTracks env tracks s)
    (ht : ∀ t ∈ s.file.tracks, TrackTyped t) {read : List Track}
    (h : loadTracks env tracks s.id = .ok read) : ∀ t ∈ s.file.tracks, TrackFits t := by
  intro t htrack
  obtain ⟨newId, howns⟩ := howns
  obtain ⟨i, hrow⟩ : ∃ i, trackRow env.toUpsertEnv (env.uuid (newId i)) (env.uuid s.id) t ∈
      trackRows env.toUpsertEnv newId (env.uuid s.id) s.file.tracks := exists_trackRow htrack
  have hmem : trackRow env.toUpsertEnv (env.uuid (newId i)) (env.uuid s.id) t ∈
      tracksOf tracks (env.uuid s.id) := by
    unfold tracksOf
    rw [List.mem_mergeSort, howns]
    exact hrow
  obtain ⟨t', hread⟩ := Succeeds.mapM_iff.mp ⟨read, storageErr_ok.mp h⟩ _ hmem
  exact fits_of_rowToTrack henv (ht t htrack) hread

/-- A row of `files` with the file it holds, whose tracks are in the table. -/
structure HeldRow (env : FileEnv) (tracks : List Row) (p : Row × StoredFile) : Prop where
  stored : Stored env p.1 p.2.id p.2.file p.2.expectedHash
  tracks : OwnsTracks env tracks p.2
  typed : FileTyped p.2.file
  keeps : env.Keeps p.2.file

/-- The part of `list_files` after its query. -/
def readFiles (env : FileEnv) (tracks rows : List Row) : Except ReadError (List MediaFile) := do
  let rows ← storageErr "failed to collect files" (rows.mapM fun r => rowToFile ⟨fileColumns, r⟩)
  let fileIds ← rows.mapM fun fr => parseUuid env fr.id
  let tracksMap ← loadTracksBatch env tracks fileIds
  (rows.zip fileIds).mapM fun (fr, id) =>
    fr.toMediaFile env ((tracksMap.filter (·.1 = id)).map (·.2))

theorem listFiles_eq (db : Database) (filters : FileFilters) : listFiles env db filters = (do
    let files ← tableRows db "files"
    let tracks ← tableRows db "tracks"
    let rows ← paginate filters ((files.filter (filters.selects tracks)).mergeSort pathLe)
    readFiles env tracks rows) := rfl

variable {held : List (Row × StoredFile)} (hheld : ∀ p ∈ held, HeldRow env tracks p)

include henv hheld in
theorem loadTracksBatch_held (hfits : ∀ p ∈ held, FileFits p.2.file) :
    Succeeds (loadTracksBatch env tracks (held.map (·.2.id))) := by
  rw [loadTracksBatch_eq]
  refine Succeeds.bind_pure_iff.mpr (Succeeds.mapM_iff.mpr fun chunk hchunk => ?_)
  refine Succeeds.mapM_iff.mpr fun r hr => ?_
  obtain ⟨hr, id, hid, heq⟩ := mem_chunk hr
  have hmem : id ∈ held.map (·.2.id) := by
    rw [← toChunks_flatten 500 (held.map (·.2.id))]
    exact List.mem_flatten.mpr ⟨chunk, hchunk, hid⟩
  obtain ⟨p, hp, rfl⟩ := List.mem_map.mp hmem
  obtain ⟨newId, howns⟩ := (hheld p hp).tracks
  have hrow : r ∈ trackRows env.toUpsertEnv newId (env.uuid p.2.id) p.2.file.tracks := by
    rw [← howns]
    exact List.mem_filter.mpr ⟨hr, decide_eq_true heq⟩
  obtain ⟨i, t, ht, rfl⟩ := mem_trackRows hrow
  refine ⟨(p.2.id, trackAsRead t), (rowToOwnedTrack_eq_ok henv heq).mpr ⟨rfl, ?_⟩⟩
  exact rowToTrack_fits henv ((hheld p hp).typed.tracks t ht) ((hfits p hp).tracks t ht)

omit hheld in
include henv in
theorem mapM_parseUuid_held :
    (held.map fun p => storedFileRow env p.2.id p.2.file p.2.expectedHash).mapM
      (fun fr => parseUuid env fr.id) = .ok (held.map (·.2.id)) := by
  rw [List.mapM_map]
  exact mapM_eq_ok_map fun p _ => parseUuid_uuid henv p.2.id

include hheld in
theorem mapM_rowToFile_held (hsize : ∀ p ∈ held, p.2.file.size < 2 ^ 63)
    (hbitrate : ∀ p ∈ held, ∀ n ∈ p.2.file.bitrate, n < 2 ^ 31) :
    (held.map (·.1)).mapM (fun r => rowToFile ⟨fileColumns, r⟩) =
      .ok (held.map fun p => storedFileRow env p.2.id p.2.file p.2.expectedHash) := by
  rw [List.mapM_map]
  exact mapM_eq_ok_map fun p hp =>
    rowToFile_fits (hheld p hp).typed (hheld p hp).stored (hsize p hp) (hbitrate p hp)

include henv hheld in
/-- Files that fit are read as they are held. -/
theorem readFiles_held (hids : (held.map (·.2.id)).Nodup) (hfits : ∀ p ∈ held, FileFits p.2.file) :
    readFiles env tracks (held.map (·.1)) = .ok (held.map (·.2.asRead)) := by
  have hrows := mapM_rowToFile_held hheld (fun p hp => (hfits p hp).size)
    fun p hp => (hfits p hp).bitrate
  obtain ⟨owned, howned⟩ := loadTracksBatch_held henv hheld hfits
  unfold readFiles
  rw [storageErr_ok.mpr hrows, ok_bind, mapM_parseUuid_held henv, ok_bind, howned, ok_bind,
    List.zip_map', List.mapM_map]
  refine mapM_eq_ok_map fun p hp => ?_
  have htracks : (owned.filter (·.1 = p.2.id)).map (·.2) =
      (p.2.file.tracks.mergeSort fun t t' => t.index ≤ t'.index).map trackAsRead := by
    have hbatch := loadTracks_of_batch henv howned hids (List.mem_map_of_mem hp)
    rw [loadTracks_owned henv (hheld p hp).tracks (hheld p hp).typed.tracks (hfits p hp).tracks]
      at hbatch
    exact (Except.ok.inj hbatch).symm
  change (storedFileRow env p.2.id p.2.file p.2.expectedHash).toMediaFile env
    ((owned.filter (·.1 = p.2.id)).map (·.2)) = _
  rw [htracks]
  exact toMediaFile_stored henv (hheld p hp).typed (hheld p hp).keeps _

include henv hheld in
theorem fits_of_readFiles (hids : (held.map (·.2.id)).Nodup) {mfs : List MediaFile}
    (h : readFiles env tracks (held.map (·.1)) = .ok mfs) : ∀ p ∈ held, FileFits p.2.file := by
  unfold readFiles at h
  obtain ⟨rows, hrows, h⟩ := bind_eq_ok.mp h
  have hrows := storageErr_ok.mp hrows
  have hnumbers : ∀ p ∈ held, p.2.file.size < 2 ^ 63 ∧ ∀ n ∈ p.2.file.bitrate, n < 2 ^ 31 := by
    intro p hp
    obtain ⟨fr, hread⟩ := Succeeds.mapM_iff.mp ⟨rows, hrows⟩ p.1 (List.mem_map_of_mem hp)
    exact fits_of_rowToFile (hheld p hp).typed (hheld p hp).stored hread
  rw [mapM_rowToFile_held hheld (fun p hp => (hnumbers p hp).1) fun p hp => (hnumbers p hp).2]
    at hrows
  obtain rfl := Except.ok.inj hrows
  rw [mapM_parseUuid_held henv, ok_bind] at h
  obtain ⟨owned, howned, -⟩ := bind_eq_ok.mp h
  intro p hp
  have hload := loadTracks_of_batch henv howned hids (List.mem_map_of_mem hp)
  exact ⟨(hnumbers p hp).1, (hnumbers p hp).2,
    fits_of_loadTracks henv (hheld p hp).tracks (hheld p hp).typed.tracks hload⟩

end

/-! ## Upserts -/

/-- What an upsert makes of the files: a path keeps its identifier and its expected hash. -/
def upserted (store : List StoredFile) (f : MediaFile) : List StoredFile :=
  if store.any (·.file.path.display = f.path.display) then
    store.map fun s => if s.file.path.display = f.path.display then { s with file := f } else s
  else store ++ [{ id := f.id, file := f }]

section

variable {env : FileEnv} (henv : env.Faithful) {db db' : Database} {store : List StoredFile}
  (hdb : Holds env db store) {f : MediaFile} {newId : Nat → Uuid} {now : Time}

include hdb in
/-- The rows of the store, with the files they hold. -/
theorem Holds.rows : ∃ files tracks, ∃ held : List (Row × StoredFile),
    db.table "files" = some files ∧ db.table "tracks" = some tracks ∧
      files.rows = held.map (·.1) ∧ store = held.map (·.2) ∧
      ∀ p ∈ held, HeldRow env tracks.rows p := by
  obtain ⟨files, hfiles, hrows⟩ := hdb.files
  obtain ⟨tracks, htracks, howns⟩ := hdb.tracks
  obtain ⟨hlength, hzip⟩ := List.forall₂_iff_zip.mp hrows
  refine ⟨files, tracks, files.rows.zip store, hfiles, htracks,
    (List.map_fst_zip (Nat.le_of_eq hlength)).symm,
    (List.map_snd_zip (Nat.le_of_eq hlength.symm)).symm, fun p hp => ?_⟩
  have hs := (List.of_mem_zip hp).2
  exact ⟨hzip hp, howns p.2 hs, hdb.typed p.2 hs, hdb.keeps p.2 hs⟩

theorem HeldRow.hasPath {tracks : List Row} {p : Row × StoredFile} (hp : HeldRow env tracks p)
    (path : String) : Sqlite.hasPath path p.1 = decide (p.2.file.path.display = path) := by
  have hpath : p.1 "path" = .text p.2.file.path.display :=
    hp.stored.1 "path" (by decide) (by decide)
  unfold Sqlite.hasPath
  rw [hpath]
  simp

theorem HeldRow.id {tracks : List Row} {p : Row × StoredFile} (hp : HeldRow env tracks p) :
    p.1 "id" = .text (env.uuid p.2.id) :=
  hp.stored.1 "id" (by decide) (by decide)

include hdb in
theorem Holds.sound : Sound env db := by
  obtain ⟨files, tracks, held, hfiles, -, hrows, -, hheld⟩ := hdb.rows
  refine ⟨hdb.owned, fun files' hfiles' r hr => ?_, fun files' hfiles' r hr => ?_⟩
  · obtain rfl := Option.some.inj (hfiles.symm.trans hfiles')
    obtain ⟨p, hp, rfl⟩ := List.mem_map.mp (hrows ▸ hr)
    exact ⟨p.2.id, (hheld p hp).id⟩
  · obtain rfl := Option.some.inj (hfiles.symm.trans hfiles')
    obtain ⟨p, hp, rfl⟩ := List.mem_map.mp (hrows ▸ hr)
    exact ⟨p.2.expectedHash, (hheld p hp).stored.2⟩

include henv in
/-- The tracks of a file at another path stay. -/
theorem owns_other {files tracks : List Row} {path : String} {s : StoredFile} {u : Uuid}
    (howns : OwnsTracks env tracks s) (hne : s.id ≠ u)
    (hother : ∀ r ∈ files, hasPath path r = true → r "id" ≠ .text (env.uuid s.id)) :
    OwnsTracks env ((tracks.filter fun r => !ofPath path files r) ++
      trackRows env.toUpsertEnv newId (env.uuid u) f.tracks) s := by
  obtain ⟨ids, howns⟩ := howns
  refine ⟨ids, ?_⟩
  have hnew : (trackRows env.toUpsertEnv newId (env.uuid u) f.tracks).filter
      (fun r => decide (r "file_id" = .text (env.uuid s.id))) = [] := by
    refine List.filter_eq_nil_iff.mpr fun r hr => ?_
    obtain ⟨i, t, -, rfl⟩ := mem_trackRows hr
    have hfile : trackRow env.toUpsertEnv (env.uuid (newId i)) (env.uuid u) t "file_id" =
        .text (env.uuid u) := rfl
    rw [hfile, decide_eq_true_eq]
    exact fun heq => hne (uuid_inj henv (Value.text.inj heq)).symm
  rw [List.filter_append, hnew, List.append_nil, List.filter_filter, ← howns]
  refine List.filter_congr fun r _ => ?_
  by_cases heq : r "file_id" = .text (env.uuid s.id)
  · have hkept : ofPath path files r = false := by
      refine List.any_eq_false.mpr fun file hfile hof => ?_
      simp only [Bool.and_eq_true, decide_eq_true_eq] at hof
      exact hother file hfile hof.1.1 (hof.1.2.symm.trans heq)
    rw [hkept, Bool.not_false, Bool.and_true]
  · rw [decide_eq_false heq, Bool.false_and]

include henv hdb in
/-- The path is in the store: its file is replaced. -/
theorem Holds.replace (hf : FileTyped f) (hkeeps : env.Keeps f) {files tracks : Table}
    (hfiles : db.table "files" = some files) (htracks : db.table "tracks" = some tracks)
    {s : StoredFile} (hs : s ∈ store) (hpath : s.file.path.display = f.path.display) {r : Row}
    (hr : ∃ id, r = fileRow env.toUpsertEnv id f now) (howned : Owned db')
    (hfiles' : db'.table "files" = some { files with
      rows := files.rows.map fun old => if Sqlite.hasPath f.path.display old then updated r old else old })
    (htracks' : db'.table "tracks" = some { tracks with
      rows := (tracks.rows.filter fun r => !ofPath f.path.display files.rows r) ++
        trackRows env.toUpsertEnv newId (env.uuid s.id) f.tracks }) :
    Holds env db' (store.map fun s =>
      if s.file.path.display = f.path.display then { s with file := f } else s) := by
  obtain ⟨files₁, tracks₁, held, hfiles₁, htracks₁, hrows, rfl, hheld⟩ := hdb.rows
  obtain rfl := Option.some.inj (hfiles.symm.trans hfiles₁)
  obtain rfl := Option.some.inj (htracks.symm.trans htracks₁)
  obtain ⟨id, rfl⟩ := hr
  have hsame : ∀ s' ∈ held.map (·.2), s'.file.path.display = f.path.display → s' = s :=
    fun s' hs' hpath' => List.inj_on_of_nodup_map hdb.paths hs' hs (hpath'.trans hpath.symm)
  refine ⟨howned, ⟨_, hfiles', ?_⟩, ⟨_, htracks', ?_⟩, ?_, ?_, ?_, ?_⟩
  · rw [hrows, List.map_map, List.map_map, List.forall₂_map_left_iff, List.forall₂_map_right_iff,
      List.forall₂_same]
    intro p hp
    simp only [Function.comp_apply, (hheld p hp).hasPath, decide_eq_true_eq]
    split
    · rename_i hpath'
      exact stored_updated (hheld p hp).id
        (((hheld p hp).hasPath _).trans (decide_eq_true hpath')) (hheld p hp).stored.2
    · exact (hheld p hp).stored
  · intro s' hs'
    obtain ⟨s'', hs'', rfl⟩ := List.mem_map.mp hs'
    obtain ⟨p, hp, rfl⟩ := List.mem_map.mp hs''
    split
    · rename_i hpath'
      obtain rfl := hsame _ hs'' hpath'
      refine ⟨newId, filter_fileId (fun r hr => ?_) _⟩
      obtain ⟨hr, hkept⟩ := List.mem_filter.mp hr
      refine kept_file_id (hdb.owned files tracks hfiles htracks) (.inl ⟨p.1, ?_, ?_, ?_⟩) r hr hkept
      · exact hrows ▸ List.mem_map_of_mem hp
      · exact ((hheld p hp).hasPath _).trans (decide_eq_true hpath')
      · exact (hheld p hp).id
    · rename_i hpath'
      have hne : p.2.id ≠ s.id := by
        intro heq
        exact hpath' (List.inj_on_of_nodup_map hdb.ids hs'' hs heq ▸ hpath)
      refine owns_other henv (hheld p hp).tracks hne fun r hr hat heq => ?_
      obtain ⟨q, hq, rfl⟩ := List.mem_map.mp (hrows ▸ hr)
      have hq' := List.mem_map_of_mem (f := fun p : Row × StoredFile => p.2) hq
      have hat := of_decide_eq_true (((hheld q hq).hasPath _).symm.trans hat)
      have hid := uuid_inj henv (Value.text.inj ((hheld q hq).id.symm.trans heq))
      exact hpath' (List.inj_on_of_nodup_map hdb.ids hq' hs'' hid ▸ hat)
  · rw [List.map_map]
    have hids : (held.map (·.2)).map ((fun s : StoredFile => s.id) ∘ fun s =>
        if s.file.path.display = f.path.display then { s with file := f } else s) =
          (held.map (·.2)).map (·.id) := by
      refine List.map_congr_left fun s' _ => ?_
      simp only [Function.comp_apply]
      split <;> rfl
    rw [hids]
    exact hdb.ids
  · rw [List.map_map]
    have hpaths : (held.map (·.2)).map ((fun s : StoredFile => s.file.path.display) ∘ fun s =>
        if s.file.path.display = f.path.display then { s with file := f } else s) =
          (held.map (·.2)).map (·.file.path.display) := by
      refine List.map_congr_left fun s' _ => ?_
      simp only [Function.comp_apply]
      split
      · rename_i hpath'
        exact hpath'.symm
      · rfl
    rw [hpaths]
    exact hdb.paths
  · intro s' hs'
    obtain ⟨s'', hs'', rfl⟩ := List.mem_map.mp hs'
    split
    · exact hf
    · exact hdb.typed s'' hs''
  · intro s' hs'
    obtain ⟨s'', hs'', rfl⟩ := List.mem_map.mp hs'
    split
    · exact hkeeps
    · exact hdb.keeps s'' hs''

include henv hdb in
/-- The path is new: its file comes last. -/
theorem Holds.add (hf : FileTyped f) (hkeeps : env.Keeps f) {files tracks : Table}
    (hfiles : db.table "files" = some files) (htracks : db.table "tracks" = some tracks)
    (hpath : ∀ s ∈ store, s.file.path.display ≠ f.path.display) (hid : ∀ s ∈ store, s.id ≠ f.id)
    (howned : Owned db')
    (hfiles' : db'.table "files" = some { files with
      rows := files.rows ++ [fileRow env.toUpsertEnv (env.uuid f.id) f now] })
    (htracks' : db'.table "tracks" = some { tracks with
      rows := (tracks.rows.filter fun r => !ofPath f.path.display files.rows r) ++
        trackRows env.toUpsertEnv newId (env.uuid f.id) f.tracks }) :
    Holds env db' (store ++ [{ id := f.id, file := f }]) := by
  obtain ⟨files₁, tracks₁, held, hfiles₁, htracks₁, hrows, rfl, hheld⟩ := hdb.rows
  obtain rfl := Option.some.inj (hfiles.symm.trans hfiles₁)
  obtain rfl := Option.some.inj (htracks.symm.trans htracks₁)
  have hrowIds : ∀ r ∈ files.rows, ∃ s ∈ held.map (·.2), r "id" = .text (env.uuid s.id) ∧
      Sqlite.hasPath f.path.display r = false := by
    intro r hr
    obtain ⟨p, hp, rfl⟩ := List.mem_map.mp (hrows ▸ hr)
    have hs := List.mem_map_of_mem (f := fun p : Row × StoredFile => p.2) hp
    exact ⟨p.2, hs, (hheld p hp).id, ((hheld p hp).hasPath _).trans (decide_eq_false (hpath p.2 hs))⟩
  refine ⟨howned, ⟨_, hfiles', ?_⟩, ⟨_, htracks', ?_⟩, ?_, ?_, ?_, ?_⟩
  · refine List.rel_append ?_ (.cons stored_new .nil)
    rw [hrows, List.forall₂_map_left_iff, List.forall₂_map_right_iff, List.forall₂_same]
    exact fun p hp => (hheld p hp).stored
  · intro s hs
    rcases List.mem_append.mp hs with hs | hs
    · obtain ⟨p, hp, rfl⟩ := List.mem_map.mp hs
      refine owns_other henv (hheld p hp).tracks (hid p.2 hs) fun r hr hat _ => ?_
      obtain ⟨s, -, -, hnot⟩ := hrowIds r hr
      rw [hnot] at hat
      cases hat
    · obtain rfl := List.mem_singleton.mp hs
      refine ⟨newId, filter_fileId (fun r hr => ?_) _⟩
      obtain ⟨hr, hkept⟩ := List.mem_filter.mp hr
      refine kept_file_id (hdb.owned files tracks hfiles htracks) (.inr fun r hr heq => ?_) r hr hkept
      obtain ⟨s, hs, hrow, -⟩ := hrowIds r hr
      exact hid s hs (uuid_inj henv (Value.text.inj (hrow.symm.trans heq)))
  · rw [List.map_append, List.nodup_append]
    refine ⟨hdb.ids, List.nodup_singleton _, fun id hmem id' hmem' => ?_⟩
    obtain ⟨s, hs, rfl⟩ := List.mem_map.mp hmem
    obtain rfl := List.mem_singleton.mp hmem'
    exact hid s hs
  · rw [List.map_append, List.nodup_append]
    refine ⟨hdb.paths, List.nodup_singleton _, fun path hmem path' hmem' => ?_⟩
    obtain ⟨s, hs, rfl⟩ := List.mem_map.mp hmem
    obtain rfl := List.mem_singleton.mp hmem'
    exact hpath s hs
  · intro s hs
    rcases List.mem_append.mp hs with hs | hs
    · exact hdb.typed s hs
    · obtain rfl := List.mem_singleton.mp hs
      exact hf
  · intro s hs
    rcases List.mem_append.mp hs with hs | hs
    · exact hdb.keeps s hs
    · obtain rfl := List.mem_singleton.mp hs
      exact hkeeps

include henv hdb in
/-- An upsert of the database is an upsert of its files. -/
theorem Holds.upsertFile (hf : FileTyped f) (hkeeps : env.Keeps f)
    (h : upsertFile env.toUpsertEnv db f newId now = .ok db') : Holds env db' (upserted store f) := by
  have howned := hdb.owned.upsertFile h
  obtain ⟨files, tracks, existing, fileRows, hfiles, htracks, hexisting, hfileRows, rfl⟩ :=
    upsertFile_ok h
  obtain ⟨files₁, tracks₁, held, hfiles₁, htracks₁, hrows, rfl, hheld⟩ := hdb.rows
  obtain rfl := Option.some.inj (hfiles.symm.trans hfiles₁)
  have hfiles' : ∀ rows, (setRows (setRows db "files" fileRows) "tracks" rows).table "files" =
      some { files with rows := fileRows } := fun _ =>
    (table_setRows_ne (by decide)).trans (table_setRows_self _ hfiles)
  have htracks' : ∀ rows, (setRows (setRows db "files" fileRows) "tracks" rows).table "tracks" =
      some { tracks with rows } := fun rows =>
    table_setRows_self rows ((table_setRows_ne (by decide)).trans htracks)
  unfold upserted
  rcases held_cases henv hdb.sound hfiles hexisting with
    ⟨old, u, expected, hfind, hold, -, rfl, -⟩ | ⟨hfind, rfl, -⟩
  · obtain ⟨p, hp, rfl⟩ := List.mem_map.mp (hrows ▸ List.mem_of_find?_eq_some hfind)
    have hpath := of_decide_eq_true (((hheld p hp).hasPath _).symm.trans (List.find?_some hfind))
    obtain rfl := uuid_inj henv (Value.text.inj (hold.symm.trans (hheld p hp).id))
    have hs := List.mem_map_of_mem (f := fun p : Row × StoredFile => p.2) hp
    rw [if_pos (List.any_eq_true.mpr ⟨p.2, hs, decide_eq_true hpath⟩)]
    obtain ⟨-, rfl⟩ | ⟨hnone, -, -⟩ := upsertFileRow_cases hfileRows
    · exact hdb.replace henv hf hkeeps hfiles htracks hs hpath ⟨_, rfl⟩ howned (hfiles' _) (htracks' _)
    · have hany := List.any_eq_false.mp hnone p.1 (hrows ▸ List.mem_map_of_mem hp)
      exact absurd (List.find?_some hfind) hany
  · have hnone : ∀ s ∈ held.map (·.2), s.file.path.display ≠ f.path.display := by
      intro s hs heq
      obtain ⟨p, hp, rfl⟩ := List.mem_map.mp hs
      have hat := ((hheld p hp).hasPath f.path.display).trans (decide_eq_true heq)
      exact List.find?_eq_none.mp hfind p.1 (hrows ▸ List.mem_map_of_mem hp) hat
    have hany : (held.map (·.2)).any (fun s => s.file.path.display = f.path.display) = false :=
      List.any_eq_false.mpr fun s hs => by simpa using hnone s hs
    rw [if_neg (by rw [hany]; exact Bool.false_ne_true)]
    obtain ⟨hsome, -⟩ | ⟨-, hclash, rfl⟩ := upsertFileRow_cases hfileRows
    · obtain ⟨r, hr, hat⟩ := List.any_eq_true.mp hsome
      exact absurd hat (List.find?_eq_none.mp hfind r hr)
    · refine hdb.add henv hf hkeeps hfiles htracks hnone (fun s hs heq => ?_) howned (hfiles' _)
        (htracks' _)
      obtain ⟨p, hp, rfl⟩ := List.mem_map.mp hs
      have hno := List.any_eq_false.mp hclash p.1 (hrows ▸ List.mem_map_of_mem hp)
      have hnew : fileRow env.toUpsertEnv (env.uuid f.id) f now "id" = .text (env.uuid f.id) := rfl
      simp [Row.clashes, hnew, (hheld p hp).id, heq] at hno

theorem Fresh.holds (h : Fresh db) : Holds env db [] := by
  have hlistable : Listable env db := Fresh.listable h
  obtain ⟨⟨files, hfiles, hnone⟩, tracks, htracks, -⟩ := h
  have hempty {p : StoredFile → Prop} : ∀ s ∈ ([] : List StoredFile), p s :=
    List.forall_mem_nil p
  refine ⟨hlistable.owned, ⟨files, hfiles, ?_⟩, ⟨tracks, htracks, hempty⟩, .nil, .nil, hempty, hempty⟩
  rw [hnone]
  exact .nil

include henv hdb in
end

end Voom.Storage.Sqlite
