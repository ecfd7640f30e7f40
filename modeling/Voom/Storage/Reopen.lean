-- SUMMARY: When opening a database again leaves the stored files as the parser gave them.
import Voom.Introspector.Ffprobe
import Voom.Migration.Migrate
import Voom.Storage.Upsert

/-!
# Reopening

Every start runs `create_schema` on the database, which by then has the current layout:
what is left to do is to turn video tracks with image codecs into attachments. The parser
decides by the evidence of motion whether such a stream is cover art, the migration by the
codec alone. The two agree on a file exactly if none of its moving streams has an image
codec, with MJPEG allowed as the only one.
-/

namespace Voom.Storage.Sqlite

open Voom.Introspector Voom.Lib.Sql Voom.Storage.Schema

/-! ## Tables of a database -/

theorem setRows_sameLayout (db : Database) (name : String) (rows : List Row) :
    SameLayout db (setRows db name rows) :=
  SameLayout.modifyTable name (fun _ => rfl) fun _ => rfl

theorem table_setRows (db : Database) (name n : String) (rows : List Row) :
    (setRows db name rows).table n =
      (db.table n).map fun t => if t.name = name then { t with rows } else t := by
  apply Database.table_modifyTable
  exact fun _ => rfl

theorem table_setRows_self {db : Database} {name : String} {t : Table} (rows : List Row)
    (h : db.table name = some t) : (setRows db name rows).table name = some { t with rows } := by
  rw [table_setRows, h, Option.map_some, if_pos (Database.table_eq_some h).2]

theorem table_setRows_ne {db : Database} {name n : String} {rows : List Row} (h : n ≠ name) :
    (setRows db name rows).table n = db.table n := by
  rw [table_setRows]
  cases ht : db.table n with
  | none => rfl
  | some t =>
    have hne : t.name ≠ name := (Database.table_eq_some ht).2 ▸ h
    rw [Option.map_some, if_neg hne]

/-! ## Rows that the migration leaves alone -/

/-- No video track has an image codec, and no MJPEG track another video track beside it. -/
def SettledRows (rows : List Row) : Prop :=
  ∀ r ∈ rows, isVideo r = true →
    hasCodec imageCodecs r = false ∧
      (hasCodec ["mjpeg"] r = true → hasSiblingVideo rows r = false)

theorem eq_self_of_update {t : Table} {f : List Row → Row → Row} (h : t.update f = t) {r : Row}
    (hr : r ∈ t.rows) : f t.rows r = r := by
  have hrows : t.rows.map (f t.rows) = t.rows := congrArg Table.rows h
  exact List.map_inj_left.mp (hrows.trans (List.map_id t.rows).symm) r hr

theorem toAttachment_ne {r : Row} (h : isVideo r = true) : toAttachment r ≠ r := by
  intro heq
  rw [← heq, isVideo_toAttachment] at h
  cases h

theorem settledRows_iff {t : Table} :
    (t.update reclassifyImages = t ∧ t.update reclassifyMjpeg = t) ↔ SettledRows t.rows := by
  constructor
  · rintro ⟨himages, hmjpeg⟩ r hr hvideo
    constructor
    · obtain ⟨-, -, heq⟩ | ⟨hnot, -⟩ := reclassifyImages_cases t.rows r
      · exact absurd (heq.symm.trans (eq_self_of_update himages hr)) (toAttachment_ne hvideo)
      · exact Bool.eq_false_iff.mpr fun hcodec => hnot ⟨hvideo, hcodec⟩
    · intro hcodec
      obtain ⟨-, -, -, heq⟩ | ⟨hnot, -⟩ := reclassifyMjpeg_cases t.rows r
      · exact absurd (heq.symm.trans (eq_self_of_update hmjpeg hr)) (toAttachment_ne hvideo)
      · exact Bool.eq_false_iff.mpr fun hsibling => hnot ⟨hvideo, hcodec, hsibling⟩
  · intro h
    constructor
    · refine update_eq_self fun r hr => ?_
      obtain ⟨hvideo, hcodec, -⟩ | ⟨-, heq⟩ := reclassifyImages_cases t.rows r
      · rw [(h r hr hvideo).1] at hcodec
        cases hcodec
      · exact heq
    · refine update_eq_self fun r hr => ?_
      obtain ⟨hvideo, hcodec, hsibling, -⟩ | ⟨-, heq⟩ := reclassifyMjpeg_cases t.rows r
      · rw [(h r hr hvideo).2 hcodec] at hsibling
        cases hsibling
      · exact heq

/-- Under a key of tables, the migration has nothing to do if the rows of `tracks` are settled. -/
theorem settled_iff {db : Database} (hkeyed : Lib.Table.Keyed Table.name db.tables) {t : Table}
    (ht : db.table "tracks" = some t) : Settled db ↔ SettledRows t.rows := by
  obtain ⟨hmem, hname⟩ := Database.table_eq_some ht
  constructor
  · intro h
    exact settledRows_iff.mp (h t hmem hname)
  · intro h t' ht' hname'
    obtain rfl := hkeyed.eq_of_key hmem ht' (hname.trans hname'.symm)
    exact settledRows_iff.mpr h

/-- The step for cover art cannot fail. -/
theorem run_coverArt_ok (db : Database) : ∃ db', run migrateCoverArtTrackTypes db = .ok db' := by
  have hupdate (db : Database) (f : List Row → Row → Row) (hn : db.hasTable "tracks" = true) :
      exec db (.update "tracks" f) = .ok (db.modifyTable "tracks" (·.update f)) := by
    obtain ⟨t, ht⟩ := Database.table_of_hasTable hn
    simp only [exec, ht]
  by_cases hn : db.hasTable "tracks" = true
  · have hn' : (db.modifyTable "tracks" (·.update reclassifyImages)).hasTable "tracks" = true := by
      refine (Database.hasTable_modifyTable ?_ _).trans hn
      exact fun _ => rfl
    have hbody :
        execAll [.update "tracks" reclassifyImages, .update "tracks" reclassifyMjpeg] db =
          .ok ((db.modifyTable "tracks" (·.update reclassifyImages)).modifyTable "tracks"
            (·.update reclassifyMjpeg)) := by
      simp only [execAll, hupdate db _ hn, hupdate _ _ hn']
    simp only [migrateCoverArtTrackTypes, run, Step.run, hbody]
    split
    · rename_i herror
      split at herror
      · cases herror
      · cases herror
    · exact ⟨_, rfl⟩
  · exact ⟨db, by simp [migrateCoverArtTrackTypes, run, Step.run, Guard.holds, hn]⟩

/-- On a current database `create_schema` is idle exactly if the tracks are settled. -/
theorem createSchema_idle_iff {db : Database} (h : Current db) :
    createSchema db = .ok db ↔ Settled db := by
  constructor
  · intro hcreate
    obtain ⟨db', hdb'⟩ := run_coverArt_ok db
    obtain rfl := Except.ok.inj (hcreate.symm.trans (h.createSchema_eq hdb'))
    exact settled_coverArt hdb'
  · intro hsettled
    exact h.createSchema_eq hsettled.run_coverArt

/-! ## The tracks of one file among the others -/

section

variable {rows new : List Row} {p : Row → Bool} {id : Value}
  (hkept : ∀ r ∈ rows, p r = true → r "file_id" ≠ id)
  (hnew : ∀ r ∈ new, r "file_id" = id)
include hkept hnew

/-- Rows that stay keep their siblings. -/
theorem hasSiblingVideo_kept (hp : ∀ r r', r "file_id" = r' "file_id" → p r = p r') {r : Row} (hr : r ∈ rows) (hpr : p r = true) :
    hasSiblingVideo (rows.filter p ++ new) r = hasSiblingVideo rows r := by
  have hothers : (new.filter fun r' => isVideo r' && r' "file_id" = r "file_id") = [] := by
    refine List.filter_eq_nil_iff.mpr fun r' hr' hsame => ?_
    simp only [Bool.and_eq_true, decide_eq_true_eq] at hsame
    exact hkept r hr hpr (hsame.2.symm.trans (hnew r' hr'))
  have hsame : ((rows.filter p).filter fun r' => isVideo r' && r' "file_id" = r "file_id") =
      rows.filter fun r' => isVideo r' && r' "file_id" = r "file_id" := by
    rw [List.filter_filter]
    refine List.filter_congr fun r' _ => ?_
    by_cases heq : r' "file_id" = r "file_id"
    · rw [hp r' r heq, hpr, Bool.and_true]
    · simp [heq]
  rw [hasSiblingVideo, hasSiblingVideo, List.filter_append, hothers, hsame, List.append_nil]

/-- The new rows are siblings of each other and of no other row. -/
theorem hasSiblingVideo_new (hid : id ≠ .null) {r : Row} (hr : r ∈ new) :
    hasSiblingVideo (rows.filter p ++ new) r = decide (1 < (new.filter isVideo).length) := by
  have hothers : ((rows.filter p).filter fun r' => isVideo r' && r' "file_id" = r "file_id") =
      [] := by
    refine List.filter_eq_nil_iff.mpr fun r' hr' hsame => ?_
    obtain ⟨hr', hp'⟩ := List.mem_filter.mp hr'
    simp only [Bool.and_eq_true, decide_eq_true_eq] at hsame
    exact hkept r' hr' hp' (hsame.2.trans (hnew r hr))
  have hsame : (new.filter fun r' => isVideo r' && r' "file_id" = r "file_id") =
      new.filter isVideo := by
    refine List.filter_congr fun r' hr' => ?_
    rw [hnew r hr, hnew r' hr', decide_eq_true rfl, Bool.and_true]
  rw [hasSiblingVideo, List.filter_append, hothers, hsame, List.nil_append, hnew r hr,
    decide_eq_true hid, Bool.true_and]

theorem settledRows_append (hp : ∀ r r', r "file_id" = r' "file_id" → p r = p r')
    (hid : id ≠ .null) (hsettled : SettledRows rows) :
    SettledRows (rows.filter p ++ new) ↔
      ∀ r ∈ new, isVideo r = true →
        hasCodec imageCodecs r = false ∧
          (hasCodec ["mjpeg"] r = true → (new.filter isVideo).length ≤ 1) := by
  constructor
  · intro h r hr hvideo
    obtain ⟨himage, hmjpeg⟩ := h r (List.mem_append_right _ hr) hvideo
    refine ⟨himage, fun hcodec => ?_⟩
    have hsibling := hmjpeg hcodec
    rw [hasSiblingVideo_new hkept hnew hid hr] at hsibling
    exact Nat.not_lt.mp (of_decide_eq_false hsibling)
  · intro h r hr hvideo
    rcases List.mem_append.mp hr with hr | hr
    · obtain ⟨hr, hpr⟩ := List.mem_filter.mp hr
      rw [hasSiblingVideo_kept hkept hnew hp hr hpr]
      exact hsettled r hr hvideo
    · rw [hasSiblingVideo_new hkept hnew hid hr]
      obtain ⟨himage, hmjpeg⟩ := h r hr hvideo
      exact ⟨himage, fun hcodec => decide_eq_false (Nat.not_lt.mpr (hmjpeg hcodec))⟩

end

/-! ## The rows of tracks -/

section

variable {env : UpsertEnv} {newId : Nat → Uuid} {fileId : String} {tracks : List Track}

theorem isVideo_trackRow (id : String) (track : Track) :
    isVideo (trackRow env id fileId track) = decide (track.trackType = .video) := by
  have hvalue : trackRow env id fileId track "track_type" = .text track.trackType.asStr := rfl
  rw [isVideo, hvalue]
  cases track.trackType <;> decide

theorem hasCodec_trackRow (codecs : List String) (id : String) (track : Track) :
    hasCodec codecs (trackRow env id fileId track) = codecs.contains track.codec := by
  have hvalue : trackRow env id fileId track "codec" = .text track.codec := rfl
  rw [Bool.eq_iff_iff]
  simp only [hasCodec, hvalue, Value.text.injEq, List.any_eq_true, decide_eq_true_eq,
    List.contains_iff_mem]
  constructor
  · rintro ⟨c, hc, rfl⟩
    exact hc
  · exact fun h => ⟨_, h, rfl⟩

theorem mem_trackRows {r : Row} (h : r ∈ trackRows env newId fileId tracks) :
    ∃ i, ∃ track ∈ tracks, r = trackRow env (env.uuid (newId i)) fileId track := by
  obtain ⟨i, hi, rfl⟩ := List.mem_mapIdx.mp h
  exact ⟨i, _, List.getElem_mem hi, rfl⟩

theorem exists_trackRow {track : Track} (h : track ∈ tracks) :
    ∃ i, trackRow env (env.uuid (newId i)) fileId track ∈ trackRows env newId fileId tracks := by
  obtain ⟨i, hi, rfl⟩ := List.getElem_of_mem h
  exact ⟨i, List.mem_mapIdx.mpr ⟨i, hi, rfl⟩⟩

theorem videos_trackRows :
    ((trackRows env newId fileId tracks).filter isVideo).length =
      (tracks.filter (·.trackType = .video)).length := by
  have hcount : ∀ (ids : Nat → String),
      ((tracks.mapIdx fun i track => trackRow env (ids i) fileId track).filter isVideo).length =
        (tracks.filter (·.trackType = .video)).length := by
    induction tracks with
    | nil => exact fun _ => rfl
    | cons track tracks ih =>
      intro ids
      rw [List.mapIdx_cons, List.filter_cons, List.filter_cons, isVideo_trackRow]
      split
      · rw [List.length_cons, List.length_cons, ih fun i => ids (i + 1)]
      · exact ih fun i => ids (i + 1)
  exact hcount fun i => env.uuid (newId i)

/-- The tracks of a file that the migration leaves alone. -/
theorem settledTracks_iff :
    (∀ r ∈ trackRows env newId fileId tracks, isVideo r = true →
        hasCodec imageCodecs r = false ∧ (hasCodec ["mjpeg"] r = true →
          ((trackRows env newId fileId tracks).filter isVideo).length ≤ 1)) ↔
      ∀ codec ∈ (tracks.filter (·.trackType = .video)).map Track.codec,
        codec ∉ imageCodecs ∧
          (codec = "mjpeg" →
            ((tracks.filter (·.trackType = .video)).map Track.codec).length ≤ 1) := by
  rw [videos_trackRows, List.length_map]
  constructor
  · intro h codec hcodec
    obtain ⟨track, htrack, rfl⟩ := List.mem_map.mp hcodec
    obtain ⟨htrack, hvideo⟩ := List.mem_filter.mp htrack
    obtain ⟨i, hi⟩ := exists_trackRow htrack
    obtain ⟨himage, hmjpeg⟩ := h _ hi ((isVideo_trackRow ..).trans hvideo)
    rw [hasCodec_trackRow] at himage hmjpeg
    refine ⟨fun hmem => ?_, fun heq => hmjpeg ?_⟩
    · rw [List.contains_iff_mem.mpr hmem] at himage
      cases himage
    · rw [heq]
      rfl
  · intro h r hr hvideo
    obtain ⟨i, track, htrack, rfl⟩ := mem_trackRows hr
    rw [isVideo_trackRow] at hvideo
    have hmem : track.codec ∈ (tracks.filter (·.trackType = .video)).map Track.codec :=
      List.mem_map.mpr ⟨track, List.mem_filter.mpr ⟨htrack, hvideo⟩, rfl⟩
    obtain ⟨himage, hmjpeg⟩ := h _ hmem
    rw [hasCodec_trackRow, hasCodec_trackRow]
    refine ⟨?_, fun hcodec => hmjpeg ?_⟩
    · exact Bool.eq_false_iff.mpr fun hcontains => himage (List.contains_iff_mem.mp hcontains)
    · simpa using hcodec

end

/-! ## Upserts of parsed files -/

/-- A probe, what else the parser is given, and the identifiers and the time that the store
takes for it. -/
structure Upsert where
  json : Json
  path : Path
  size : Nat
  contentHash : Option Hash
  mode : AnimationDetectionMode
  id : Uuid
  parsedAt : Time
  newId : Nat → Uuid
  storedAt : Time

variable (probe : ProbeEnv) (env : UpsertEnv)

def Upsert.file (u : Upsert) : MediaFile :=
  parseFfprobeOutput probe u.json u.path u.size u.contentHash u.mode u.id u.parsedAt

def Upsert.apply (db : Database) (u : Upsert) : Except StoreError Database :=
  upsertFile env db (u.file probe) u.newId u.storedAt

/-- An upsert that fails is rolled back. -/
def Upsert.step (db : Database) (u : Upsert) : Database :=
  match u.apply probe env db with
  | .ok db' => db'
  | .error _ => db

/-- No stream that shows motion has an image codec, except for a single stream in MJPEG. -/
def Upsert.Steady (u : Upsert) : Prop :=
  let moving := (streams u.json).filter (isMotionVideo probe)
  ∀ stream ∈ moving,
    streamCodec probe stream ∉ ["png", "bmp", "gif", "webp"] ∧
      (streamCodec probe stream = "mjpeg" → moving.length ≤ 1)

/-! ## The invariant -/

/-- The foreign key of `tracks`: each row belongs to a row of `files`. -/
def Owned (db : Database) : Prop :=
  ∀ files tracks, db.table "files" = some files → db.table "tracks" = some tracks →
    ∀ r ∈ tracks.rows, r "file_id" ≠ .null ∧ ∃ file ∈ files.rows, r "file_id" = file "id"

structure Reopenable (db : Database) : Prop where
  current : Current db
  owned : Owned db
  settled : Settled db

theorem current_keyed {db : Database} (h : Current db) :
    Lib.Table.Keyed Table.name db.tables := by
  obtain ⟨k, hs, -⟩ := h
  exact hs.keyed

variable {probe env}

/-- The row of the file has the identifier that the path had before, or a new one. -/
theorem upsertFileRow_ids {path : String} {files fileRows : List Row} {existing : Option String}
    {file : MediaFile} {now : Time} (hexisting : existingId path files = .ok existing)
    (h : upsertFileRow path (fileRow env (existing.getD (env.uuid file.id)) file now) files =
      .ok fileRows) :
    (∀ r ∈ files, ∃ r' ∈ fileRows, r' "id" = r "id") ∧
      (∃ r' ∈ fileRows, r' "id" = .text (existing.getD (env.uuid file.id))) ∧
      ((∃ old ∈ files, hasPath path old = true ∧
          old "id" = .text (existing.getD (env.uuid file.id))) ∨
        ∀ r ∈ files, r "id" ≠ .text (existing.getD (env.uuid file.id))) := by
  have hvalue (id : String) : fileRow env id file now "id" = .text id := rfl
  have hnot : "id" ∉ updatedColumns := by decide
  obtain ⟨hpath, rfl⟩ | ⟨hpath, hclash, rfl⟩ := upsertFileRow_cases h
  · have hkept : ∀ r ∈ files, ∃ r' ∈ files.map (fun old =>
        if hasPath path old then
          fun c => if c ∈ updatedColumns then
            fileRow env (existing.getD (env.uuid file.id)) file now c else old c
        else old), r' "id" = r "id" := by
      intro r hr
      refine ⟨_, List.mem_map.mpr ⟨r, hr, rfl⟩, ?_⟩
      split
      · exact if_neg hnot
      · rfl
    obtain ⟨old, hold, hpath', id, hid, rfl⟩ | ⟨hnone, -⟩ := existingId_cases hexisting
    · obtain ⟨r', hr', heq⟩ := hkept old hold
      exact ⟨hkept, ⟨r', hr', heq.trans hid⟩, .inl ⟨old, hold, hpath', hid⟩⟩
    · rw [hnone] at hpath
      cases hpath
  · refine ⟨fun r hr => ⟨r, List.mem_append_left _ hr, rfl⟩,
      ⟨_, List.mem_append_right _ (List.mem_singleton_self _), hvalue _⟩, .inr fun r hr heq => ?_⟩
    have hno := List.any_eq_false.mp hclash r hr
    simp [Row.clashes, hvalue, heq] at hno

/-- Tracks that stay belong to other files. -/
theorem kept_file_id {path id : String} {files tracks : List Row}
    (howned : ∀ r ∈ tracks, r "file_id" ≠ .null ∧ ∃ file ∈ files, r "file_id" = file "id")
    (hid : (∃ old ∈ files, hasPath path old = true ∧ old "id" = .text id) ∨
      ∀ r ∈ files, r "id" ≠ .text id) :
    ∀ r ∈ tracks, (!ofPath path files r) = true → r "file_id" ≠ .text id := by
  intro r hr hkept heq
  obtain ⟨hnull, file, hfile, hsame⟩ := howned r hr
  rcases hid with ⟨old, hold, hpath, hid⟩ | hnew
  · have hof : ofPath path files r = true := by
      refine List.any_eq_true.mpr ⟨old, hold, ?_⟩
      simp [hpath, hid, heq]
    rw [hof] at hkept
    cases hkept
  · exact hnew file hfile (hsame.symm.trans heq)

theorem ofPath_congr {path : String} {files : List Row} {r r' : Row}
    (h : r "file_id" = r' "file_id") : (!ofPath path files r) = !ofPath path files r' := by
  simp only [ofPath, h]

/-- The upsert keeps the foreign key. -/
theorem Owned.upsertFile {db db' : Database} (hdb : Owned db) {file : MediaFile}
    {newId : Nat → Uuid} {now : Time} (h : upsertFile env db file newId now = .ok db') :
    Owned db' := by
  obtain ⟨files, tracks, existing, fileRows, hfiles, htracks, hexisting, hfileRows, rfl⟩ :=
    upsertFile_ok h
  obtain ⟨hkept, hstored, hid⟩ := upsertFileRow_ids hexisting hfileRows
  have howned := hdb files tracks hfiles htracks
  have hfiles' : (setRows db "files" fileRows).table "files" = some { files with rows := fileRows } :=
    table_setRows_self _ hfiles
  have htracks' : (setRows db "files" fileRows).table "tracks" = some tracks :=
    (table_setRows_ne (by decide)).trans htracks
  intro files₁ tracks₁ hfiles₁ htracks₁ r hr
  rw [table_setRows_ne (by decide), hfiles'] at hfiles₁
  rw [table_setRows_self _ htracks'] at htracks₁
  obtain rfl := Option.some.inj hfiles₁
  obtain rfl := Option.some.inj htracks₁
  rcases List.mem_append.mp hr with hr | hr
  · obtain ⟨hnull, file, hfile, hsame⟩ := howned r (List.mem_filter.mp hr).1
    obtain ⟨file', hfile', heq⟩ := hkept file hfile
    exact ⟨hnull, file', hfile', hsame.trans heq.symm⟩
  · obtain ⟨file, hfile, heq⟩ := hstored
    obtain ⟨i, track, -, rfl⟩ := mem_trackRows hr
    exact ⟨nofun, file, hfile, heq.symm⟩

/-- The upsert keeps the layout and the foreign key; the tracks are settled exactly if the
probe is steady. -/
theorem Reopenable.apply {db db' : Database} (hdb : Reopenable db) {u : Upsert}
    (h : u.apply probe env db = .ok db') :
    Current db' ∧ Owned db' ∧ (Settled db' ↔ u.Steady probe) := by
  have hforeign : Owned db' := hdb.owned.upsertFile h
  obtain ⟨files, tracks, existing, fileRows, hfiles, htracks, hexisting, hfileRows, rfl⟩ :=
    upsertFile_ok h
  obtain ⟨-, -, hid⟩ := upsertFileRow_ids hexisting hfileRows
  have howned := hdb.owned files tracks hfiles htracks
  have hothers := kept_file_id howned hid
  generalize existing.getD (env.uuid (u.file probe).id) = id at hothers hforeign ⊢
  have htracks' : (setRows db "files" fileRows).table "tracks" = some tracks :=
    (table_setRows_ne (by decide)).trans htracks
  have hnew : ∀ r ∈ trackRows env u.newId id (u.file probe).tracks, r "file_id" = .text id := by
    intro r hr
    obtain ⟨i, track, -, rfl⟩ := mem_trackRows hr
    rfl
  have hcurrent := hdb.current.of_sameLayout
    ((setRows_sameLayout db "files" fileRows).trans (setRows_sameLayout _ "tracks"
      ((tracks.rows.filter fun r => !ofPath (u.file probe).path.display files.rows r) ++
        trackRows env u.newId id (u.file probe).tracks)))
  refine ⟨hcurrent, hforeign, ?_⟩
  rw [settled_iff (current_keyed hcurrent) (table_setRows_self _ htracks')]
  have hsettled := (settled_iff (current_keyed hdb.current) htracks).mp hdb.settled
  rw [settledRows_append hothers hnew (fun _ _ => ofPath_congr) (by simp) hsettled,
    settledTracks_iff]
  have hcodecs : (((u.file probe).tracks.filter (·.trackType = .video)).map Track.codec) =
      ((streams u.json).filter (isMotionVideo probe)).map (streamCodec probe) :=
    videoCodecs_parseStreams probe u.mode (streams u.json) 0
  rw [hcodecs, List.length_map]
  simp only [Upsert.Steady, imageCodecs, List.forall_mem_map]

theorem Reopenable.step {db : Database} (hdb : Reopenable db) {u : Upsert}
    (hu : u.Steady probe) : Reopenable (u.step probe env db) := by
  unfold Upsert.step
  cases h : u.apply probe env db with
  | error e => exact hdb
  | ok db' =>
    obtain ⟨hcurrent, howned, hsettled⟩ := hdb.apply h
    exact ⟨hcurrent, howned, hsettled.mpr hu⟩

theorem Reopenable.run {db : Database} (hdb : Reopenable db) {us : List Upsert}
    (hus : ∀ u ∈ us, u.Steady probe) : Reopenable (us.foldl (Upsert.step probe env) db) := by
  induction us generalizing db with
  | nil => exact hdb
  | cons u us ih =>
    rw [List.forall_mem_cons] at hus
    exact ih (hdb.step hus.1) hus.2

/-! ## Fresh databases -/

theorem empty_older : OlderDatabase {} where
  keyed := List.nodup_nil
  layout := by simp
  named := by simp [Named]
  built := by simp [Built]
  supersededBy := by simp
  subtitleId := by simp [Fact.holds]
  subtitleIds := by simp [Fact.holds]

theorem fresh_has_no_rows :
    (createSchema {}).map (fun db => db.tables.all (·.rows.isEmpty)) = .ok true := by
  decide

theorem fresh_reopenable {db : Database} (h : createSchema {} = .ok db) : Reopenable db := by
  obtain ⟨db', -, hcreated, hsettled, hcurrent⟩ :=
    empty_older.createSchema_ok (by simp [HasIndexedColumns])
  obtain rfl := Except.ok.inj (h.symm.trans hcreated)
  have hempty := fresh_has_no_rows
  rw [h] at hempty
  refine ⟨hcurrent, fun files tracks _ htracks r hr => ?_, hsettled⟩
  have hnil := List.all_eq_true.mp (Except.ok.inj hempty) _ (Database.table_eq_some htracks).1
  rw [List.isEmpty_iff.mp hnil] at hr
  cases hr

/-- Opening the database again changes nothing after any run of upserts of steady probes, and
after one more upsert exactly if its probe is steady too. -/
theorem reopening_keeps_steady_files {db : Database} (hfresh : createSchema {} = .ok db)
    {us : List Upsert} (hus : ∀ u ∈ us, u.Steady probe) :
    createSchema (us.foldl (Upsert.step probe env) db) =
        .ok (us.foldl (Upsert.step probe env) db) ∧
      ∀ (u : Upsert) (db' : Database), u.apply probe env (us.foldl (Upsert.step probe env) db) = .ok db' →
        (createSchema db' = .ok db' ↔ u.Steady probe) := by
  have hrun : Reopenable (us.foldl (Upsert.step probe env) db) := (fresh_reopenable hfresh).run hus
  refine ⟨(createSchema_idle_iff hrun.current).mpr hrun.settled, fun u db' h => ?_⟩
  obtain ⟨hcurrent, -, hsettled⟩ := hrun.apply h
  rw [createSchema_idle_iff hcurrent, hsettled]

/-! ## Two probes -/

/-- Parameters that behave as the real ones do on the probes below. -/
def plainProbe : ProbeEnv :=
  { parseF64 := fun _ => none
    toLowercase := toAsciiLowercase
    sub := fun a _ => a
    div := fun a _ => a }

def plainEnv : UpsertEnv :=
  { uuid := fun n => s!"uuid-{n}"
    formatDatetime := fun t => s!"time-{t}"
    rfc3339 := fun t => s!"time-{t}"
    tagsJson := fun _ => "\x7b\x7d"
    metadataJson := fun _ => "\x7b\x7d" }

/-- A probe with one video stream. -/
def oneStream (codec frames : String) : Upsert :=
  { json := .object
      [ ("streams", .array [.object
          [ ("codec_type", .string "video"), ("codec_name", .string codec),
            ("nb_frames", .string frames) ]]),
        ("format", .object []) ]
    path := ⟨["media", "clip.mov"]⟩
    size := 1000
    contentHash := none
    mode := .off
    id := 1
    parsedAt := 0
    newId := fun i => i + 2
    storedAt := 0 }

theorem movie_reopens :
    ∃ db, createSchema {} = .ok db ∧
      createSchema ([oneStream "h264" "24"].foldl (Upsert.step plainProbe plainEnv) db) =
        .ok ([oneStream "h264" "24"].foldl (Upsert.step plainProbe plainEnv) db) := by
  obtain ⟨db, -, hcreated, -⟩ := empty_older.createSchema_ok (by simp [HasIndexedColumns])
  have hsteady : ∀ u ∈ [oneStream "h264" "24"], u.Steady plainProbe := by
    unfold Upsert.Steady
    decide
  exact ⟨db, hcreated, (reopening_keeps_steady_files hcreated hsteady).1⟩

/-- The types of all tracks of a database. -/
def trackTypes (db : Database) : List Value :=
  (db.table "tracks").elim [] fun t => t.rows.map (· "track_type")

/-- A movie in PNG frames is stored as video and reopened as an attachment. -/
theorem png_movie_loses_video :
    ∃ db db' db'', createSchema {} = .ok db ∧
      (oneStream "png" "240").apply plainProbe plainEnv db = .ok db' ∧
      createSchema db' = .ok db'' ∧ createSchema db' ≠ .ok db' ∧
      trackTypes db' = [.text "video"] ∧ trackTypes db'' = [.text "attachment"] := by
  have hrun : ((createSchema {}).toOption.bind fun db =>
      ((oneStream "png" "240").apply plainProbe plainEnv db).toOption.bind fun db' =>
        (createSchema db').toOption.map fun db'' => (trackTypes db', trackTypes db'')) =
      some ([.text "video"], [.text "attachment"]) := by
    decide
  have hok {ε α : Type} {x : Except ε α} {a : α} (h : x.toOption = some a) : x = .ok a := by
    cases x with
    | error e => cases h
    | ok b => exact congrArg Except.ok (Option.some.inj h)
  obtain ⟨db, hdb, hrun⟩ := Option.bind_eq_some_iff.mp hrun
  obtain ⟨db', hdb', hrun⟩ := Option.bind_eq_some_iff.mp hrun
  obtain ⟨db'', hdb'', htypes⟩ := Option.map_eq_some_iff.mp hrun
  have hbefore : trackTypes db' = [.text "video"] := congrArg Prod.fst htypes
  have hafter : trackTypes db'' = [.text "attachment"] := congrArg Prod.snd htypes
  refine ⟨db, db', db'', hok hdb, hok hdb', hok hdb'', fun hsame => ?_, hbefore, hafter⟩
  obtain rfl := Except.ok.inj (hsame.symm.trans (hok hdb''))
  exact absurd (hbefore.symm.trans hafter) (by decide)

end Voom.Storage.Sqlite
