-- SUMMARY: Which older databases `create_schema` opens, and what it keeps of them.
import Mathlib.Data.List.Dedup
import Mathlib.Data.List.Forall2
import Voom.Migration.Schema

/-!
# Opening older databases

An older database has the current layout with some of the migrated tables, columns
and indexes missing. The fresh schema runs before the migrations and creates the
indexes on migrated columns, so it fails on a table that lacks one of these; every
other older database is brought to the current layout with its rows kept.
-/

namespace Voom.Storage.Schema

open Voom.Lib.Sql

/-! ## The current layout -/

/-- The tables of the fresh schema with their columns. -/
def currentTables : List (String × List String) :=
  schemaSql.filterMap fun
    | .createTable name columns => some (name, columns)
    | _ => none

/-- Tables of former versions, which the migrations drop. -/
def legacyTables : List String := ["file_history", "processing_stats"]

/-- The columns that the migrations add. -/
def migratedColumns : List (String × String) :=
  (migrate.flatMap Step.body).filterMap fun
    | .addColumn table column _ => some (table, column)
    | _ => none

/-- The indexes that the scripts create. -/
def currentIndexes : List Index :=
  ((schemaSql ++ migrate.flatMap Step.body).filterMap fun
    | .createIndex ix => some ix
    | _ => none).dedup

/-- The migrated columns that the fresh schema has indexes on. -/
def indexedEarly : List (String × String) :=
  [("files", "expected_hash"), ("files", "status"), ("files", "superseded_by"),
   ("files", "last_seen_session_id"), ("file_transitions", "from_path")]

/-! ## The script, checked -/

/-- The columns that a table with the columns of `indexedEarly` is sure to have. -/
def requiredColumns (name : String) (columns : List String) : List String :=
  columns.filter fun c => !migratedColumns.contains (name, c) || indexedEarly.contains (name, c)

def known : Known :=
  currentTables.map (fun p => .columns p.1 (requiredColumns p.1 p.2)) ++
    [ .noColumn "scan_session_mutations" "original_path",
      .distinct "files" ["superseded_by"],
      .integer "subtitles" "id",
      .distinct "subtitles" ["id"] ]

/-- The script up to the duplicate subtitles. -/
def beforeSubtitles : List Step :=
  { body := schemaSql } :: (migrateMissingTables ++ migrateTransitionsTable ++
    migratePlansColumns ++ migrateFilesColumns ++ migrateScanSessions ++ migrateTracksColumns ++
    indexesBeforeSubtitles)

/-- The script between the duplicate subtitles and the cover art. -/
def afterSubtitles : List Step :=
  indexesAfterSubtitles ++ migrateProcessingStatsIntoTransitions ++
    migrateMetadataSnapshotColumn ++ migrateExecutionCaptureColumns ++ migrateFromPathColumn

def subtitlesUnique : Index :=
  { name := "idx_subtitles_unique", table := "subtitles",
    columns := ["file_path", "subtitle_path"], unique := true }

/-- Everything is there, and nothing but the cover art is left to do. -/
def upToDate (k : Known) : Bool :=
  currentTables.all (fun p => k.contains (.table p.1) && p.2.all (k.hasColumn p.1)) &&
    (beforeSubtitles ++ [dedupSubtitles] ++ afterSubtitles ++ migrateScanSessionMutations).all
      (·.noop k)

def knownBefore : Option Known := check currentIndexes beforeSubtitles known

/-- What the step for duplicate subtitles relies on. -/
def subtitleFacts : Known :=
  [ .table "subtitles", .integer "subtitles" "id", .distinct "subtitles" ["id"] ]

def knownAfter : Option Known :=
  knownBefore.bind fun k =>
    if subtitleFacts.all k.contains && subtitlesUnique.columns.all (k.hasColumn "subtitles") then
      check currentIndexes (afterSubtitles ++ migrateCoverArtTrackTypes)
        (.index subtitlesUnique :: k)
    else none

def createsIndexOn (p : String × String) : Stmt → Bool
  | .createIndex ix => ix.table = p.1 && ix.columns.contains p.2
  | _ => false

/-- What evaluation tells of the scripts and of the layout they make. -/
structure Evaluated : Prop where
  /-- What the layout tells is enough for the script. -/
  script : knownAfter.any (fun k => upToDate (k.filter Fact.isLayout)) = true
  fresh : (createSchema {}).map (fun db => db.tables.map fun t => (t.name, t.columns)) =
    .ok currentTables
  indexesKeyed : Lib.Table.Keyed Index.name currentIndexes
  tablesKeyed : Lib.Table.Keyed Prod.fst currentTables
  notLegacy : ∀ p ∈ currentTables, p.1 ∉ legacyTables
  noOriginalPath : ∀ p ∈ currentTables, "original_path" ∉ p.2
  tracksCodec : ∃ p ∈ currentTables,
    p.1 = "tracks" ∧ "codec" ∈ p.2 ∧ ("tracks", "codec") ∉ migratedColumns
  creates : ∀ s ∈ schemaSql, s.creates = true
  createsIndexes : ∀ p ∈ indexedEarly, schemaSql.any (createsIndexOn p) = true
  subtitlesUniqueMem : subtitlesUnique ∈ currentIndexes

theorem evaluated : Evaluated where
  script := by decide +kernel
  fresh := by decide +kernel
  indexesKeyed := by
    unfold Lib.Table.Keyed
    decide +kernel
  tablesKeyed := by
    unfold Lib.Table.Keyed
    decide +kernel
  notLegacy := by decide +kernel
  noOriginalPath := by decide +kernel
  tracksCodec := by decide +kernel
  creates := by decide +kernel
  createsIndexes := by decide +kernel
  subtitlesUniqueMem := by decide +kernel

theorem script_eq :
    { body := schemaSql } :: migrate =
      beforeSubtitles ++ ([dedupSubtitles] ++ (afterSubtitles ++
        (migrateCoverArtTrackTypes ++ migrateScanSessionMutations))) := by
  simp only [migrate, beforeSubtitles, afterSubtitles, migrateIndexesAndConstraints,
    List.append_assoc, List.cons_append]

/-! ## What older databases are known to have -/

/-- A database of an earlier version: its tables are current ones, with migrated columns
missing or not, or legacy ones; its indexes are the current ones or have other names. -/
structure OlderDatabase (db : Database) : Prop where
  keyed : Lib.Table.Keyed Table.name db.tables
  layout : ∀ t ∈ db.tables, t.name ∉ legacyTables →
    ∃ p ∈ currentTables, t.name = p.1 ∧ (∀ c ∈ t.columns, c ∈ p.2) ∧
      ∀ c ∈ p.2, c ∈ t.columns ∨ (t.name, c) ∈ migratedColumns
  named : Named currentIndexes db
  built : Built db
  supersededBy : ∀ t ∈ db.tables, t.name = "files" → "superseded_by" ∈ t.columns →
    distinct ["superseded_by"] t.rows
  subtitleId : (Fact.integer "subtitles" "id").holds db
  subtitleIds : (Fact.distinct "subtitles" ["id"]).holds db

/-- Every table has the migrated columns that the fresh schema has indexes on. -/
def HasIndexedColumns (db : Database) : Prop :=
  ∀ p ∈ indexedEarly, ∀ t ∈ db.tables, t.name = p.1 → p.2 ∈ t.columns

theorem OlderDatabase.layout_of_name {db : Database} (h : OlderDatabase db) {t : Table}
    (ht : t ∈ db.tables) {p : String × List String} (hp : p ∈ currentTables)
    (hname : t.name = p.1) :
    (∀ c ∈ t.columns, c ∈ p.2) ∧ ∀ c ∈ p.2, c ∈ t.columns ∨ (t.name, c) ∈ migratedColumns := by
  obtain ⟨p', hp', hname', hlayout⟩ :=
    h.layout t ht (hname ▸ evaluated.notLegacy p hp)
  obtain rfl := evaluated.tablesKeyed.eq_of_key hp hp' (hname.symm.trans hname')
  exact hlayout

theorem OlderDatabase.required {db : Database} (h : OlderDatabase db)
    (hindexed : HasIndexedColumns db) {p : String × List String} (hp : p ∈ currentTables) :
    (Fact.columns p.1 (requiredColumns p.1 p.2)).holds db := by
  intro t ht hname c hc
  obtain ⟨hc, hrequired⟩ := List.mem_filter.mp hc
  rcases (h.layout_of_name ht hp hname).2 c hc with hmem | hmigrated
  · exact hmem
  · rw [hname] at hmigrated
    have hearly : (p.1, c) ∈ indexedEarly := by simpa [hmigrated] using hrequired
    exact hindexed _ hearly t ht hname

theorem OlderDatabase.sound {db : Database} (h : OlderDatabase db)
    (hindexed : HasIndexedColumns db) : Sound currentIndexes known db := by
  refine ⟨h.keyed, h.named, fun f hf => ?_⟩
  rcases List.mem_append.mp hf with hf | hf
  · obtain ⟨p, hp, rfl⟩ := List.mem_map.mp hf
    exact h.required hindexed hp
  · simp only [List.mem_cons, List.not_mem_nil, or_false] at hf
    rcases hf with rfl | rfl | rfl | rfl
    · intro t ht hname hc
      have hp : ("scan_session_mutations", ["session_id", "path", "kind", "recorded_at"]) ∈
          currentTables := by decide +kernel
      exact evaluated.noOriginalPath _ hp ((h.layout_of_name ht hp hname).1 _ hc)
    · intro t ht hname
      exact h.supersededBy t ht hname (hindexed ("files", "superseded_by") (by decide) t ht hname)
    · exact h.subtitleId
    · exact h.subtitleIds

/-! ## The fresh schema fails without an indexed column -/

theorem indexed_by_schemaSql {p : String × String} (hp : p ∈ indexedEarly) :
    ∃ ix : Index, .createIndex ix ∈ schemaSql ∧ ix.table = p.1 ∧ p.2 ∈ ix.columns := by
  obtain ⟨s, hs, hcreates⟩ := List.any_eq_true.mp (evaluated.createsIndexes p hp)
  cases s with
  | createIndex ix => exact ⟨ix, hs, by simpa [createsIndexOn] using hcreates⟩
  | createTable | addColumn | dropTable | update | delete => cases hcreates

theorem mem_currentIndexes {ix : Index} (h : .createIndex ix ∈ schemaSql) :
    ix ∈ currentIndexes := by
  refine List.mem_dedup.mpr (List.mem_filterMap.mpr ⟨.createIndex ix, ?_, rfl⟩)
  exact List.mem_append_left _ h

theorem OlderDatabase.hasIndexedColumns {db db' : Database} (h : OlderDatabase db)
    (hrun : createSchema db = .ok db') : HasIndexedColumns db := by
  simp only [createSchema, run, Step.run, List.all_nil, if_true] at hrun
  split at hrun
  · cases hrun
  rename_i db₁ hdb₁
  intro p hp t ht hname
  obtain ⟨ix, hix, htable, hcolumn⟩ := indexed_by_schemaSql hp
  exact columns_of_createIndex evaluated.indexesKeyed hdb₁ evaluated.creates
    (fun _ => mem_currentIndexes) h.keyed h.named h.built hix ht (hname.trans htable.symm) _ hcolumn

/-! ## Duplicate subtitles -/

theorem sameSubtitle_iff {r r' : Row} :
    sameSubtitle r r' = true ↔
      r "file_path" = r' "file_path" ∧ r "subtitle_path" = r' "subtitle_path" := by
  simp [sameSubtitle]

theorem sameSubtitle_congr {r r' : Row} (h : sameSubtitle r r' = true) :
    sameSubtitle r = sameSubtitle r' := by
  obtain ⟨hfile, hsubtitle⟩ := sameSubtitle_iff.mp h
  funext x
  simp only [sameSubtitle, hfile, hsubtitle]

section
variable {rows : List Row} (hint : ∀ r ∈ rows, ∃ i, r "id" = .integer i)
  (hids : distinct ["id"] rows)
include hint

theorem minId_mem {p : Row → Bool} {i : Int} (h : minId (rows.filter p) = some i) :
    ∃ r ∈ rows, p r = true ∧ r "id" = .integer i := by
  have hmem := List.min?_mem h
  obtain ⟨r, hr, hi⟩ := List.mem_filterMap.mp hmem
  obtain ⟨hr, hp⟩ := List.mem_filter.mp hr
  obtain ⟨j, hj⟩ := hint r hr
  rw [hj] at hi
  exact ⟨r, hr, hp, by rw [hj, Option.some.inj hi]⟩

theorem minId_isSome {r : Row} (hr : r ∈ rows) :
    ∃ i, minId (rows.filter (sameSubtitle r)) = some i := by
  obtain ⟨i, hi⟩ := hint r hr
  refine Option.isSome_iff_exists.mp (List.isSome_min?_of_mem (a := i) ?_)
  exact List.mem_filterMap.mpr
    ⟨r, List.mem_filter.mpr ⟨hr, sameSubtitle_iff.mpr ⟨rfl, rfl⟩⟩, by rw [hi]⟩

/-- Each row has a first row of its group, and that row stays. -/
theorem exists_first {r : Row} (hr : r ∈ rows) :
    ∃ r' ∈ rows.filter (isFirstSubtitle rows), sameSubtitle r r' = true := by
  obtain ⟨i, hi⟩ := minId_isSome hint hr
  obtain ⟨r', hr', hsame, hid⟩ := minId_mem hint hi
  refine ⟨r', List.mem_filter.mpr ⟨hr', List.any_eq_true.mpr ⟨r, hr, ?_⟩⟩, hsame⟩
  simp [hi, hid]

include hids

/-- A row that stays has the first id of its own group. -/
theorem first_of_kept {r : Row} (hr : r ∈ rows) (h : isFirstSubtitle rows r = true) :
    (minId (rows.filter (sameSubtitle r))).map Value.integer = some (r "id") := by
  obtain ⟨r₁, hr₁, hmin⟩ := List.any_eq_true.mp h
  rw [decide_eq_true_eq] at hmin
  obtain ⟨i, hi, hid⟩ := Option.map_eq_some_iff.mp hmin
  obtain ⟨x, hx, hsame, hxid⟩ := minId_mem hint hi
  obtain rfl := eq_of_distinct hids hx hr (hxid.trans hid) (by simp [hxid])
  rw [← sameSubtitle_congr hsame]
  exact hmin

theorem distinct_first :
    distinct ["file_path", "subtitle_path"] (rows.filter (isFirstSubtitle rows)) := by
  have hkept : distinct ["id"] (rows.filter (isFirstSubtitle rows)) :=
    hids.sublist List.filter_sublist
  refine List.Pairwise.imp_of_mem ?_ hkept
  intro r r' hr hr' hclash
  obtain ⟨hr, hfirst⟩ := List.mem_filter.mp hr
  obtain ⟨hr', hfirst'⟩ := List.mem_filter.mp hr'
  refine Bool.eq_false_iff.mpr fun hsame => ?_
  have hgroup : sameSubtitle r = sameSubtitle r' := by
    refine sameSubtitle_congr (sameSubtitle_iff.mpr ?_)
    simp only [Row.clashes, List.all_cons, List.all_nil, Bool.and_true, Bool.and_eq_true,
      decide_eq_true_eq] at hsame
    exact ⟨hsame.1.1, hsame.2.1⟩
  have hid : r "id" = r' "id" := by
    have h := first_of_kept hint hids hr hfirst
    rw [hgroup, first_of_kept hint hids hr' hfirst'] at h
    exact (Option.some.inj h).symm
  obtain ⟨i, hi⟩ := hint r hr
  simp [Row.clashes, ← hid, hi] at hclash

end

theorem distinct_dedup {db : Database} (hint : (Fact.integer "subtitles" "id").holds db)
    (hids : (Fact.distinct "subtitles" ["id"]).holds db) :
    (Fact.distinct "subtitles" ["file_path", "subtitle_path"]).holds
      (db.modifyTable "subtitles" (·.delete isFirstSubtitle)) := by
  intro t' ht' hname
  obtain ⟨t, ht, rfl⟩ := Lib.Table.mem_modify.mp ht'
  by_cases hn : t.name = "subtitles"
  · rw [if_pos hn]
    exact distinct_first (hint t ht hn) (hids t ht hn)
  · rw [if_neg hn] at hname
    exact absurd hname hn

theorem dedupSubtitles_sound {k : Known} {db : Database} (hs : Sound currentIndexes k db)
    (hfacts : ∀ f ∈ subtitleFacts, f ∈ k)
    (hcolumns : ∀ c ∈ subtitlesUnique.columns, k.hasColumn "subtitles" c = true) :
    ∃ db', dedupSubtitles.run db = .ok db' ∧
      Sound currentIndexes (.index subtitlesUnique :: k) db' := by
  have htable : Fact.table "subtitles" ∈ k := hfacts _ (by decide)
  have hint := hs.facts _ (hfacts (.integer "subtitles" "id") (by decide))
  have hids := hs.facts _ (hfacts (.distinct "subtitles" ["id"]) (by decide))
  by_cases hindex : db.hasIndex "idx_subtitles_unique" = true
  · -- the index is the one the step would create
    obtain ⟨ix, hix, hname⟩ := Database.hasIndex_iff.mp hindex
    obtain rfl := hs.named ix hix _ evaluated.subtitlesUniqueMem hname
    refine ⟨db, ?_, hs.cons hix⟩
    simp [Step.run, dedupSubtitles, Guard.holds, hindex]
  · have hdelete : checkStmt currentIndexes k (.delete "subtitles" isFirstSubtitle) = some k := by
      have hready : Stmt.ready currentIndexes k (.delete "subtitles" isFirstSubtitle) = true :=
        List.contains_iff_mem.mpr htable
      rw [checkStmt, if_pos hready]
      simp [Stmt.gains, Stmt.keeps]
    obtain ⟨db₁, hdb₁, hs₁⟩ := checkStmt_sound evaluated.indexesKeyed hs hdelete
    have hdistinct : (Fact.distinct "subtitles" ["file_path", "subtitle_path"]).holds db₁ := by
      cases exec_effect hdb₁ with
      | rowsDeleted => exact distinct_dedup hint hids
    have hready : Stmt.ready currentIndexes
        (.distinct "subtitles" ["file_path", "subtitle_path"] :: k)
        (.createIndex subtitlesUnique) = true := by
      simp only [Stmt.ready, Bool.and_eq_true, List.contains_iff_mem, List.all_eq_true]
      refine ⟨⟨⟨List.mem_cons_of_mem _ htable, fun c hc => ?_⟩, ?_⟩, evaluated.subtitlesUniqueMem⟩
      · exact hcolumns c hc
      · exact Bool.or_eq_true_iff.mpr (.inr (List.contains_iff_mem.mpr (List.mem_cons_self ..)))
    have hcreate := checkStmt_sound evaluated.indexesKeyed (hs₁.cons hdistinct)
      (if_pos hready : checkStmt currentIndexes _ (.createIndex subtitlesUnique) = _)
    obtain ⟨db', hdb', hs'⟩ := hcreate
    refine ⟨db', ?_, hs'.mono fun f hf => ?_⟩
    · have hguards : dedupSubtitles.guards.all (·.holds db) = true := by
        have hhas : db.hasTable "subtitles" = true := hs.facts _ htable
        simp [dedupSubtitles, Guard.holds, hhas, hindex]
      rw [Step.run, if_pos hguards]
      have hunique : uniqueIndex "idx_subtitles_unique" "subtitles" ["file_path", "subtitle_path"] =
          .createIndex subtitlesUnique := rfl
      simp only [dedupSubtitles, execAll, hdb₁, hunique, hdb']
    · rcases List.mem_cons.mp hf with rfl | hf
      · exact List.mem_append_left _ (List.mem_singleton_self _)
      · exact List.mem_append_right _
          (List.mem_filter.mpr ⟨List.mem_cons_of_mem _ hf, by cases f <;> rfl⟩)

/-! ## Cover art -/

/-- Reclassifying once more changes nothing. -/
def Settled (db : Database) : Prop :=
  ∀ t ∈ db.tables, t.name = "tracks" →
    t.update reclassifyImages = t ∧ t.update reclassifyMjpeg = t

theorem isVideo_toAttachment (r : Row) : isVideo (toAttachment r) = false := by
  simp [isVideo, toAttachment]

theorem update_eq_self {t : Table} {f : List Row → Row → Row} (h : ∀ r ∈ t.rows, f t.rows r = r) :
    t.update f = t := by
  have hmap : t.rows.map (f t.rows) = t.rows :=
    (List.map_congr_left (g := fun r => r) h).trans (List.map_id' _)
  rw [Table.update, hmap]

theorem reclassifyImages_cases (rows : List Row) (r : Row) :
    (isVideo r = true ∧ hasCodec imageCodecs r = true ∧
        reclassifyImages rows r = toAttachment r) ∨
      (¬ (isVideo r = true ∧ hasCodec imageCodecs r = true) ∧ reclassifyImages rows r = r) := by
  simp only [reclassifyImages, Bool.and_eq_true]
  split
  · rename_i h
    exact .inl ⟨h.1, h.2, rfl⟩
  · rename_i h
    exact .inr ⟨h, rfl⟩

theorem reclassifyMjpeg_cases (rows : List Row) (r : Row) :
    (isVideo r = true ∧ hasCodec ["mjpeg"] r = true ∧ hasSiblingVideo rows r = true ∧
        reclassifyMjpeg rows r = toAttachment r) ∨
      (¬ (isVideo r = true ∧ hasCodec ["mjpeg"] r = true ∧ hasSiblingVideo rows r = true) ∧
        reclassifyMjpeg rows r = r) := by
  simp only [reclassifyMjpeg, Bool.and_eq_true, and_assoc]
  split
  · rename_i h
    exact .inl ⟨h.1, h.2.1, h.2.2, rfl⟩
  · rename_i h
    exact .inr ⟨h, rfl⟩

theorem reclassifyImages_video {rows : List Row} {r : Row}
    (h : isVideo (reclassifyImages rows r) = true) : reclassifyImages rows r = r := by
  obtain ⟨-, -, heq⟩ | ⟨-, heq⟩ := reclassifyImages_cases rows r
  · rw [heq, isVideo_toAttachment] at h
    cases h
  · exact heq

theorem reclassifyMjpeg_video {rows : List Row} {r : Row}
    (h : isVideo (reclassifyMjpeg rows r) = true) : reclassifyMjpeg rows r = r := by
  obtain ⟨-, -, -, heq⟩ | ⟨-, heq⟩ := reclassifyMjpeg_cases rows r
  · rw [heq, isVideo_toAttachment] at h
    cases h
  · exact heq

theorem hasSiblingVideo_map {rows : List Row} {f : Row → Row}
    (hf : ∀ r, isVideo (f r) = true → f r = r) {r : Row}
    (h : hasSiblingVideo (rows.map f) r = true) : hasSiblingVideo rows r = true := by
  simp only [hasSiblingVideo, Bool.and_eq_true, decide_eq_true_eq] at h ⊢
  refine ⟨h.1, Nat.lt_of_lt_of_le h.2 ?_⟩
  rw [← List.countP_eq_length_filter, ← List.countP_eq_length_filter, List.countP_map]
  refine List.countP_mono_left fun x _ hx => ?_
  simp only [Function.comp, Bool.and_eq_true] at hx
  rw [hf x hx.1] at hx
  exact (Bool.and_eq_true ..).mpr hx

/-- The two updates leave no image track classified as video. -/
theorem settled_images {rows images : List Row} {r : Row}
    (himages : images = rows.map (reclassifyImages rows))
    (hr : r ∈ images.map (reclassifyMjpeg images)) (rows' : List Row) :
    reclassifyImages rows' r = r := by
  obtain ⟨r₁, hr₁, rfl⟩ := List.mem_map.mp hr
  rw [himages] at hr₁
  obtain ⟨r₀, -, rfl⟩ := List.mem_map.mp hr₁
  obtain ⟨hvideo, hcodec, -⟩ | ⟨-, heq⟩ :=
    reclassifyImages_cases rows' (reclassifyMjpeg images (reclassifyImages rows r₀))
  · -- a track that is still video was left alone by both updates
    have hkept := reclassifyMjpeg_video hvideo
    rw [hkept] at hvideo hcodec
    have hsame := reclassifyImages_video hvideo
    rw [hsame] at hvideo hcodec
    obtain ⟨-, -, hattach⟩ | ⟨hnot, -⟩ := reclassifyImages_cases rows r₀
    · rw [← hsame, hattach, isVideo_toAttachment] at hvideo
      cases hvideo
    · exact absurd ⟨hvideo, hcodec⟩ hnot
  · exact heq

theorem settled_mjpeg {rows : List Row} {r : Row} (hr : r ∈ rows.map (reclassifyMjpeg rows)) :
    reclassifyMjpeg (rows.map (reclassifyMjpeg rows)) r = r := by
  obtain ⟨r₁, hr₁, rfl⟩ := List.mem_map.mp hr
  obtain ⟨hvideo, hcodec, hsibling, -⟩ | ⟨-, heq⟩ :=
    reclassifyMjpeg_cases (rows.map (reclassifyMjpeg rows)) (reclassifyMjpeg rows r₁)
  · have hsame := reclassifyMjpeg_video hvideo
    rw [hsame] at hvideo hcodec hsibling
    have hbefore : hasSiblingVideo rows r₁ = true :=
      hasSiblingVideo_map (fun _ h => reclassifyMjpeg_video h) hsibling
    obtain ⟨-, -, -, hattach⟩ | ⟨hnot, -⟩ := reclassifyMjpeg_cases rows r₁
    · rw [← hsame, hattach, isVideo_toAttachment] at hvideo
      cases hvideo
    · exact absurd ⟨hvideo, hcodec, hbefore⟩ hnot
  · exact heq

theorem coverArtCandidate_of_codec {r : Row} (hvideo : isVideo r = true)
    (hcodec : hasCodec imageCodecs r = true ∨ hasCodec ["mjpeg"] r = true) :
    coverArtCandidate r = true := by
  rw [coverArtCandidate, hvideo, hasCodec, List.any_append, Bool.true_and, Bool.or_eq_true]
  exact hcodec

/-- Without a candidate both updates are idle. -/
theorem update_of_no_candidate {t : Table} (h : ∀ r ∈ t.rows, ¬ coverArtCandidate r = true) :
    t.update reclassifyImages = t ∧ t.update reclassifyMjpeg = t := by
  constructor
  · refine update_eq_self fun r hr => ?_
    obtain ⟨hvideo, himage, -⟩ | ⟨-, heq⟩ := reclassifyImages_cases t.rows r
    · exact absurd (coverArtCandidate_of_codec hvideo (.inl himage)) (h r hr)
    · exact heq
  · refine update_eq_self fun r hr => ?_
    obtain ⟨hvideo, hmjpeg, -⟩ | ⟨-, heq⟩ := reclassifyMjpeg_cases t.rows r
    · exact absurd (coverArtCandidate_of_codec hvideo (.inr hmjpeg)) (h r hr)
    · exact heq

theorem run_coverArt {db db' : Database} (h : run migrateCoverArtTrackTypes db = .ok db') :
    db' = (db.modifyTable "tracks" (·.update reclassifyImages)).modifyTable "tracks"
        (·.update reclassifyMjpeg) ∨
      (db' = db ∧
        ∀ t ∈ db.tables, t.name = "tracks" → ∀ r ∈ t.rows, ¬ coverArtCandidate r = true) := by
  obtain ⟨db₁, hstep, hrest⟩ := run_cons_ok h
  obtain rfl := Except.ok.inj hrest
  rw [Step.run] at hstep
  split at hstep
  · obtain ⟨db₂, hdb₂, hstep⟩ := execAll_cons_ok hstep
    obtain ⟨db₃, hdb₃, hstep⟩ := execAll_cons_ok hstep
    obtain rfl := Except.ok.inj hstep
    cases exec_effect hdb₂ with
    | rowsUpdated =>
      cases exec_effect hdb₃ with
      | rowsUpdated => exact .inl rfl
  · rename_i hguards
    refine .inr ⟨(Except.ok.inj hstep).symm, fun t ht hname r hr hcandidate => hguards ?_⟩
    have hhas : db.hasTable "tracks" = true := Database.hasTable_iff.mpr ⟨t, ht, hname⟩
    simpa [Guard.holds, hhas] using ⟨t, ht, hname, r, hr, hcandidate⟩

theorem settled_coverArt {db db' : Database} (h : run migrateCoverArtTrackTypes db = .ok db') :
    Settled db' := by
  intro t' ht' hname
  obtain rfl | ⟨rfl, hnone⟩ := run_coverArt h
  · obtain ⟨t₁, ht₁, rfl⟩ := Lib.Table.mem_modify.mp ht'
    obtain ⟨t, ht, rfl⟩ := Lib.Table.mem_modify.mp ht₁
    by_cases hn : t.name = "tracks"
    · have hn' : (t.update reclassifyImages).name = "tracks" := hn
      rw [if_pos hn, if_pos hn']
      constructor
      · exact update_eq_self fun r hr => settled_images rfl hr _
      · exact update_eq_self fun r hr => settled_mjpeg hr
    · rw [if_neg hn, if_neg hn] at hname
      exact absurd hname hn
  · exact update_of_no_candidate (hnone t' ht' hname)

theorem exec_update_eq_self {db : Database} {n : String} {f : List Row → Row → Row}
    (hn : db.hasTable n = true) (h : ∀ t ∈ db.tables, t.name = n → t.update f = t) :
    exec db (.update n f) = .ok db := by
  obtain ⟨t, ht⟩ := Database.table_of_hasTable hn
  simp only [exec, ht, Database.modifyTable_eq_self h]

/-- Settled tracks are left alone. -/
theorem Settled.run_coverArt {db : Database} (h : Settled db) :
    run migrateCoverArtTrackTypes db = .ok db := by
  by_cases hn : db.hasTable "tracks" = true
  · have himages := exec_update_eq_self hn fun t ht hname => (h t ht hname).1
    have hmjpeg := exec_update_eq_self hn fun t ht hname => (h t ht hname).2
    simp only [migrateCoverArtTrackTypes, run, Step.run, execAll, himages, hmjpeg, ite_self]
  · simp [migrateCoverArtTrackTypes, run, Step.run, Guard.holds, hn]

/-! ## The rows that are kept -/

/-- A row keeps its columns, apart from the type of a track that turns out to be cover art. -/
def RowKept (t : Table) (r r' : Row) : Prop :=
  ∀ c ∈ t.columns, r' c = r c ∨
    (t.name = "tracks" ∧ c = "track_type" ∧ coverArtCandidate r = true ∧
      r' c = .text "attachment")

/-- A table keeps its columns and rows; duplicate subtitles lose all but one row. -/
structure TableKept (t t' : Table) : Prop where
  columns : ∀ c ∈ t.columns, c ∈ t'.columns
  rows : t.name ≠ "subtitles" → List.Forall₂ (RowKept t) t.rows t'.rows
  subtitles : t.name = "subtitles" →
    t'.rows.Sublist t.rows ∧ ∀ r ∈ t.rows, ∃ r' ∈ t'.rows, sameSubtitle r r' = true

/-- What the migrations rely on in a table with rows to change. -/
structure Proper (t : Table) : Prop where
  tracks : t.name = "tracks" → "codec" ∈ t.columns
  subtitles : t.name = "subtitles" →
    (∀ r ∈ t.rows, ∃ i, r "id" = .integer i) ∧ distinct ["id"] t.rows

def Keeps (t t' : Table) : Prop := Proper t → TableKept t t' ∧ Proper t'

theorem RowKept.refl (t : Table) (r : Row) : RowKept t r r := fun _ _ => .inl rfl

theorem RowKept.trans {t t' : Table} (hname : t.name = t'.name)
    (hcolumns : ∀ c ∈ t.columns, c ∈ t'.columns) (hcodec : t.name = "tracks" → "codec" ∈ t.columns)
    {r r' r'' : Row} (h : RowKept t r r') (h' : RowKept t' r' r'') : RowKept t r r'' := by
  intro c hc
  rcases h' c (hcolumns c hc) with hsame' | ⟨htracks, rfl, hcandidate, hattach⟩
  · rcases h c hc with hsame | ⟨htracks, rfl, hcandidate, hattach⟩
    · exact .inl (hsame'.trans hsame)
    · exact .inr ⟨htracks, rfl, hcandidate, hsame'.trans hattach⟩
  · rw [← hname] at htracks
    refine .inr ⟨htracks, rfl, ?_, hattach⟩
    -- a reclassified track is no candidate, and the codec never changes
    rcases h "track_type" hc with hsame | ⟨-, -, hcandidate, -⟩
    · have hcodec' : r' "codec" = r "codec" := by
        rcases h "codec" (hcodec htracks) with hcodec' | ⟨-, hne, -⟩
        · exact hcodec'
        · exact absurd hne (by decide)
      simpa only [coverArtCandidate, isVideo, hasCodec, hsame, hcodec'] using hcandidate
    · exact hcandidate

theorem Keeps.refl (t : Table) : Keeps t t := by
  intro hproper
  refine ⟨⟨fun _ hc => hc, fun _ => ?_, fun _ => ⟨List.Sublist.refl _, fun r hr => ?_⟩⟩, hproper⟩
  · exact List.forall₂_same.mpr fun r _ => RowKept.refl t r
  · exact ⟨r, hr, sameSubtitle_iff.mpr ⟨rfl, rfl⟩⟩

theorem forall₂_rowKept_trans {t t' : Table} (hname : t.name = t'.name)
    (hcolumns : ∀ c ∈ t.columns, c ∈ t'.columns) (hcodec : t.name = "tracks" → "codec" ∈ t.columns)
    {rows rows' rows'' : List Row} (h : List.Forall₂ (RowKept t) rows rows')
    (h' : List.Forall₂ (RowKept t') rows' rows'') : List.Forall₂ (RowKept t) rows rows'' := by
  induction h generalizing rows'' with
  | nil =>
    cases h'
    exact .nil
  | cons hr _ ih =>
    cases h' with
    | cons hr' hrest => exact .cons (hr.trans hname hcolumns hcodec hr') (ih hrest)

theorem Keeps.trans (t t' t'' : Table) (hname : t.name = t'.name) (h : Keeps t t')
    (h' : Keeps t' t'') : Keeps t t'' := by
  intro hproper
  obtain ⟨hkept, hproper'⟩ := h hproper
  obtain ⟨hkept', hproper''⟩ := h' hproper'
  refine ⟨⟨fun c hc => hkept'.columns c (hkept.columns c hc), fun hne => ?_, fun heq => ?_⟩,
    hproper''⟩
  · exact forall₂_rowKept_trans hname hkept.columns hproper.tracks (hkept.rows hne)
      (hkept'.rows (hname ▸ hne))
  · obtain ⟨hsub, hfirst⟩ := hkept.subtitles heq
    obtain ⟨hsub', hfirst'⟩ := hkept'.subtitles (hname ▸ heq)
    refine ⟨hsub'.trans hsub, fun r hr => ?_⟩
    obtain ⟨r', hr', hsame⟩ := hfirst r hr
    obtain ⟨r'', hr'', hsame'⟩ := hfirst' r' hr'
    exact ⟨r'', hr'', by rw [sameSubtitle_congr hsame]; exact hsame'⟩

/-- Statements that touch no old column of a row. -/
def keepsRows : Stmt → Bool
  | .createTable _ _ | .createIndex _ => true
  | .addColumn n _ _ => n ≠ "subtitles"
  | .dropTable n => legacyTables.contains n
  | .update _ _ | .delete _ _ => false

theorem keeps_addColumn {t : Table} {c : String} {v : Value} (hname : t.name ≠ "subtitles")
    (hc : c ∉ t.columns) : Keeps t (t.addColumn c v) := by
  intro hproper
  refine ⟨⟨fun _ hc' => List.mem_append_left _ hc', fun _ => ?_, fun heq => absurd heq hname⟩,
    ⟨fun htracks => List.mem_append_left _ (hproper.tracks htracks), fun heq => absurd heq hname⟩⟩
  refine List.forall₂_map_right_iff.mpr (List.forall₂_same.mpr fun r _ c' hc' => .inl ?_)
  have hne : c' ≠ c := by
    rintro rfl
    exact hc hc'
  exact Function.update_of_ne hne ..

theorem keepsRows_respects {s : Stmt} (h : keepsRows s = true) :
    s.Respects Keeps (· ∉ legacyTables) := by
  cases s with
  | createTable | createIndex => trivial
  | addColumn n c v =>
    intro t hname hc
    simp only [keepsRows, decide_eq_true_eq] at h
    exact keeps_addColumn (hname ▸ h) hc
  | dropTable n => exact not_not.mpr (List.contains_iff_mem.mp h)
  | update | delete => cases h

/-- An update of tracks that makes attachments of cover art. -/
theorem keeps_update {t : Table} {f : List Row → Row → Row} (hname : t.name = "tracks")
    (hf : ∀ rows r, f rows r = r ∨ coverArtCandidate r = true ∧ f rows r = toAttachment r) :
    Keeps t (t.update f) := by
  have hne : t.name ≠ "subtitles" := by
    rw [hname]
    decide
  intro hproper
  refine ⟨⟨fun _ hc => hc, fun _ => ?_, fun heq => absurd heq hne⟩,
    ⟨hproper.tracks, fun heq => absurd heq hne⟩⟩
  refine List.forall₂_map_right_iff.mpr (List.forall₂_same.mpr fun r _ c hc => ?_)
  rcases hf t.rows r with heq | ⟨hcandidate, heq⟩
  · exact .inl (congrFun heq c)
  · by_cases hc : c = "track_type"
    · refine .inr ⟨hname, hc, hcandidate, ?_⟩
      rw [heq, hc]
      exact Function.update_self ..
    · refine .inl ?_
      rw [heq]
      exact Function.update_of_ne hc ..

theorem keeps_delete {t : Table} (hname : t.name = "subtitles") :
    Keeps t (t.delete isFirstSubtitle) := by
  intro hproper
  obtain ⟨hint, hids⟩ := hproper.subtitles hname
  refine ⟨⟨fun _ hc => hc, fun hne => absurd hname hne, fun _ => ?_⟩,
    ⟨hproper.tracks, fun _ => ?_⟩⟩
  · exact ⟨List.filter_sublist, fun r hr => exists_first hint hr⟩
  · exact ⟨fun r hr => hint r (List.mem_filter.mp hr).1, hids.sublist List.filter_sublist⟩

theorem respects_dedup : ∀ s ∈ dedupSubtitles.body, s.Respects Keeps (· ∉ legacyTables) := by
  intro s hs
  simp only [dedupSubtitles, List.mem_cons, List.not_mem_nil, or_false] at hs
  rcases hs with rfl | rfl
  · exact fun t hname => keeps_delete hname
  · trivial

theorem respects_coverArt :
    ∀ step ∈ migrateCoverArtTrackTypes, ∀ s ∈ step.body, s.Respects Keeps (· ∉ legacyTables) := by
  intro step hstep s hs
  obtain rfl := List.mem_singleton.mp hstep
  simp only [List.mem_cons, List.not_mem_nil, or_false] at hs
  rcases hs with rfl | rfl
  · refine fun t hname => keeps_update hname fun rows r => ?_
    obtain ⟨hvideo, hcodec, heq⟩ | ⟨-, heq⟩ := reclassifyImages_cases rows r
    · exact .inr ⟨coverArtCandidate_of_codec hvideo (.inl hcodec), heq⟩
    · exact .inl heq
  · refine fun t hname => keeps_update hname fun rows r => ?_
    obtain ⟨hvideo, hcodec, -, heq⟩ | ⟨-, heq⟩ := reclassifyMjpeg_cases rows r
    · exact .inr ⟨coverArtCandidate_of_codec hvideo (.inr hcodec), heq⟩
    · exact .inl heq

theorem rest_keepsRows :
    ∀ step ∈ beforeSubtitles ++ afterSubtitles, step.body.all keepsRows = true := by
  decide +kernel

/-- The script without its last part respects every table that is not a legacy one. -/
theorem respects_script :
    ∀ step ∈ beforeSubtitles ++ ([dedupSubtitles] ++ (afterSubtitles ++ migrateCoverArtTrackTypes)),
      ∀ s ∈ step.body, s.Respects Keeps (· ∉ legacyTables) := by
  have hrest : ∀ step ∈ beforeSubtitles ++ afterSubtitles,
      ∀ s ∈ step.body, s.Respects Keeps (· ∉ legacyTables) := fun step hstep s hs =>
    keepsRows_respects (List.all_eq_true.mp (rest_keepsRows step hstep) s hs)
  intro step hstep
  simp only [List.mem_append, List.mem_singleton] at hstep hrest
  rcases hstep with hstep | rfl | hstep | hstep
  · exact hrest step (.inl hstep)
  · exact respects_dedup
  · exact hrest step (.inr hstep)
  · exact respects_coverArt step hstep

/-! ## Opening a database -/

/-- The database opens as an up-to-date one with the rows it had. -/
structure Opens (db db' : Database) : Prop where
  created : createSchema db = .ok db'
  complete : ∀ fresh, createSchema {} = .ok fresh → ∀ t ∈ fresh.tables,
    ∃ t' ∈ db'.tables, t'.name = t.name ∧ ∀ c ∈ t.columns, c ∈ t'.columns
  kept : ∀ t ∈ db.tables, t.name ∉ legacyTables →
    ∃ t' ∈ db'.tables, t'.name = t.name ∧ TableKept t t'
  again : createSchema db' = .ok db'

theorem fresh_mem {fresh : Database} (h : createSchema {} = .ok fresh) {t : Table}
    (ht : t ∈ fresh.tables) : (t.name, t.columns) ∈ currentTables := by
  have hlayout := evaluated.fresh
  rw [h] at hlayout
  have heq : (fresh.tables.map fun t => (t.name, t.columns)) = currentTables := Except.ok.inj hlayout
  rw [← heq]
  exact List.mem_map.mpr ⟨t, ht, rfl⟩

theorem OlderDatabase.proper {db : Database} (h : OlderDatabase db) {t : Table}
    (ht : t ∈ db.tables) : Proper t := by
  refine ⟨fun hname => ?_, fun hname => ⟨h.subtitleId t ht hname, h.subtitleIds t ht hname⟩⟩
  obtain ⟨p, hp, hpname, hcodec, hmigrated⟩ := evaluated.tracksCodec
  rcases (h.layout_of_name ht hp (hname.trans hpname.symm)).2 _ hcodec with hmem | hmem
  · exact hmem
  · rw [hname] at hmem
    exact absurd hmem hmigrated

theorem script_known :
    ∃ k k', check currentIndexes beforeSubtitles known = some k ∧
      (∀ f ∈ subtitleFacts, f ∈ k) ∧
      (∀ c ∈ subtitlesUnique.columns, k.hasColumn "subtitles" c = true) ∧
      check currentIndexes (afterSubtitles ++ migrateCoverArtTrackTypes)
        (.index subtitlesUnique :: k) = some k' ∧
      upToDate (k'.filter Fact.isLayout) = true := by
  obtain ⟨k', hk', hdate⟩ := (Option.any_eq_true _ _).mp evaluated.script
  obtain ⟨k, hk, hrest⟩ := Option.bind_eq_some_iff.mp hk'
  simp only [Option.ite_none_right_eq_some, Bool.and_eq_true, List.all_eq_true,
    List.contains_iff_mem] at hrest
  exact ⟨k, k', hk, hrest.1.1, hrest.1.2, hrest.2, hdate⟩

/-- The database has the current layout: nothing but the cover art is left to do. -/
def Current (db : Database) : Prop :=
  ∃ k, Sound currentIndexes k db ∧ upToDate k = true ∧ ∀ f ∈ k, f.isLayout = true

theorem Current.of_sameLayout {db db' : Database} (h : Current db) (hsame : SameLayout db db') :
    Current db' := by
  obtain ⟨k, hs, hdate, hlayout⟩ := h
  exact ⟨k, hsame.sound hlayout hs, hdate, hlayout⟩

/-- The script runs through and leaves everything in its place. -/
theorem OlderDatabase.run_script {db : Database} (h : OlderDatabase db)
    (hindexed : HasIndexedColumns db) :
    ∃ db', run (beforeSubtitles ++ ([dedupSubtitles] ++ (afterSubtitles ++
        migrateCoverArtTrackTypes))) db = .ok db' ∧ Settled db' ∧ Current db' := by
  obtain ⟨k, k', hk, hfacts, hcolumns, hk', hdate⟩ := script_known
  obtain ⟨db₁, hrun₁, hs₁⟩ := check_sound evaluated.indexesKeyed (h.sound hindexed) hk
  obtain ⟨db₂, hrun₂, hs₂⟩ := dedupSubtitles_sound hs₁ hfacts hcolumns
  obtain ⟨db', hrun', hs'⟩ := check_sound evaluated.indexesKeyed hs₂ hk'
  have hdedup : run [dedupSubtitles] db₁ = .ok db₂ := by simp only [run, hrun₂]
  refine ⟨db', ?_, ?_, ?_⟩
  · rw [run_append hrun₁, run_append hdedup, hrun']
  · obtain ⟨db₃, -, hcover⟩ := run_append_ok hrun'
    exact settled_coverArt hcover
  · refine ⟨k'.filter Fact.isLayout, hs'.mono fun f hf => (List.mem_filter.mp hf).1, hdate, ?_⟩
    exact fun f hf => (List.mem_filter.mp hf).2

theorem run_coverArt_sameLayout {db db' : Database}
    (h : run migrateCoverArtTrackTypes db = .ok db') : SameLayout db db' := by
  obtain rfl | ⟨rfl, -⟩ := run_coverArt h
  · have hupdate (db : Database) (f : List Row → Row → Row) :
        SameLayout db (db.modifyTable "tracks" (·.update f)) :=
      SameLayout.modifyTable "tracks" (fun _ => rfl) fun _ => rfl
    exact (hupdate db _).trans (hupdate _ _)
  · exact SameLayout.refl _

/-- On a current database `create_schema` comes down to the cover art. -/
theorem Current.createSchema_eq {db db' : Database} (h : Current db)
    (hcover : run migrateCoverArtTrackTypes db = .ok db') : createSchema db = .ok db' := by
  have hnoops (db : Database) (h : Current db) (steps : List Step)
      (hsteps : ∀ step ∈ steps, step ∈ beforeSubtitles ++ [dedupSubtitles] ++ afterSubtitles ++
        migrateScanSessionMutations) : run steps db = .ok db := by
    obtain ⟨k, hs, hdate, -⟩ := h
    simp only [upToDate, Bool.and_eq_true, List.all_eq_true] at hdate
    exact run_noop hs fun step hstep => hdate.2 step (hsteps step hstep)
  have hbefore := hnoops db h beforeSubtitles fun step hstep => by simp [hstep]
  have hdedup := hnoops db h [dedupSubtitles] fun step hstep => by
    simp [List.mem_singleton.mp hstep]
  have hafter := hnoops db h afterSubtitles fun step hstep => by simp [hstep]
  have hmutations := hnoops db' (h.of_sameLayout (run_coverArt_sameLayout hcover))
    migrateScanSessionMutations fun step hstep => by simp [hstep]
  rw [createSchema, script_eq, run_append hbefore, run_append hdedup, run_append hafter,
    run_append hcover, hmutations]

/-- What `create_schema` leaves is current and settled. -/
theorem OlderDatabase.createSchema_ok {db : Database} (h : OlderDatabase db)
    (hindexed : HasIndexedColumns db) :
    ∃ db', run (beforeSubtitles ++ ([dedupSubtitles] ++ (afterSubtitles ++
        migrateCoverArtTrackTypes))) db = .ok db' ∧
      createSchema db = .ok db' ∧ Settled db' ∧ Current db' := by
  obtain ⟨db', hrun, hsettled, hcurrent⟩ := h.run_script hindexed
  refine ⟨db', hrun, ?_, hsettled, hcurrent⟩
  obtain ⟨k', hs, hdate, -⟩ := hcurrent
  simp only [upToDate, Bool.and_eq_true, List.all_eq_true] at hdate
  have hmutations : run migrateScanSessionMutations db' = .ok db' :=
    run_noop hs fun step hstep => hdate.2 step (List.mem_append_right _ hstep)
  rw [createSchema, script_eq]
  simp only [← List.append_assoc] at hrun ⊢
  rw [run_append hrun, hmutations]

theorem OlderDatabase.opens {db : Database} (h : OlderDatabase db)
    (hindexed : HasIndexedColumns db) : ∃ db', Opens db db' := by
  obtain ⟨db', hrun, hcreated, hsettled, hcurrent⟩ := h.createSchema_ok hindexed
  refine ⟨db', ⟨hcreated, ?_, ?_, hcurrent.createSchema_eq hsettled.run_coverArt⟩⟩
  · obtain ⟨k', hs, hdate, -⟩ := hcurrent
    simp only [upToDate, Bool.and_eq_true, List.all_eq_true] at hdate
    intro fresh hfresh t ht
    obtain ⟨htable, hcolumns⟩ := hdate.1 _ (fresh_mem hfresh ht)
    obtain ⟨t', ht', hname⟩ :=
      Database.hasTable_iff.mp (hs.facts _ (List.contains_iff_mem.mp htable))
    exact ⟨t', ht', hname, fun c hc => Known.mem_of_hasColumn hs.facts (hcolumns c hc) t' ht' hname⟩
  · intro t ht hlegacy
    obtain ⟨t', ht', hname, hkeeps⟩ :=
      run_respects Keeps.refl Keeps.trans hrun h.keyed respects_script ht hlegacy
    exact ⟨t', ht', hname, (hkeeps (h.proper ht)).1⟩

/-- An older database opens, with its rows kept, exactly if no table lacks a column that
the fresh schema has an index on. -/
theorem older_database_opens {db : Database} (h : OlderDatabase db) :
    (∃ db', Opens db db') ↔ HasIndexedColumns db := by
  constructor
  · rintro ⟨db', hopens⟩
    exact h.hasIndexedColumns hopens.created
  · exact h.opens

/-! ## Two older databases -/

/-- Before crop detection, with two rows for one subtitle and a legacy table. -/
def beforeCropDetection : Database :=
  { tables :=
      [ { name := "files",
          columns :=
            ["id", "path", "filename", "size", "content_hash", "expected_hash", "status",
             "missing_since", "superseded_by", "container", "duration", "bitrate", "tags",
             "plugin_metadata", "introspected_at", "last_seen_session_id", "created_at",
             "updated_at"],
          rows := [row [("id", .text "f1"), ("path", .text "/media/movie.mkv"),
            ("status", .text "active")]] },
        { name := "subtitles",
          columns :=
            ["id", "file_path", "subtitle_path", "language", "forced", "title", "created_at"],
          rows :=
            [ row [("id", .integer 1), ("file_path", .text "/media/movie.mkv"),
                ("subtitle_path", .text "/media/movie.srt")],
              row [("id", .integer 2), ("file_path", .text "/media/movie.mkv"),
                ("subtitle_path", .text "/media/movie.srt")] ] },
        { name := "processing_stats", columns := ["id"] } ] }

theorem beforeCropDetection_older : OlderDatabase beforeCropDetection where
  keyed := by
    unfold Lib.Table.Keyed
    decide +kernel
  layout := by decide +kernel
  named := by simp [Named, beforeCropDetection]
  built := by simp [Built, beforeCropDetection]
  supersededBy := by decide +kernel
  subtitleId := by
    intro t ht hname r hr
    simp only [beforeCropDetection, List.mem_cons, List.not_mem_nil, or_false] at ht
    rcases ht with rfl | rfl | rfl
    · exact absurd hname (by decide)
    · simp only [List.mem_cons, List.not_mem_nil, or_false] at hr
      rcases hr with rfl | rfl
      · exact ⟨1, rfl⟩
      · exact ⟨2, rfl⟩
    · cases hr
  subtitleIds := by
    unfold Fact.holds
    decide +kernel

theorem database_before_crop_detection_opens :
    HasIndexedColumns beforeCropDetection ∧ ∃ db', Opens beforeCropDetection db' := by
  have hindexed : HasIndexedColumns beforeCropDetection := by
    unfold HasIndexedColumns
    decide +kernel
  exact ⟨hindexed, (older_database_opens beforeCropDetection_older).mpr hindexed⟩

/-- The `files` table from before `superseded_by`, alone. -/
def beforeSupersededBy : Database :=
  { tables :=
      [ { name := "files",
          columns :=
            ["id", "path", "filename", "size", "content_hash", "expected_hash", "status",
             "missing_since", "container", "duration", "bitrate", "tags", "plugin_metadata",
             "introspected_at", "created_at", "updated_at"] } ] }

theorem beforeSupersededBy_older : OlderDatabase beforeSupersededBy where
  keyed := by
    unfold Lib.Table.Keyed
    decide +kernel
  layout := by decide +kernel
  named := by simp [Named, beforeSupersededBy]
  built := by simp [Built, beforeSupersededBy]
  supersededBy := by decide +kernel
  subtitleId := by simp [Fact.holds, beforeSupersededBy]
  subtitleIds := by
    unfold Fact.holds
    decide +kernel

theorem database_before_superseded_by_fails :
    OlderDatabase beforeSupersededBy ∧
      (createSchema beforeSupersededBy).map (fun _ => ()) =
        .error (.noSuchColumn "files" "superseded_by") ∧
      ¬ ∃ db', Opens beforeSupersededBy db' := by
  have herror : (createSchema beforeSupersededBy).map (fun _ => ()) =
      .error (.noSuchColumn "files" "superseded_by") := by decide +kernel
  refine ⟨beforeSupersededBy_older, herror, ?_⟩
  rintro ⟨db', hopens⟩
  rw [hopens.created] at herror
  cases herror

end Voom.Storage.Schema
