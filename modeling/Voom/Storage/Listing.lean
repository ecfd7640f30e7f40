-- SUMMARY: Listing, counting and paging the files of a store, and when the three agree.
import Voom.Storage.HeldFiles

/-!
# Listings

`list_files` and `count_files` build two queries from the same filters, and a
listing may be cut into pages. What they should say is stated on the files
themselves: those that satisfy the filters, in the order of their paths. The
queries find the files by `LIKE`, which ignores the case of ASCII letters, and a
page is cut off at the limits of `paginate`.
-/

namespace Voom.Storage.Sqlite

open Voom.Lib Voom.Lib.Sql Voom.Storage.Schema

/-! ## Counting -/

/-- What `COUNT(DISTINCT files.id)` counts. -/
def distinctIds (rows : List Row) : List Value := ((rows.map (· "id")).filter (· ≠ .null)).dedup

def countFiles (db : Database) (filters : FileFilters) : Except ReadError Nat := do
  let hasTrackFilter := filters.hasCodec.isSome || filters.hasLanguage.isSome
  let files ← tableRows db "files"
  let tracks ← if hasTrackFilter then tableRows db "tracks" else .ok []
  return (distinctIds (files.filter (filters.selects tracks))).length

/-! ## What should be listed -/

namespace FileFilters

/-- The prefix as it is written. -/
def literalPrefix (start s : String) : Bool := start.toList.isPrefixOf s.toList

/-- The file satisfies the filters, for a notion of what its path starts with. -/
def admits (startsWith : String → String → Bool) (filters : FileFilters) (f : MediaFile) : Bool :=
  (filters.includeMissing || f.status = .active) &&
    filters.container.all (f.container = ·) &&
    filters.pathPrefix.all (startsWith · f.path.display) &&
    ((filters.hasCodec.isNone && filters.hasLanguage.isNone) ||
      f.tracks.any fun t =>
        filters.hasCodec.all (t.codec = ·) && filters.hasLanguage.all (t.language = ·))

/-- The files that satisfy the filters, in the order of their paths. -/
def matching (startsWith : String → String → Bool) (filters : FileFilters)
    (store : List StoredFile) : List StoredFile :=
  (store.filter fun s => filters.admits startsWith s.file).mergeSort fun s s' =>
    s.file.path.display ≤ s'.file.path.display

/-- What a listing should say. -/
def listing (filters : FileFilters) (store : List StoredFile) : List MediaFile :=
  (filters.matching literalPrefix store).map StoredFile.asRead

/-- The filters without a limit and an offset. -/
def unpaged (filters : FileFilters) : FileFilters := { filters with limit := none, offset := none }

/-- The filters with the limit and the offset of a page. -/
def paged (filters : FileFilters) (limit offset : Nat) : FileFilters :=
  { filters with limit := some limit, offset := some offset }

/-- No file is found only because `LIKE` ignores the case of letters. -/
def Literal (filters : FileFilters) (store : List StoredFile) : Prop :=
  ∀ s ∈ store, filters.admits likePrefix s.file → filters.admits literalPrefix s.file

/-- The numbers of the files that are found can be read. -/
def Readable (filters : FileFilters) (store : List StoredFile) : Prop :=
  ∀ s ∈ store, filters.admits likePrefix s.file → FileFits s.file

end FileFilters

/-- One page after the other, up to the count. -/
def listPages (env : FileEnv) (db : Database) (filters : FileFilters) (size : Nat) :
    Except ReadError (List MediaFile) := do
  let count ← countFiles db filters
  let pages ← (List.range (pageCount size count)).mapM fun k =>
    listFiles env db (filters.paged size (k * size))
  return pages.flatten

/-! ## What the queries find -/

section

variable {env : FileEnv} (henv : env.Faithful) {db : Database} {store : List StoredFile}
  (hdb : Holds env db store) {filters : FileFilters}

theorem status_asStr_inj {s t : FileStatus} : s.asStr = t.asStr ↔ s = t := by
  cases s <;> cases t <;> decide

theorem container_asStr_inj {c d : Container} : c.asStr = d.asStr ↔ c = d := by
  constructor
  · intro h
    rw [← fromExtension_asStr c, h, fromExtension_asStr]
  · exact congrArg Container.asStr

/-- The rows of the tracks satisfy the join exactly if a track of the file does. -/
theorem any_owned {tracks : List Row} {s : StoredFile} (howns : OwnsTracks env tracks s)
    (p : Row → Bool) (q : Track → Bool)
    (hpq : ∀ id fileId t, p (trackRow env.toUpsertEnv id fileId t) = q t) :
    (tracks.any fun r => decide (r "file_id" = .text (env.uuid s.id)) && p r) =
      s.file.tracks.any q := by
  obtain ⟨newId, howns⟩ := howns
  rw [← List.any_filter, howns, Bool.eq_iff_iff, List.any_eq_true, List.any_eq_true]
  constructor
  · rintro ⟨r, hr, hp⟩
    obtain ⟨i, t, ht, rfl⟩ := mem_trackRows hr
    rw [hpq] at hp
    exact ⟨t, ht, hp⟩
  · rintro ⟨t, ht, hq⟩
    obtain ⟨i, hr⟩ := exists_trackRow ht
    exact ⟨_, hr, (hpq _ _ t).trans hq⟩

/-- The query looks at the file that the row holds. -/
theorem selects_held {tracks : List Row} {p : Row × StoredFile} (hp : HeldRow env tracks p) :
    filters.selects tracks p.1 = filters.admits FileFilters.likePrefix p.2.file := by
  have hcolumn (c : String) (hc : c ∈ fileColumns) (hne : c ≠ "expected_hash") :
      p.1 c = fileRow env.toUpsertEnv (env.uuid p.2.id) p.2.file 0 c := hp.stored.1 c hc hne
  have hid : p.1 "id" = .text (env.uuid p.2.id) := hcolumn "id" (by decide) (by decide)
  have hpath : p.1 "path" = .text p.2.file.path.display := hcolumn "path" (by decide) (by decide)
  have hstatus : p.1 "status" = .text p.2.file.status.asStr :=
    hcolumn "status" (by decide) (by decide)
  have hcontainer : p.1 "container" = .text p.2.file.container.asStr :=
    hcolumn "container" (by decide) (by decide)
  have htracks : filters.hasTrack tracks p.1 = ((filters.hasCodec.isNone && filters.hasLanguage.isNone) ||
      p.2.file.tracks.any fun t =>
        filters.hasCodec.all (t.codec = ·) && filters.hasLanguage.all (t.language = ·)) := by
    unfold FileFilters.hasTrack
    rw [hid, ← any_owned hp.tracks
      (fun r => filters.hasCodec.all (fun codec => r "codec" = .text codec) &&
        filters.hasLanguage.all fun language => r "language" = .text language)]
    · congr 2
      funext r
      by_cases heq : r "file_id" = .text (env.uuid p.2.id)
      · simp [heq]
      · simp [heq]
    · intro id fileId t
      simp [trackRow, row, List.lookup_cons]
  unfold FileFilters.selects FileFilters.admits
  rw [htracks, hstatus, hcontainer, hpath]
  simp [status_asStr_inj, container_asStr_inj]

include hdb in
/-- The listing reads a page of the matching files. -/
theorem Holds.listFiles_rows (filters : FileFilters) :
    ∃ tracks, ∃ held : List (Row × StoredFile),
      held.map (·.2) = filters.matching FileFilters.likePrefix store ∧
      (∀ p ∈ held, HeldRow env tracks p) ∧ (held.map (·.2.id)).Nodup ∧
      listFiles env db filters = (do
        let rows ← paginate filters (held.map (·.1))
        readFiles env tracks rows) := by
  obtain ⟨files, tracks, held, hfiles, htracks, hrows, rfl, hheld⟩ := hdb.rows
  let selected := held.filter fun p => filters.admits FileFilters.likePrefix p.2.file
  let sorted := selected.mergeSort fun p p' => p.2.file.path.display ≤ p'.2.file.path.display
  have hmem : ∀ p ∈ sorted, p ∈ held := fun p hp =>
    (List.mem_filter.mp (List.mem_mergeSort.mp hp)).1
  refine ⟨tracks.rows, sorted, ?_, fun p hp => hheld p (hmem p hp), ?_, ?_⟩
  · unfold FileFilters.matching
    rw [List.filter_map]
    exact List.map_mergeSort fun _ _ _ _ => rfl
  · have hids : (held.map (·.2.id)).Nodup := by
      have := hdb.ids
      rwa [List.map_map] at this
    have hsub : (selected.map (·.2.id)).Nodup := hids.sublist (List.filter_sublist.map _)
    exact ((List.mergeSort_perm selected _).map _).nodup_iff.mpr hsub
  · have hselected : (files.rows.filter (filters.selects tracks.rows)).mergeSort pathLe =
        sorted.map (·.1) := by
      rw [hrows, List.filter_map]
      have hsame : held.filter (filters.selects tracks.rows ∘ fun p => p.1) = selected :=
        List.filter_congr fun p hp => selects_held (hheld p hp)
      rw [hsame]
      refine (List.map_mergeSort fun p hp p' hp' => ?_).symm
      have hpath {p : Row × StoredFile} (hp : p ∈ selected) :
          p.1 "path" = .text p.2.file.path.display :=
        (hheld p (List.mem_filter.mp hp).1).stored.1 "path" (by decide) (by decide)
      simp only [pathLe, hpath hp, hpath hp']
    have hfileRows : tableRows db "files" = .ok files.rows := by simp only [tableRows, hfiles]
    have htrackRows : tableRows db "tracks" = .ok tracks.rows := by simp only [tableRows, htracks]
    rw [listFiles_eq, hfileRows, ok_bind, htrackRows, ok_bind, hselected]

theorem mem_matching {startsWith : String → String → Bool} {s : StoredFile} :
    s ∈ filters.matching startsWith store ↔ s ∈ store ∧ filters.admits startsWith s.file = true := by
  unfold FileFilters.matching
  rw [List.mem_mergeSort, List.mem_filter]

include henv hdb in
theorem listFiles_unpaged (hreadable : filters.Readable store) :
    listFiles env db filters.unpaged =
      .ok ((filters.matching FileFilters.likePrefix store).map StoredFile.asRead) := by
  obtain ⟨tracks, held, hmatching, hheld, hids, hlist⟩ := hdb.listFiles_rows filters.unpaged
  have hfits : ∀ p ∈ held, FileFits p.2.file := by
    intro p hp
    obtain ⟨hs, hadmits⟩ := mem_matching.mp (hmatching ▸ List.mem_map_of_mem hp)
    exact hreadable p.2 hs hadmits
  have hpage : paginate filters.unpaged (held.map (·.1)) = .ok (held.map (·.1)) := rfl
  rw [hlist, hpage, ok_bind, readFiles_held henv hheld hids hfits]
  refine congrArg Except.ok ?_
  exact (List.map_map (f := fun p : Row × StoredFile => p.2) (g := StoredFile.asRead)).symm.trans
    (congrArg (List.map StoredFile.asRead) hmatching)

include henv hdb in
theorem readable_of_listFiles {mfs : List MediaFile}
    (h : listFiles env db filters.unpaged = .ok mfs) : filters.Readable store := by
  obtain ⟨tracks, held, hmatching, hheld, hids, hlist⟩ := hdb.listFiles_rows filters.unpaged
  have hpage : paginate filters.unpaged (held.map (·.1)) = .ok (held.map (·.1)) := rfl
  rw [hlist, hpage, ok_bind] at h
  intro s hs hadmits
  have hmem : s ∈ held.map (·.2) := hmatching ▸ mem_matching.mpr ⟨hs, hadmits⟩
  obtain ⟨p, hp, rfl⟩ := List.mem_map.mp hmem
  exact fits_of_readFiles henv hheld hids h p hp

include henv hdb in
theorem listFiles_paged (hreadable : filters.Readable store) (limit offset : Nat) :
    listFiles env db (filters.paged limit offset) =
      .ok (page 10000 1000000 limit offset
        ((filters.matching FileFilters.likePrefix store).map StoredFile.asRead)) := by
  obtain ⟨tracks, held, hmatching, hheld, hids, hlist⟩ :=
    hdb.listFiles_rows (filters.paged limit offset)
  have hsub := page_sublist 10000 1000000 limit offset held
  have hfits : ∀ p ∈ held, FileFits p.2.file := by
    intro p hp
    obtain ⟨hs, hadmits⟩ := mem_matching.mp (hmatching ▸ List.mem_map_of_mem hp)
    exact hreadable p.2 hs hadmits
  have hpage : paginate (filters.paged limit offset) (held.map (·.1)) =
      .ok ((page 10000 1000000 limit offset held).map (·.1)) :=
    congrArg Except.ok (page_map _ 10000 1000000 limit offset held)
  rw [hlist, hpage, ok_bind, readFiles_held henv (fun p hp => hheld p (hsub.subset hp))
    (hids.sublist (hsub.map _)) fun p hp => hfits p (hsub.subset hp)]
  refine congrArg Except.ok ?_
  change _ = page 10000 1000000 limit offset
    (((filters.paged limit offset).matching FileFilters.likePrefix store).map StoredFile.asRead)
  rw [← hmatching, page_map, page_map, List.map_map]
  rfl

/-- An offset alone is never a listing. -/
theorem listFiles_offset (hdb : Holds env db store) (filters : FileFilters) (offset : Nat) :
    listFiles env db { filters.unpaged with offset := some offset } =
      .error (.malformed "failed to prepare list query") := by
  obtain ⟨tracks, held, -, -, -, hlist⟩ :=
    hdb.listFiles_rows { filters.unpaged with offset := some offset }
  rw [hlist]
  rfl

theorem distinctIds_held {tracks : List Row} {held : List (Row × StoredFile)}
    (hheld : ∀ p ∈ held, HeldRow env tracks p) :
    distinctIds (held.map (·.1)) = (held.map fun p => Value.text (env.uuid p.2.id)).dedup := by
  unfold distinctIds
  have hids : (held.map (·.1)).map (· "id") = held.map fun p => Value.text (env.uuid p.2.id) := by
    rw [List.map_map]
    exact List.map_congr_left fun p hp => (hheld p hp).stored.1 "id" (by decide) (by decide)
  rw [hids]
  congr 1
  refine List.filter_eq_self.mpr fun v hv => ?_
  obtain ⟨p, -, rfl⟩ := List.mem_map.mp hv
  rfl

/-- Without a filter on tracks the query does not look at them. -/
theorem selects_congr {tracks tracks' : List Row} (hcodec : filters.hasCodec = none)
    (hlanguage : filters.hasLanguage = none) :
    filters.selects tracks = filters.selects tracks' := by
  funext r
  simp [FileFilters.selects, FileFilters.hasTrack, hcodec, hlanguage]

include henv hdb in
/-- The count is of the files that `LIKE` finds. -/
theorem countFiles_eq :
    countFiles db filters = .ok (filters.matching FileFilters.likePrefix store).length := by
  obtain ⟨files, tracks, held, hfiles, htracks, hrows, rfl, hheld⟩ := hdb.rows
  let selected := held.filter fun p => filters.admits FileFilters.likePrefix p.2.file
  have hselected : files.rows.filter (filters.selects tracks.rows) = selected.map (·.1) := by
    rw [hrows, List.filter_map]
    exact congrArg (List.map _) (List.filter_congr fun p hp => selects_held (hheld p hp))
  have hnodup : (selected.map fun p => Value.text (env.uuid p.2.id)).Nodup := by
    have hids := hdb.ids
    rw [List.map_map] at hids
    refine (List.Nodup.of_map (fun p => p.2.id) (hids.sublist
      (List.filter_sublist.map _))).map_on ?_
    intro p hp p' hp' heq
    exact List.inj_on_of_nodup_map hids (List.mem_filter.mp hp).1 (List.mem_filter.mp hp').1
      (uuid_inj henv (Value.text.inj heq))
  have hcount : (distinctIds (files.rows.filter (filters.selects tracks.rows))).length =
      (filters.matching FileFilters.likePrefix (held.map (·.2))).length := by
    unfold FileFilters.matching
    rw [hselected, distinctIds_held fun p hp => hheld p (List.mem_filter.mp hp).1,
      hnodup.dedup, List.length_map, List.length_mergeSort, List.filter_map, List.length_map]
    rfl
  have hfileRows : tableRows db "files" = .ok files.rows := by simp only [tableRows, hfiles]
  have htrackRows : tableRows db "tracks" = .ok tracks.rows := by simp only [tableRows, htracks]
  unfold countFiles
  rw [hfileRows, ok_bind]
  split
  · rw [htrackRows, ok_bind]
    exact congrArg Except.ok hcount
  · rename_i hnone
    obtain ⟨hcodec, hlanguage⟩ : filters.hasCodec = none ∧ filters.hasLanguage = none := by
      simpa using hnone
    have hsame : filters.selects [] = filters.selects tracks.rows := selects_congr hcodec hlanguage
    rw [← hsame] at hcount
    exact congrArg Except.ok hcount

/-! ## What is listed and what should be -/

theorem likePrefix_of_literal {start s : String} (h : FileFilters.literalPrefix start s = true) :
    FileFilters.likePrefix start s = true :=
  List.isPrefixOf_iff_prefix.mpr ((List.isPrefixOf_iff_prefix.mp h).map Char.toLower)

theorem admits_like {f : MediaFile} (h : filters.admits FileFilters.literalPrefix f = true) :
    filters.admits FileFilters.likePrefix f = true := by
  unfold FileFilters.admits at h ⊢
  simp only [Bool.and_eq_true] at h ⊢
  obtain ⟨⟨hfile, hprefix⟩, htrack⟩ := h
  refine ⟨⟨hfile, ?_⟩, htrack⟩
  cases hstart : filters.pathPrefix with
  | none => rfl
  | some start =>
    rw [hstart] at hprefix
    exact likePrefix_of_literal hprefix

theorem matching_of_literal (h : filters.Literal store) :
    filters.matching FileFilters.likePrefix store =
      filters.matching FileFilters.literalPrefix store := by
  unfold FileFilters.matching
  congr 1
  refine List.filter_congr fun s hs => ?_
  rw [Bool.eq_iff_iff]
  exact ⟨h s hs, admits_like⟩

theorem literal_iff_length : filters.Literal store ↔
    (filters.matching FileFilters.likePrefix store).length = (filters.listing store).length := by
  unfold FileFilters.listing
  constructor
  · intro h
    rw [matching_of_literal h, List.length_map]
  · intro h
    unfold FileFilters.matching at h
    rw [List.length_map, List.length_mergeSort, List.length_mergeSort] at h
    have hsub : store.filter (fun s => filters.admits FileFilters.literalPrefix s.file) =
        (store.filter fun s => filters.admits FileFilters.likePrefix s.file).filter
          fun s => filters.admits FileFilters.literalPrefix s.file := by
      rw [List.filter_filter]
      refine List.filter_congr fun s _ => ?_
      cases hadmits : filters.admits FileFilters.literalPrefix s.file with
      | false => rw [Bool.false_and]
      | true => rw [admits_like hadmits, Bool.and_true]
    rw [hsub] at h
    have hall := List.length_filter_eq_length_iff.mp h.symm
    exact fun s hs hadmits => hall s (List.mem_filter.mpr ⟨hs, hadmits⟩)

include henv hdb in
/-- The unpaged listing is what it should be exactly if the prefix is found as it is written
and what is found can be read. -/
theorem listFiles_unpaged_iff : listFiles env db filters.unpaged = .ok (filters.listing store) ↔
    filters.Literal store ∧ filters.Readable store := by
  constructor
  · intro h
    have hreadable := readable_of_listFiles henv hdb h
    rw [listFiles_unpaged henv hdb hreadable] at h
    refine ⟨literal_iff_length.mpr ?_, hreadable⟩
    rw [← Except.ok.inj h, List.length_map]
  · rintro ⟨hliteral, hreadable⟩
    rw [listFiles_unpaged henv hdb hreadable, matching_of_literal hliteral]
    rfl

include henv hdb in
theorem countFiles_iff :
    countFiles db filters = .ok (filters.listing store).length ↔ filters.Literal store := by
  rw [countFiles_eq henv hdb, literal_iff_length]
  exact ⟨Except.ok.inj, congrArg Except.ok⟩

include hdb in
theorem listing_nodup : (filters.listing store).Nodup := by
  have hids : ((filters.listing store).map (·.id)).Nodup := by
    unfold FileFilters.listing FileFilters.matching
    rw [List.map_map]
    have hsub := hdb.ids.sublist ((List.filter_sublist
      (p := fun s : StoredFile => filters.admits FileFilters.literalPrefix s.file)).map (·.id))
    exact ((List.mergeSort_perm _ _).map _).nodup_iff.mpr hsub
  exact hids.of_map _

include henv hdb in
theorem listPages_eq (hliteral : filters.Literal store) (hreadable : filters.Readable store)
    (size : Nat) : listPages env db filters size =
      .ok (pages 10000 1000000 size (filters.listing store)) := by
  unfold listPages
  rw [(countFiles_iff henv hdb).mpr hliteral, ok_bind]
  have hpages : (List.range (pageCount size (filters.listing store).length)).mapM (fun k =>
      listFiles env db (filters.paged size (k * size))) =
        .ok ((List.range (pageCount size (filters.listing store).length)).map fun k =>
          page 10000 1000000 size (k * size) (filters.listing store)) := by
    refine mapM_eq_ok_map fun k _ => ?_
    rw [listFiles_paged henv hdb hreadable, matching_of_literal hliteral]
    rfl
  rw [hpages]
  rfl

include henv hdb in
theorem listPages_iff (hliteral : filters.Literal store) (hreadable : filters.Readable store)
    {size : Nat} (hsize : 0 < size) :
    listPages env db filters size = .ok (filters.listing store) ↔
      Unclamped 10000 1000000 size (filters.listing store).length := by
  rw [listPages_eq henv hdb hliteral hreadable,
    ← pages_eq_iff (by decide) hsize (listing_nodup hdb)]
  exact ⟨Except.ok.inj, congrArg Except.ok⟩

end

/-- Where the prefix is found as it is written and the files can be read, the listing and the
count are what the filters say, and the pages of a size give the listing exactly if none of
them runs into a limit. -/
theorem listings_agree {env : FileEnv} (henv : env.Faithful) {db : Database}
    {store : List StoredFile} (hdb : Holds env db store) (filters : FileFilters)
    (hliteral : filters.Literal store) (hreadable : filters.Readable store) :
    listFiles env db filters.unpaged = .ok (filters.listing store) ∧
      countFiles db filters = .ok (filters.listing store).length ∧
      ∀ size, 0 < size → (listPages env db filters size = .ok (filters.listing store) ↔
        Unclamped 10000 1000000 size (filters.listing store).length) := by
  refine ⟨(listFiles_unpaged_iff henv hdb).mpr ⟨hliteral, hreadable⟩,
    (countFiles_iff henv hdb).mpr hliteral, fun size hsize => ?_⟩
  exact listPages_iff henv hdb hliteral hreadable hsize

namespace SampleStore

/-- Under the films, those with a track in HEVC. -/
def hevcFilms : FileFilters := { pathPrefix := some "/films", hasCodec := some "hevc" }

/-- The film that was upserted is what is listed, counted and paged. -/
theorem film_listed : ∃ db', upsertFile env.toUpsertEnv db film (fun _ => 2) 0 = .ok db' ∧
    listFiles env db' hevcFilms.unpaged = .ok (hevcFilms.listing (upserted [] film)) ∧
    countFiles db' hevcFilms = .ok (hevcFilms.listing (upserted [] film)).length ∧
    ∀ size, 0 < size → (listPages env db' hevcFilms size =
      .ok (hevcFilms.listing (upserted [] film)) ↔
        Unclamped 10000 1000000 size (hevcFilms.listing (upserted [] film)).length) := by
  obtain ⟨db', hdb'⟩ : ∃ db', upsertFile env.toUpsertEnv db film (fun _ => 2) 0 = .ok db' :=
    ⟨_, rfl⟩
  have hholds : Holds env db' (upserted [] film) :=
    (Fresh.holds db_fresh).upsertFile env_faithful film_typed film_keeps hdb'
  have hliteral : hevcFilms.Literal (upserted [] film) := by
    refine List.forall_mem_singleton.mpr fun _ => ?_
    decide
  have hreadable : hevcFilms.Readable (upserted [] film) :=
    List.forall_mem_singleton.mpr fun _ => film_roundTripping.fits
  exact ⟨db', hdb', listings_agree env_faithful hholds hevcFilms hliteral hreadable⟩

/-- A film without tracks. -/
def shelved (i : Nat) : StoredFile :=
  { id := i, file := { film with id := i, path := ⟨["films", padded "a" i 'a']⟩, tracks := [] } }

/-- Any number of films. -/
def shelf (n : Nat) : List StoredFile := (List.range n).map shelved

def shelfDb (n : Nat) : Database :=
  { tables :=
      [{ name := "files", columns := fileColumns,
         rows := (shelf n).map fun s => fileRow env.toUpsertEnv (env.uuid s.id) s.file 0 },
       { name := "tracks", columns := trackColumns }] }

theorem shelf_typed (n : Nat) : ∀ s ∈ shelf n, FileTyped s.file := by
  intro s hs
  obtain ⟨i, -, rfl⟩ := List.mem_map.mp hs
  refine ⟨?_, film_typed.size, film_typed.crop, List.forall_mem_nil _⟩
  simp [Path.Plain, shelved, padded]

theorem shelf_paths (n : Nat) : ((shelf n).map (·.file.path.display)).Nodup := by
  unfold shelf
  rw [List.map_map]
  refine List.nodup_range.map_on fun i _ j _ h => ?_
  have hlength := congrArg String.length h
  simpa [Path.display, shelved, length_padded, String.length_append] using hlength

theorem shelf_holds (n : Nat) : Holds env (shelfDb n) (shelf n) where
  owned := by
    intro files tracks _ htracks r hr
    obtain rfl := Option.some.inj htracks
    cases hr
  files := by
    refine ⟨_, rfl, ?_⟩
    change List.Forall₂ _ ((shelf n).map _) (shelf n)
    rw [List.forall₂_map_left_iff, List.forall₂_same]
    intro s hs
    obtain ⟨i, -, rfl⟩ := List.mem_map.mp hs
    exact stored_new
  tracks := by
    refine ⟨_, rfl, fun s hs => ⟨fun _ => 0, ?_⟩⟩
    obtain ⟨i, -, rfl⟩ := List.mem_map.mp hs
    rfl
  ids := by
    unfold shelf
    rw [List.map_map]
    exact List.nodup_range.map fun _ _ h => h
  paths := shelf_paths n
  typed := shelf_typed n
  keeps s hs := by
    obtain ⟨i, -, rfl⟩ := List.mem_map.mp hs
    exact ⟨film_keeps.tags, film_keeps.metadata⟩

theorem shelf_fits (n : Nat) : ∀ s ∈ shelf n, FileFits s.file := by
  intro s hs
  obtain ⟨i, -, rfl⟩ := List.mem_map.mp hs
  exact ⟨film_roundTripping.fits.size, film_roundTripping.fits.bitrate, List.forall_mem_nil _⟩

theorem shelf_listing (n : Nat) : (FileFilters.listing {} (shelf n)).length = n := by
  unfold FileFilters.listing FileFilters.matching
  have hall : (shelf n).filter (fun s => FileFilters.admits FileFilters.literalPrefix {} s.file) =
      shelf n := by
    refine List.filter_eq_self.mpr fun s hs => ?_
    obtain ⟨i, -, rfl⟩ := List.mem_map.mp hs
    rfl
  rw [hall, List.length_map, List.length_mergeSort]
  simp [shelf]

/-- One page of more than the limit is not the listing. -/
theorem shelf_pages {n : Nat} (hn : 10000 < n) :
    listPages env (shelfDb n) {} n ≠ .ok (FileFilters.listing {} (shelf n)) := by
  have hliteral : FileFilters.Literal {} (shelf n) := fun _ _ h => h
  have hreadable : FileFilters.Readable {} (shelf n) := fun s hs _ => shelf_fits n s hs
  intro h
  have hclamped := (listPages_iff env_faithful (shelf_holds n) hliteral hreadable
    (Nat.zero_lt_of_lt hn)).mp h
  rw [shelf_listing] at hclamped
  rcases hclamped.limit with hle | hle
  · exact Nat.not_le_of_lt hn hle
  · exact Nat.not_le_of_lt hn hle

/-- The prefix with other letters than the path. -/
def shoutedFilms : FileFilters := { pathPrefix := some "/FILMS" }

/-- A film with a bit rate of 32 bits cannot be listed. -/
theorem fastFilm_unlisted : ∃ db',
    upsertFile env.toUpsertEnv db fastFilm (fun _ => 2) 0 = .ok db' ∧
      listFiles env db' {} ≠ .ok (FileFilters.listing {} (upserted [] fastFilm)) := by
  have htyped : FileTyped fastFilm :=
    ⟨film_typed.path, film_typed.size, film_typed.crop, film_typed.tracks⟩
  have hkeeps : env.Keeps fastFilm := ⟨film_keeps.tags, film_keeps.metadata⟩
  obtain ⟨db', hdb'⟩ : ∃ db', upsertFile env.toUpsertEnv db fastFilm (fun _ => 2) 0 = .ok db' :=
    ⟨_, rfl⟩
  have hholds : Holds env db' (upserted [] fastFilm) :=
    (Fresh.holds db_fresh).upsertFile env_faithful htyped hkeeps hdb'
  refine ⟨db', hdb', fun h => ?_⟩
  have h : listFiles env db' (FileFilters.unpaged {}) = _ := h
  have hreadable := ((listFiles_unpaged_iff env_faithful hholds).mp h).2
  have hfits : FileFits fastFilm := hreadable _ List.mem_cons_self rfl
  exact absurd (hfits.bitrate (2 ^ 31) rfl) (Nat.lt_irrefl _)

/-- Pages of more than the limit leave films out, an offset alone is no listing, a prefix finds
a path that does not start with it, and a film that is stored cannot be listed. -/
theorem listings_disagree :
    listPages env (shelfDb 10001) {} 10001 ≠ .ok (FileFilters.listing {} (shelf 10001)) ∧
      listFiles env (shelfDb 2) { offset := some 1 } ≠
        .ok ((FileFilters.listing {} (shelf 2)).drop 1) ∧
      listFiles env (shelfDb 1) shoutedFilms ≠ .ok (shoutedFilms.listing (shelf 1)) ∧
      countFiles (shelfDb 1) shoutedFilms ≠ .ok (shoutedFilms.listing (shelf 1)).length ∧
      ∃ db', upsertFile env.toUpsertEnv db fastFilm (fun _ => 2) 0 = .ok db' ∧
        listFiles env db' {} ≠ .ok (FileFilters.listing {} (upserted [] fastFilm)) := by
  have hshouted : ¬shoutedFilms.Literal (shelf 1) := by
    intro h
    have hmem : shelved 0 ∈ shelf 1 := List.mem_map_of_mem (List.mem_range.mpr Nat.one_pos)
    have hliteral : shoutedFilms.admits FileFilters.literalPrefix (shelved 0).file = true :=
      h (shelved 0) hmem (by decide)
    have hnot : shoutedFilms.admits FileFilters.literalPrefix (shelved 0).file = false := by
      decide
    exact absurd (hnot.symm.trans hliteral) Bool.false_ne_true
  refine ⟨shelf_pages (Nat.lt_succ_self _), fun h => ?_, fun h => ?_, fun h => ?_, fastFilm_unlisted⟩
  · have hoffset : listFiles env (shelfDb 2) { offset := some 1 } =
        .error (.malformed "failed to prepare list query") :=
      listFiles_offset (shelf_holds 2) {} 1
    rw [hoffset] at h
    cases h
  · have h : listFiles env (shelfDb 1) shoutedFilms.unpaged = _ := h
    exact hshouted ((listFiles_unpaged_iff env_faithful (shelf_holds 1)).mp h).1
  · exact hshouted ((countFiles_iff env_faithful (shelf_holds 1)).mp h)

end SampleStore

end Voom.Storage.Sqlite
