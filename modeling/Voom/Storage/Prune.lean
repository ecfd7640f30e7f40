-- SUMMARY: Pruning what is gone from the disk, under the text of a root and under the root.
import Voom.Lib.Like
import Voom.Lib.Paging
import Voom.Lib.Replace
import Voom.Storage.FileReading
import Voom.Storage.RawPath

/-!
# Pruning

A prune marks the active files under a root that are no longer on disk and
deletes such rows of `bad_files`. Its queries select by the text of the root,
escaped, with anything behind it. A root is a path, though, and a path is below
it when its components begin with those of the root: `prunedBy` is a prune
over any scope, the code is the one over texts, and the two scopes differ.
-/

namespace Voom.Storage.Sqlite

open Voom.Lib

/-! ## Tables -/

/-- A row of `files`; `rest` holds the columns that a prune does not read. -/
structure LibraryFile (α : Type) where
  id : String
  path : Option String
  status : String
  missingSince : Option String
  rest : α
  deriving DecidableEq, Repr

namespace LibraryFile

variable {α : Type}

def isActive (r : LibraryFile α) : Bool := r.status = FileStatus.active.asStr

/-- `SET status = 'missing', missing_since = ?1` -/
def missing (now : String) (r : LibraryFile α) : LibraryFile α :=
  { r with status := FileStatus.missing.asStr, missingSince := some now }

/-- The update, with the condition it repeats on the status. -/
def markMissing (now : String) (r : LibraryFile α) : LibraryFile α :=
  if r.isActive then r.missing now else r

@[simp] theorem missing_id (now : String) (r : LibraryFile α) : (r.missing now).id = r.id := rfl

@[simp] theorem missing_path (now : String) (r : LibraryFile α) :
    (r.missing now).path = r.path := rfl

@[simp] theorem missing_isActive (now : String) (r : LibraryFile α) :
    (r.missing now).isActive = false := rfl

@[simp] theorem markMissing_id (now : String) (r : LibraryFile α) :
    (r.markMissing now).id = r.id := by
  unfold markMissing
  split <;> rfl

theorem markMissing_markMissing (now : String) (r : LibraryFile α) :
    (r.markMissing now).markMissing now = r.markMissing now := by
  unfold markMissing
  split <;> simp_all

end LibraryFile

/-- A row of `bad_files`. -/
structure LibraryBadFile (β : Type) where
  id : String
  path : String
  rest : β
  deriving DecidableEq, Repr

/-- `Uuid::parse_str` and `to_string`. -/
structure UuidText where
  parse : String → Option Uuid
  print : Uuid → String

/-- The identifier is written as `to_string` writes it. -/
def UuidText.Canonical (uuids : UuidText) (id : String) : Prop :=
  ∃ u, uuids.parse id = some u ∧ uuids.print u = id

/-- The two tables, with their primary keys. -/
structure PruneTables (uuids : UuidText) (α β : Type) where
  files : List (LibraryFile α)
  badFiles : List (LibraryBadFile β)
  files_keyed : Table.Keyed LibraryFile.id files
  badFiles_keyed : Table.Keyed LibraryBadFile.id badFiles
  files_canonical : ∀ r ∈ files, uuids.Canonical r.id

namespace PruneTables

variable {uuids : UuidText} {α β : Type}

@[ext] theorem ext {db db' : PruneTables uuids α β} (hfiles : db.files = db'.files)
    (hbad : db.badFiles = db'.badFiles) : db = db' := by
  cases db
  cases db'
  cases hfiles
  cases hbad
  rfl

/-- The tables with other columns in the rows of `files`. -/
def mapFiles (f : LibraryFile α → LibraryFile α) (hf : ∀ r, (f r).id = r.id)
    (db : PruneTables uuids α β) : PruneTables uuids α β where
  files := db.files.map f
  badFiles := db.badFiles
  files_keyed := by
    have hids : (db.files.map f).map LibraryFile.id = db.files.map LibraryFile.id := by
      rw [List.map_map]
      exact List.map_congr_left fun r _ => hf r
    unfold Table.Keyed
    rw [hids]
    exact db.files_keyed
  badFiles_keyed := db.badFiles_keyed
  files_canonical := by
    intro r' hr'
    obtain ⟨r, hr, rfl⟩ := List.mem_map.mp hr'
    rw [hf r]
    exact db.files_canonical r hr

def filterBadFiles (p : LibraryBadFile β → Bool) (db : PruneTables uuids α β) :
    PruneTables uuids α β where
  files := db.files
  badFiles := db.badFiles.filter p
  files_keyed := db.files_keyed
  badFiles_keyed := List.Nodup.sublist (List.filter_sublist.map _) db.badFiles_keyed
  files_canonical := db.files_canonical

end PruneTables

/-! ## Queries -/

/-- The wildcards of `LIKE`, with `ESCAPE '\'`. -/
def likeWildcards : Wildcards Char where
  any := '%'
  one := '_'
  escape := '\\'
  any_ne_escape := by decide
  one_ne_any := by decide
  one_ne_escape := by decide

/-- `path LIKE ?1 || '%' ESCAPE '\'`. Letters of ASCII match in either case. -/
def pathLike (start path : String) : Bool :=
  likeWildcards.like Char.toLower (start ++ "%").toList path.toList

/-- `escape_like`: wildcards that stand for themselves. -/
def escapeLike (s : String) : String :=
  let s := replaceAll ['\\'] ['\\', '\\'] s.toList
  let s := replaceAll ['%'] ['\\', '%'] s
  String.ofList (replaceAll ['_'] ['\\', '_'] s)

section Pruning

variable {uuids : UuidText} {α β : Type}

namespace PruneTables

def selectBadFiles (rootStr : String) (db : PruneTables uuids α β) : List (String × String) :=
  (db.badFiles.filter fun r => pathLike rootStr r.path).map fun r => (r.id, r.path)

/-- A row without a path is like nothing. -/
def selectActive (rootStr : String) (db : PruneTables uuids α β) : List (String × String) :=
  db.files.filterMap fun r =>
    match r.path with
    | some path => if r.isActive ∧ pathLike rootStr path then some (r.id, path) else none
    | none => none

/-- `DELETE FROM bad_files WHERE id IN (..)`, added to the number of deleted rows. -/
def deleteChunk (p : PruneTables uuids α β × Nat) (chunk : List String) :
    PruneTables uuids α β × Nat :=
  let kept := p.1.filterBadFiles fun r => r.id ∉ chunk
  (kept, p.2 + (p.1.badFiles.length - kept.badFiles.length))

/-- `chunked_delete`, 500 identifiers in a statement. -/
def chunkedDelete (ids : List String) (db : PruneTables uuids α β) : PruneTables uuids α β × Nat :=
  (ids.toChunks 500).foldl deleteChunk (db, 0)

/-- `UPDATE files SET .. WHERE id = ?2 AND status = 'active'`, and one more in the count. -/
def updateMissing (now : String) (p : PruneTables uuids α β × Nat) (id : Uuid) :
    PruneTables uuids α β × Nat :=
  let marked := p.1.mapFiles (fun r => if r.id = uuids.print id then r.markMissing now else r) (by
    intro r
    split
    · exact r.markMissing_id now
    · rfl)
  (marked, p.2 + 1)

/-- `prune_missing_files_under`. `onDisk` is what `Path::exists` says of a path. -/
def pruneMissingFilesUnder (onDisk : String → Bool) (root : OsString) (now : String)
    (db : PruneTables uuids α β) : PruneTables uuids α β × Nat :=
  let rootStr := escapeLike (toStringLossy root)
  let missingBadIds := ((db.selectBadFiles rootStr).filter fun (_, path) => !onDisk path).map (·.1)
  let db := (db.chunkedDelete missingBadIds).1
  let missingIds := ((db.selectActive rootStr).filter fun (_, path) => !onDisk path).filterMap
    fun (id, _) => uuids.parse id
  if missingIds.isEmpty then (db, 0)
  else missingIds.foldl (updateMissing now) (db, 0)

def pruneMissingFiles (onDisk : String → Bool) (now : String) (db : PruneTables uuids α β) :
    PruneTables uuids α β × Nat :=
  db.pruneMissingFilesUnder onDisk "/".toByteArray now

end PruneTables

/-! ## Scopes -/

/-- The scope of the queries: what begins with the text of the root, in letters of either case. -/
def inText (root : OsString) (path : String) : Bool :=
  FileFilters.likePrefix (toStringLossy root) path

/-- The scope of a root: what begins with its components. -/
def under (root : OsString) (path : String) : Bool :=
  RawPath.startsWith path.toByteArray root

/-- The path is in the scope and no longer on disk. -/
def gone (inScope onDisk : String → Bool) (path : String) : Bool :=
  inScope path && !onDisk path

def LibraryFile.isGone (inScope onDisk : String → Bool) (r : LibraryFile α) : Bool :=
  r.isActive && r.path.any (gone inScope onDisk)

/-- What a prune over a scope is for: no other row changes, and the count is that of the files that
do. -/
def PruneTables.prunedBy (inScope onDisk : String → Bool) (now : String)
    (db : PruneTables uuids α β) : PruneTables uuids α β × Nat :=
  let marked := db.mapFiles (fun r => if r.isGone inScope onDisk then r.missing now else r) (by
    intro r
    split <;> rfl)
  (marked.filterBadFiles fun r => !gone inScope onDisk r.path,
    (db.files.filter (·.isGone inScope onDisk)).length)

/-! ## The queries -/

theorem toList_escapeLike (s : String) :
    (escapeLike s).toList = s.toList.flatMap likeWildcards.escaped := by
  unfold escapeLike
  simp only [String.toList_ofList, replaceAll_singleton, List.flatMap_assoc]
  refine List.flatMap_congr fun c _ => ?_
  -- The backslashes come first, so those that are put in later stay single.
  by_cases hescape : c = '\\'
  · subst hescape
    decide
  · by_cases hany : c = '%'
    · subst hany
      decide
    · by_cases hone : c = '_'
      · subst hone
        decide
      · simp [Wildcards.escaped, Wildcards.isSpecial, likeWildcards, hescape, hany, hone]

/-- An escaped text selects what begins with it. -/
theorem pathLike_escapeLike (s path : String) :
    pathLike (escapeLike s) path = FileFilters.likePrefix s path := by
  unfold pathLike
  rw [String.toList_append, toList_escapeLike]
  exact Wildcards.like_escaped_any s.toList path.toList

namespace PruneTables

variable {db : PruneTables uuids α β} {inScope onDisk : String → Bool} {now : String}

theorem selectBadFiles_gone (root : OsString) (onDisk : String → Bool)
    (db : PruneTables uuids α β) :
    ((db.selectBadFiles (escapeLike (toStringLossy root))).filter
      fun (_, path) => !onDisk path).map (·.1) =
      (db.badFiles.filter fun r => gone (inText root) onDisk r.path).map LibraryBadFile.id := by
  unfold selectBadFiles
  rw [List.filter_map, List.map_map, List.filter_filter]
  simp only [pathLike_escapeLike]
  congr 1
  refine List.filter_congr fun r _ => ?_
  exact Bool.and_comm _ _

theorem foldl_deleteChunk_fst (chunks : List (List String)) (p : PruneTables uuids α β × Nat) :
    (chunks.foldl deleteChunk p).1 = p.1.filterBadFiles fun r => r.id ∉ chunks.flatten := by
  ext1
  · induction chunks generalizing p with
    | nil => rfl
    | cons chunk chunks ih => exact ih (deleteChunk p chunk)
  · show _ = p.1.badFiles.filter fun r => r.id ∉ chunks.flatten
    rw [← Table.foldl_filter_not_mem]
    induction chunks generalizing p with
    | nil => rfl
    | cons chunk chunks ih => exact ih (deleteChunk p chunk)

theorem chunkedDelete_fst (ids : List String) (db : PruneTables uuids α β) :
    (db.chunkedDelete ids).1 = db.filterBadFiles fun r => r.id ∉ ids := by
  unfold chunkedDelete
  rw [foldl_deleteChunk_fst, toChunks_flatten]

theorem isGone_of_path_none {r : LibraryFile α} (hpath : r.path = none) :
    r.isGone inScope onDisk = false := by
  simp [LibraryFile.isGone, hpath]

theorem isGone_of_path_some {r : LibraryFile α} {path : String} (hpath : r.path = some path) :
    r.isGone inScope onDisk = (r.isActive && (inScope path && !onDisk path)) := by
  simp [LibraryFile.isGone, hpath, gone]

/-- The identifiers of the selected files can be read, and are written as they were. -/
theorem selectActive_gone (root : OsString) (onDisk : String → Bool)
    (db : PruneTables uuids α β) :
    ((((db.selectActive (escapeLike (toStringLossy root))).filter
      fun (_, path) => !onDisk path).filterMap fun (id, _) => uuids.parse id).map uuids.print) =
      (db.files.filter (·.isGone (inText root) onDisk)).map LibraryFile.id := by
  unfold selectActive
  -- Both sides select row by row.
  rw [List.filter_filterMap, List.filterMap_filterMap, List.map_filterMap,
    ← List.filterMap_eq_map, List.filterMap_filter]
  refine List.filterMap_congr fun r hr => ?_
  obtain ⟨u, hparse, hprint⟩ := db.files_canonical r hr
  cases hpath : r.path with
  | none => simp [isGone_of_path_none hpath]
  | some path =>
    rw [isGone_of_path_some hpath]
    simp only [pathLike_escapeLike]
    unfold inText
    cases r.isActive with
    | false => simp
    | true =>
      cases FileFilters.likePrefix (toStringLossy root) path with
      | false => simp
      | true =>
        cases hdisk : onDisk path with
        | false => simp [hparse, hprint, hdisk, Option.filter]
        | true => simp [hdisk, Option.filter]

theorem foldl_updateMissing_files (now : String) (ids : List Uuid)
    (p : PruneTables uuids α β × Nat) :
    (ids.foldl (updateMissing now) p).1.files =
      p.1.files.map fun r => if r.id ∈ ids.map uuids.print then r.markMissing now else r := by
  rw [← Table.foldl_modify (LibraryFile.markMissing_id now)
    (LibraryFile.markMissing_markMissing now), List.foldl_map]
  induction ids generalizing p with
  | nil => rfl
  | cons id ids ih => exact ih (updateMissing now p id)

theorem foldl_updateMissing_badFiles (now : String) (ids : List Uuid)
    (p : PruneTables uuids α β × Nat) :
    (ids.foldl (updateMissing now) p).1.badFiles = p.1.badFiles := by
  induction ids generalizing p with
  | nil => rfl
  | cons id ids ih => exact ih (updateMissing now p id)

theorem foldl_updateMissing_snd (now : String) (ids : List Uuid)
    (p : PruneTables uuids α β × Nat) :
    (ids.foldl (updateMissing now) p).2 = p.2 + ids.length := by
  induction ids generalizing p with
  | nil => rfl
  | cons id ids ih =>
    rw [List.foldl_cons, ih, List.length_cons]
    exact Nat.add_right_comm _ _ _

/-- The loop over the identifiers of some active rows marks these rows. -/
theorem foldl_updateMissing (now : String) {ids : List Uuid} {db : PruneTables uuids α β}
    {p : LibraryFile α → Bool} (hp : ∀ r, p r = true → r.isActive = true)
    (hids : ids.map uuids.print = (db.files.filter p).map LibraryFile.id) :
    (ids.foldl (updateMissing now) (db, 0)).1.files =
      (db.files.map fun r => if p r then r.missing now else r) ∧
    (ids.foldl (updateMissing now) (db, 0)).2 = (db.files.filter p).length := by
  constructor
  · rw [foldl_updateMissing_files]
    refine List.map_congr_left fun r hr => ?_
    have hmem : r.id ∈ ids.map uuids.print ↔ p r = true := by
      rw [hids]
      exact db.files_keyed.mem_map_filter hr
    by_cases hpr : p r = true
    · rw [if_pos (hmem.mpr hpr), if_pos hpr, LibraryFile.markMissing, if_pos (hp r hpr)]
    · rw [if_neg (mt hmem.mp hpr), if_neg hpr]
  · have hlength := congrArg List.length hids
    rw [List.length_map, List.length_map] at hlength
    rw [foldl_updateMissing_snd, hlength, Nat.zero_add]

/-- The code is the prune over the text of the root. -/
theorem pruneMissingFilesUnder_eq (onDisk : String → Bool) (root : OsString) (now : String)
    (db : PruneTables uuids α β) :
    db.pruneMissingFilesUnder onDisk root now = db.prunedBy (inText root) onDisk now := by
  unfold pruneMissingFilesUnder
  dsimp only
  rw [selectBadFiles_gone, chunkedDelete_fst]
  generalize hdeleted : (db.filterBadFiles fun r => r.id ∉ (db.badFiles.filter fun r =>
    gone (inText root) onDisk r.path).map LibraryBadFile.id) = deleted
  -- The deletion leaves the files as they are.
  have hfiles : deleted.files = db.files := by rw [← hdeleted]; rfl
  have hids := selectActive_gone root onDisk deleted
  generalize ((deleted.selectActive (escapeLike (toStringLossy root))).filter
    fun (_, path) => !onDisk path).filterMap (fun (id, _) => uuids.parse id) = ids at hids ⊢
  obtain ⟨hrows, hcount⟩ := foldl_updateMissing now
    (fun r hr => (Bool.and_eq_true_iff.mp hr).1) hids
  have hloop : (if ids.isEmpty = true then (deleted, 0)
      else ids.foldl (updateMissing now) (deleted, 0)) =
      ids.foldl (updateMissing now) (deleted, 0) := by
    cases ids with
    | nil => rfl
    | cons id ids => rfl
  rw [hloop]
  refine Prod.ext ?_ ?_
  · ext1
    · rw [hrows, hfiles]
      rfl
    · rw [foldl_updateMissing_badFiles, ← hdeleted]
      refine List.filter_congr fun r hr => ?_
      have hmem := db.badFiles_keyed.mem_map_filter (p := fun r =>
        gone (inText root) onDisk r.path) hr
      simp only [hmem, Bool.decide_eq_true, decide_not]
  · rw [hcount, hfiles]
    rfl

/-! ## Prunes over scopes -/

/-- The scopes have the same of what is gone: no active file and no bad one tells them apart. -/
def ScopesAgree (inScope inScope' onDisk : String → Bool) (db : PruneTables uuids α β) : Prop :=
  (∀ r ∈ db.files, r.isActive = true → ∀ path, r.path = some path → onDisk path = false →
    inScope path = inScope' path) ∧
  ∀ r ∈ db.badFiles, onDisk r.path = false → inScope r.path = inScope' r.path

/-- A row shows that it was marked. -/
theorem mark_inj {r : LibraryFile α} (hactive : r.isActive = true) {b b' : Bool} :
    (if b then r.missing now else r) = (if b' then r.missing now else r) ↔ b = b' := by
  have hne : r.missing now ≠ r := by
    intro h
    rw [← h] at hactive
    exact Bool.false_ne_true hactive
  cases b <;> cases b' <;> simp [hne, hne.symm]

theorem isGone_eq_iff {inScope' : String → Bool} {r : LibraryFile α} :
    r.isGone inScope onDisk = r.isGone inScope' onDisk ↔
      (r.isActive = true → ∀ path, r.path = some path → onDisk path = false →
        inScope path = inScope' path) := by
  cases hpath : r.path with
  | none => simp [isGone_of_path_none hpath]
  | some path =>
    rw [isGone_of_path_some hpath, isGone_of_path_some hpath]
    cases r.isActive <;> cases hdisk : onDisk path <;> simp [hdisk]

/-- Prunes over two scopes are the same exactly when the scopes agree on what is gone. -/
theorem prunedBy_eq_iff {inScope' : String → Bool} :
    db.prunedBy inScope onDisk now = db.prunedBy inScope' onDisk now ↔
      ScopesAgree inScope inScope' onDisk db := by
  have hmark : ∀ r : LibraryFile α,
      (if r.isGone inScope onDisk then r.missing now else r) =
        (if r.isGone inScope' onDisk then r.missing now else r) ↔
      r.isGone inScope onDisk = r.isGone inScope' onDisk := by
    intro r
    by_cases hactive : r.isActive = true
    · exact mark_inj hactive
    · simp [LibraryFile.isGone, hactive]
  have hbad : ∀ path, (!gone inScope onDisk path) = (!gone inScope' onDisk path) ↔
      (onDisk path = false → inScope path = inScope' path) := by
    intro path
    unfold gone
    cases onDisk path <;> simp
  constructor
  · intro h
    have hfiles := congrArg (fun result => result.1.files) h
    have hrows := congrArg (fun result => result.1.badFiles) h
    refine ⟨fun r hr => ?_, fun r hr => ?_⟩
    · exact isGone_eq_iff.mp ((hmark r).mp (List.map_inj_left.mp hfiles r hr))
    · refine (hbad r.path).mp (Bool.eq_iff_iff.mpr ?_)
      have hmem : r ∈ (db.prunedBy inScope onDisk now).1.badFiles ↔
          r ∈ (db.prunedBy inScope' onDisk now).1.badFiles := by rw [hrows]
      simpa [prunedBy, filterBadFiles, mapFiles, hr] using hmem
  · rintro ⟨hfiles, hrows⟩
    have hgone : ∀ r ∈ db.files, r.isGone inScope onDisk = r.isGone inScope' onDisk :=
      fun r hr => isGone_eq_iff.mpr (hfiles r hr)
    refine Prod.ext ?_ ?_
    · ext1
      · exact List.map_congr_left fun r hr => (hmark r).mpr (hgone r hr)
      · exact List.filter_congr fun r hr => (hbad r.path).mpr (hrows r hr)
    · exact congrArg List.length (List.filter_congr hgone)

/-- A marked row is no active one. -/
theorem isGone_mark {inScope' : String → Bool} (r : LibraryFile α) :
    (if r.isGone inScope onDisk then r.missing now else r).isGone inScope' onDisk =
      (r.isGone inScope' onDisk && !r.isGone inScope onDisk) := by
  cases hgone : r.isGone inScope onDisk with
  | false => simp
  | true => simp [LibraryFile.isGone]

/-- A second prune finds nothing. -/
theorem prunedBy_prunedBy (now' : String) :
    (db.prunedBy inScope onDisk now).1.prunedBy inScope onDisk now' =
      ((db.prunedBy inScope onDisk now).1, 0) := by
  have hnone : ∀ r ∈ (db.prunedBy inScope onDisk now).1.files, r.isGone inScope onDisk = false := by
    intro r' hr'
    obtain ⟨r, -, rfl⟩ := List.mem_map.mp hr'
    rw [isGone_mark, Bool.and_not_self]
  refine Prod.ext ?_ ?_
  · ext1
    · refine (List.map_congr_left fun r hr => ?_).trans (List.map_id _)
      rw [hnone r hr]
      rfl
    · refine List.filter_eq_self.mpr fun r hr => ?_
      exact (List.mem_filter.mp hr).2
  · refine List.length_eq_zero_iff.mpr (List.filter_eq_nil_iff.mpr fun r hr => ?_)
    rw [hnone r hr]
    exact Bool.false_ne_true

section Apart

variable {inScope' : String → Bool} (hapart : ∀ path, ¬(inScope path = true ∧ inScope' path = true))

include hapart

theorem not_isGone_of_apart {r : LibraryFile α} (h : r.isGone inScope onDisk = true) :
    r.isGone inScope' onDisk = false := by
  cases hpath : r.path with
  | none => exact isGone_of_path_none hpath
  | some path =>
    rw [isGone_of_path_some hpath] at h ⊢
    have hin : inScope path = true := by simp_all
    have hout : inScope' path = false := Bool.eq_false_iff.mpr fun h' => hapart path ⟨hin, h'⟩
    simp [hout]

/-- A prune elsewhere leaves the count as it is. -/
theorem prunedBy_count_of_apart (now' : String) :
    ((db.prunedBy inScope onDisk now).1.prunedBy inScope' onDisk now').2 =
      (db.prunedBy inScope' onDisk now').2 := by
  show (((db.files.map _).filter _).length) = _
  rw [List.filter_map, List.length_map]
  refine congrArg List.length (List.filter_congr fun r _ => ?_)
  rw [Function.comp_apply, isGone_mark]
  cases hgone : r.isGone inScope onDisk with
  | false => simp
  | true => rw [not_isGone_of_apart hapart hgone, Bool.false_and]

/-- Prunes over scopes with nothing in common can be made in either order. -/
theorem prunedBy_comm_of_apart (now' : String) :
    ((db.prunedBy inScope onDisk now).1.prunedBy inScope' onDisk now').1 =
      ((db.prunedBy inScope' onDisk now').1.prunedBy inScope onDisk now).1 := by
  ext1
  · show (db.files.map _).map _ = (db.files.map _).map _
    rw [List.map_map, List.map_map]
    refine List.map_congr_left fun r _ => ?_
    simp only [Function.comp_apply, isGone_mark]
    cases hgone : r.isGone inScope onDisk with
    | false => cases r.isGone inScope' onDisk <;> simp
    | true => simp [not_isGone_of_apart hapart hgone]
  · show (db.badFiles.filter _).filter _ = (db.badFiles.filter _).filter _
    rw [List.filter_filter, List.filter_filter]
    exact List.filter_congr fun r _ => Bool.and_comm _ _

end Apart

/-- A prune brings in nothing that is gone. -/
theorem ScopesAgree.prunedBy {scope inScope inScope' : String → Bool}
    (h : ScopesAgree inScope inScope' onDisk db) :
    ScopesAgree inScope inScope' onDisk (db.prunedBy scope onDisk now).1 := by
  refine ⟨fun r' hr' hactive path hpath hdisk => ?_, fun r hr => ?_⟩
  · obtain ⟨r, hr, rfl⟩ := List.mem_map.mp hr'
    cases hgone : r.isGone scope onDisk with
    | false =>
      simp only [hgone, Bool.false_eq_true, ↓reduceIte] at hactive hpath
      exact h.1 r hr hactive path hpath hdisk
    | true => simp [hgone] at hactive
  · exact h.2 r (List.mem_filter.mp hr).1

end PruneTables

/-! ## Roots -/

/-- Neither root is below the other. -/
def RootsApart (root root' : OsString) : Prop :=
  RawPath.startsWith root root' = false ∧ RawPath.startsWith root' root = false

theorem not_under_both {root root' : OsString} (h : RootsApart root root') (path : String) :
    ¬(under root path = true ∧ under root' path = true) := by
  rintro ⟨hroot, hroot'⟩
  unfold under RawPath.startsWith at hroot hroot'
  rw [List.isPrefixOf_iff_prefix] at hroot hroot'
  -- Two fronts of one path: the shorter begins the longer.
  rcases List.prefix_or_prefix_of_prefix hroot hroot' with hpre | hpre
  · exact Bool.eq_false_iff.mp h.2 (List.isPrefixOf_iff_prefix.mpr hpre)
  · exact Bool.eq_false_iff.mp h.1 (List.isPrefixOf_iff_prefix.mpr hpre)

namespace PruneTables

variable {db : PruneTables uuids α β} {inScope onDisk : String → Bool} {now : String}

/-- A prune touches what is gone under its root, and only that, exactly when nothing gone is under
the root and outside its text, or the other way round. -/
theorem pruneMissingFilesUnder_exact_iff (onDisk : String → Bool) (root : OsString) (now : String)
    (db : PruneTables uuids α β) :
    (db.pruneMissingFilesUnder onDisk root now = db.prunedBy (under root) onDisk now ↔
      ScopesAgree (inText root) (under root) onDisk db) ∧
    (∀ now', (db.pruneMissingFilesUnder onDisk root now).1.pruneMissingFilesUnder onDisk root now' =
      ((db.pruneMissingFilesUnder onDisk root now).1, 0)) ∧
    (∀ root' now', RootsApart root root' →
      ScopesAgree (inText root) (under root) onDisk db →
      ScopesAgree (inText root') (under root') onDisk db →
      let here := db.pruneMissingFilesUnder onDisk root now
      let there := db.pruneMissingFilesUnder onDisk root' now'
      let hereThenThere := here.1.pruneMissingFilesUnder onDisk root' now'
      let thereThenHere := there.1.pruneMissingFilesUnder onDisk root now
      hereThenThere.1 = thereThenHere.1 ∧ hereThenThere.2 = there.2 ∧ thereThenHere.2 = here.2) := by
  refine ⟨?_, fun now' => ?_, fun root' now' hapart hagree hagree' => ?_⟩
  · rw [pruneMissingFilesUnder_eq]
    exact prunedBy_eq_iff
  · rw [pruneMissingFilesUnder_eq, pruneMissingFilesUnder_eq]
    exact prunedBy_prunedBy now'
  · have hscopes := not_under_both hapart
    have hscopes' : ∀ path, ¬(under root' path = true ∧ under root path = true) :=
      fun path h => hscopes path h.symm
    -- Over the components the two scopes have nothing in common.
    have hhere : db.prunedBy (inText root) onDisk now = db.prunedBy (under root) onDisk now :=
      prunedBy_eq_iff.mpr hagree
    have hthere : db.prunedBy (inText root') onDisk now' = db.prunedBy (under root') onDisk now' :=
      prunedBy_eq_iff.mpr hagree'
    simp only [pruneMissingFilesUnder_eq]
    rw [prunedBy_eq_iff.mpr hagree'.prunedBy, prunedBy_eq_iff.mpr hagree.prunedBy, hhere, hthere]
    exact ⟨prunedBy_comm_of_apart hscopes now', prunedBy_count_of_apart hscopes now',
      prunedBy_count_of_apart hscopes' now⟩

end PruneTables

end Pruning

/-! ## A library of one file -/

def oneUuid : UuidText where
  parse s := if s = "00000000-0000-0000-0000-000000000001" then some 1 else none
  print _ := "00000000-0000-0000-0000-000000000001"

def libraryOf (path : String) : PruneTables oneUuid Unit Unit where
  files := [⟨"00000000-0000-0000-0000-000000000001", some path, "active", none, ()⟩]
  badFiles := []
  files_keyed := List.nodup_singleton _
  badFiles_keyed := List.nodup_nil
  files_canonical := by
    intro r hr
    rw [List.mem_singleton.mp hr]
    exact ⟨1, by simp [oneUuid], rfl⟩

def moviesRoot : OsString := "/media/movies".toByteArray

def tvRoot : OsString := "/media/tv".toByteArray

namespace PruneTables

theorem libraryOf_agrees {root : OsString} {path : String} (h : inText root path = under root path) :
    ScopesAgree (inText root) (under root) (fun _ => false) (libraryOf path) := by
  constructor
  · intro r hr hactive path' hpath hdisk
    obtain rfl := List.mem_singleton.mp hr
    obtain rfl := Option.some.inj hpath
    exact h
  · nofun

/-- Two roots next to each other, and a file that is gone below one of them. -/
theorem movies_pruned :
    let db := libraryOf "/media/movies/x.mkv"
    let movies := db.pruneMissingFilesUnder (fun _ => false) moviesRoot "now"
    let tv := db.pruneMissingFilesUnder (fun _ => false) tvRoot "later"
    movies = db.prunedBy (under moviesRoot) (fun _ => false) "now" ∧
      movies.1.pruneMissingFilesUnder (fun _ => false) moviesRoot "later" = (movies.1, 0) ∧
      (movies.1.pruneMissingFilesUnder (fun _ => false) tvRoot "later").1 =
        (tv.1.pruneMissingFilesUnder (fun _ => false) moviesRoot "now").1 := by
  have hmovies : inText moviesRoot "/media/movies/x.mkv" = under moviesRoot "/media/movies/x.mkv" := by
    decide
  have htv : inText tvRoot "/media/movies/x.mkv" = under tvRoot "/media/movies/x.mkv" := by
    decide
  have hapart : RootsApart moviesRoot tvRoot := ⟨by decide, by decide⟩
  obtain ⟨hexact, hagain, hother⟩ := pruneMissingFilesUnder_exact_iff (fun _ => false) moviesRoot
    "now" (libraryOf "/media/movies/x.mkv")
  exact ⟨hexact.mpr (libraryOf_agrees hmovies), hagain "later",
    (hother tvRoot "later" hapart (libraryOf_agrees hmovies) (libraryOf_agrees htv)).1⟩

/-- The text of a root is also that of its neighbours' front, and letters match in either case. -/
theorem neighbour_marked :
    (libraryOf "/media/movies2/x.mkv").pruneMissingFilesUnder (fun _ => false) moviesRoot "now" ≠
      (libraryOf "/media/movies2/x.mkv").prunedBy (under moviesRoot) (fun _ => false) "now" ∧
    (libraryOf "/media/Movies/x.mkv").pruneMissingFilesUnder (fun _ => false) moviesRoot "now" ≠
      (libraryOf "/media/Movies/x.mkv").prunedBy (under moviesRoot) (fun _ => false) "now" := by
  have hmarked : ∀ path, inText moviesRoot path = true → under moviesRoot path = false →
      (libraryOf path).pruneMissingFilesUnder (fun _ => false) moviesRoot "now" ≠
        (libraryOf path).prunedBy (under moviesRoot) (fun _ => false) "now" := by
    intro path htext hunder h
    rw [pruneMissingFilesUnder_eq, prunedBy_eq_iff] at h
    have := h.1 _ (List.mem_singleton_self _) rfl path rfl rfl
    rw [htext, hunder] at this
    exact Bool.false_ne_true this.symm
  exact ⟨hmarked _ (by decide) (by decide),
    hmarked _ (by decide) (by decide)⟩

end PruneTables

end Voom.Storage.Sqlite
