-- SUMMARY: Recording an executed plan that moved its file: when it goes through, and that a failure changes nothing.
import Voom.Storage.Supersession

/-!
# Recording a conversion

A plan that converts a file leaves its content at a new path, and
`record_file_transition` records that in one bundle. The path column is unique
over all rows, also over missing ones, which keep the path they were last seen
at: the bundle goes through exactly if no other row has the new path.
-/

namespace Voom.Storage

open Lib Library

/-! ## The bundle -/

/-- What the transition says about the plan. -/
structure ExecutedPlan where
  planId : Uuid
  executor : String
  policyName : String
  phaseName : String
  deriving DecidableEq, Repr

/-- The transition of a successful plan. -/
def successTransition (oldFile newFile : MediaFile) (plan : ExecutedPlan) : FileTransition :=
  { fileId := oldFile.id, path := newFile.path, toHash := newFile.contentHash.getD "",
    toSize := newFile.size, source := .voom, fromHash := oldFile.contentHash,
    fromSize := some oldFile.size, sourceDetail := some plan.executor, planId := some plan.planId,
    outcome := some .success, policyName := some plan.policyName,
    phaseName := some plan.phaseName,
    fromPath := if oldFile.path ≠ newFile.path then some oldFile.path else none }

/-- `record_file_transition`: nothing to record if neither hash nor path changed. -/
def recordFileTransition (oldFile newFile : MediaFile) (plan : ExecutedPlan) (idTaken : Bool) :
    Tx VoomError Library Unit :=
  let hashChanged := newFile.contentHash ≠ oldFile.contentHash
  let pathChanged := oldFile.path ≠ newFile.path
  if ¬ hashChanged ∧ ¬ pathChanged then pure ()
  else
    recordPostExecutionTx (if pathChanged then some newFile.path else none)
      (if hashChanged then newFile.contentHash else none)
      (successTransition oldFile newFile plan) idTaken

/-- The conversion is recorded: its row, and no other, is active at the new
path, with the new expected hash and the transition, and nothing is left of
the old path or of a bad file at the new one. -/
def ConversionRecorded (l : Library) (oldFile newFile : MediaFile) (plan : ExecutedPlan) : Prop :=
  ∃ l', (recordFileTransition oldFile newFile plan false).commit l = (.ok (), l') ∧
    (∃ row, (l'.store.files.filter fun r => r.path = some newFile.path) = [row] ∧
      row.id = oldFile.id ∧ row.status = .active ∧
      ∀ hash, newFile.contentHash = some hash → oldFile.contentHash ≠ some hash →
        row.expectedHash = some hash) ∧
    (∀ r ∈ l'.store.files, r.status = .active → r.path ≠ some oldFile.path) ∧
    successTransition oldFile newFile plan ∈ l'.store.transitions ∧
    newFile.path ∉ l'.badFiles

/-! ## When it goes through -/

section Recording

variable {l : Library} {r : FileRow} {oldFile newFile : MediaFile}

/-- The row of a conversion afterwards. -/
def convertedRow (oldFile newFile : MediaFile) (r : FileRow) : FileRow :=
  { r with
    path := some newFile.path
    expectedHash := if newFile.contentHash ≠ oldFile.contentHash ∧ newFile.contentHash.isSome then
      newFile.contentHash else r.expectedHash }

theorem recordFileTransition_moved (hmoved : oldFile.path ≠ newFile.path) (plan : ExecutedPlan)
    (idTaken : Bool) :
    recordFileTransition oldFile newFile plan idTaken =
      recordPostExecutionTx (some newFile.path)
        (if newFile.contentHash ≠ oldFile.contentHash then newFile.contentHash else none)
        (successTransition oldFile newFile plan) idTaken := by
  unfold recordFileTransition
  dsimp only
  rw [if_neg fun h => h.2 hmoved, if_pos hmoved]

/-- With the new path free, the bundle changes the row of the file and no other. -/
theorem recordFileTransition_free (hmoved : oldFile.path ≠ newFile.path) (plan : ExecutedPlan)
    (hfree : ∀ r ∈ l.store.files, r.id ≠ oldFile.id → r.path ≠ some newFile.path) :
    ∃ s : Store, (recordFileTransition oldFile newFile plan false).commit l =
        (.ok (), deleteBadFileByPath newFile.path { l with store := s }) ∧
      s.files = Table.modify FileRow.id oldFile.id (convertedRow oldFile newFile) l.store.files ∧
      successTransition oldFile newFile plan ∈ s.transitions := by
  have hnone : (l.store.files.any fun r => r.id ≠ oldFile.id ∧ r.path = some newFile.path) = false := by
    simpa using hfree
  rw [recordFileTransition_moved hmoved, commit_recordPostExecutionTx]
  unfold Storage.recordPostExecution
  have hid : (successTransition oldFile newFile plan).fileId = oldFile.id := rfl
  simp only [hid, hnone, Bool.false_eq_true, if_false]
  by_cases hchanged : newFile.contentHash ≠ oldFile.contentHash ∧ newFile.contentHash.isSome
  · obtain ⟨hash, hhash⟩ := Option.isSome_iff_exists.mp hchanged.2
    rw [if_pos hchanged.1, hhash]
    refine ⟨_, rfl, ?_, List.mem_append_right _ (List.mem_singleton_self _)⟩
    change Table.modify FileRow.id oldFile.id _ (Table.modify FileRow.id oldFile.id _ _) = _
    rw [Table.modify_modify (by intro r; rfl)]
    congr 1
    funext r
    unfold convertedRow
    rw [if_pos hchanged, hhash]
  · have hkeep : (if newFile.contentHash ≠ oldFile.contentHash then newFile.contentHash else none) =
        none := by
      split
      · rename_i hne
        exact Option.not_isSome_iff_eq_none.mp fun hsome => hchanged ⟨hne, hsome⟩
      · rfl
    rw [hkeep]
    refine ⟨_, rfl, ?_, List.mem_append_right _ (List.mem_singleton_self _)⟩
    change Table.modify FileRow.id oldFile.id _ _ = _
    congr 1
    funext r
    unfold convertedRow
    rw [if_neg hchanged]

/-- With the new path taken, the bundle is refused. -/
theorem recordFileTransition_taken (hmoved : oldFile.path ≠ newFile.path) (plan : ExecutedPlan)
    (hr : r ∈ l.store.files) (hid : r.id = oldFile.id) {r' : FileRow} (hr' : r' ∈ l.store.files)
    (hid' : r'.id ≠ oldFile.id) (hpath : r'.path = some newFile.path) (idTaken : Bool) :
    ∃ e, (recordFileTransition oldFile newFile plan idTaken).commit l = (.error e, l) := by
  have hother : (l.store.files.any fun r => r.id ≠ oldFile.id ∧ r.path = some newFile.path) = true :=
    List.any_eq_true.mpr ⟨r', hr', by simp [hid', hpath]⟩
  have hrow : l.store.files.any (·.id = oldFile.id) = true :=
    List.any_eq_true.mpr ⟨r, hr, by simp [hid]⟩
  have htransition : (successTransition oldFile newFile plan).fileId = oldFile.id := rfl
  rw [recordFileTransition_moved hmoved, commit_recordPostExecutionTx]
  unfold Storage.recordPostExecution
  simp only [htransition, hother, hrow, if_true]
  exact ⟨_, rfl⟩

/-- The rows at a path, where ids and paths are unique. -/
theorem filter_path_eq {rows : List FileRow} (hids : Table.Keyed FileRow.id rows) {row : FileRow}
    (hrow : row ∈ rows) {p : Path} (hpath : row.path = some p)
    (honly : ∀ r ∈ rows, r.path = some p → r.id = row.id) :
    (rows.filter fun r => r.path = some p) = [row] := by
  have hnodup : rows.Nodup := List.Nodup.of_map _ hids
  have hiff : ∀ r ∈ rows, (r.path = some p ↔ r = row) := by
    intro r hr
    constructor
    · exact fun hp => hids.eq_of_key hr hrow (honly r hr hp)
    · rintro rfl
      exact hpath
  have hfilter : (rows.filter fun r => r.path = some p) = rows.filter fun r => r = row := by
    refine List.filter_congr fun r hr => ?_
    simp [hiff r hr]
  rw [hfilter, List.filter_eq, List.count_eq_one_of_mem hnodup hrow]
  rfl

/-- Recording a conversion fails only where the new path is taken, and then it
changes nothing. -/
theorem conversion_recorded_iff (ops : List LibraryOp) {r : FileRow} {oldFile newFile : MediaFile}
    (hr : r ∈ (runLibrary ops).store.files) (hactive : r.status = .active)
    (hid : r.id = oldFile.id) (hold : r.path = some oldFile.path)
    (hmoved : oldFile.path ≠ newFile.path) (plan : ExecutedPlan) :
    (ConversionRecorded (runLibrary ops) oldFile newFile plan ↔
      ∀ r' ∈ (runLibrary ops).store.files, r'.id ≠ r.id → r'.path ≠ some newFile.path) ∧
    ∀ idTaken e l', (recordFileTransition oldFile newFile plan idTaken).commit (runLibrary ops) =
      (.error e, l') → l' = runLibrary ops := by
  have hunique := (chainInvariant_run ops).unique
  generalize runLibrary ops = l at *
  refine ⟨⟨?_, ?_⟩, fun idTaken e l' => Tx.commit_error⟩
  · rintro ⟨l', hok, -⟩ r' hr' hid' hpath
    obtain ⟨e, herror⟩ := recordFileTransition_taken hmoved plan hr hid hr' (hid ▸ hid') hpath false
    rw [herror] at hok
    cases hok
  · intro hfree
    obtain ⟨s, hcommit, hfiles, htransition⟩ :=
      recordFileTransition_free hmoved plan (hid ▸ hfree)
    have hids : Table.Keyed FileRow.id s.files := by
      rw [hfiles]
      exact hunique.ids.modify fun _ _ _ => rfl
    have hrow : convertedRow oldFile newFile r ∈ s.files := by
      rw [hfiles]
      exact Table.mem_modify_self hr hid
    -- Every other row is as it was, and has neither the new path nor the old.
    have hothers : ∀ x ∈ s.files, x.id = oldFile.id ∨ x ∈ l.store.files := by
      intro x hx
      rw [hfiles] at hx
      obtain ⟨y, hy, rfl⟩ := Table.mem_modify.mp hx
      split
      · rename_i hy
        exact .inl hy
      · exact .inr hy
    refine ⟨_, hcommit, ⟨convertedRow oldFile newFile r, ?_, hid, hactive, ?_⟩, ?_, htransition, ?_⟩
    · refine filter_path_eq hids hrow rfl fun x hx hpath => ?_
      rcases hothers x hx with hx | hx
      · exact hx.trans hid.symm
      · by_contra hne
        exact hfree x hx hne hpath
    · intro hash hnew hne
      unfold convertedRow
      rw [if_pos ⟨fun heq => hne (heq ▸ hnew), by simp [hnew]⟩]
      exact hnew
    · intro x hx _ hpath
      rcases hothers x hx with hxid | hx'
      · rw [hids.eq_of_key hx hrow (hxid.trans hid.symm)] at hpath
        exact hmoved (Option.some.inj hpath).symm
      · have hxr : x = r := hunique.paths x hx' r hr (hpath.trans hold.symm) (by simp [hpath])
        have hxid : x.id = oldFile.id := hxr ▸ hid
        rw [hids.eq_of_key hx hrow (hxid.trans hid.symm)] at hpath
        exact hmoved (Option.some.inj hpath).symm
    · simp [deleteBadFileByPath]

end Recording

/-! ## Two histories -/

namespace Conversion

def root : Path := ⟨["m"]⟩
def mp4 : Path := ⟨["m", "film.mp4"]⟩
def mkv : Path := ⟨["m", "film.mkv"]⟩

def ingest (session : SessionId) (now : Time) (path : Path) (contentHash : Hash) (newId : Uuid) :
    LibraryOp :=
  .session (.ingest ⟨now, session, ⟨path, 5, contentHash⟩, newId⟩)

/-- A scan that finds the one file. -/
def scanned : List LibraryOp :=
  [.session (.begin [root] 1 0), ingest 1 1 mp4 "a" 10, .session (.finish 1 2)]

/-- Two scans: the first finds both files, the second one of them gone. -/
def rescanned : List LibraryOp :=
  [.session (.begin [root] 1 0), ingest 1 1 mp4 "a" 10, ingest 1 2 mkv "b" 11,
   .session (.finish 1 3), .session (.begin [root] 2 10), ingest 2 11 mp4 "a" 12,
   .session (.finish 2 13)]

/-- The plan converts the file to the path in Matroska. -/
def oldFile : MediaFile := { id := 10, path := mp4, size := 5, contentHash := some "a" }
def newFile : MediaFile := { id := 10, path := mkv, size := 4, contentHash := some "c" }
def plan : ExecutedPlan := ⟨7, "ffmpeg-executor", "policy", "convert"⟩

/-- The row of the file, as both histories leave it. -/
def row (session : SessionId) (now : Time) : FileRow :=
  { id := 10, path := some mp4, size := 5, contentHash := "a", expectedHash := some "a",
    introspectedAt := now, createdAt := now, lastSeenSession := some session }

theorem scanned_conversion_recorded :
    ConversionRecorded (runLibrary scanned) oldFile newFile plan := by
  refine (conversion_recorded_iff scanned (r := row 1 1) ?_ rfl rfl rfl ?_ plan).1.mpr ?_
  · decide
  · decide
  · decide

/-- The row of the file that is gone is missing, but still has its path. -/
theorem missing_row_blocks_conversion :
    (∃ r ∈ (runLibrary rescanned).store.files, r.path = some mkv ∧ r.status = .missing) ∧
      ¬ ConversionRecorded (runLibrary rescanned) oldFile newFile plan := by
  have hgone : ∃ r ∈ (runLibrary rescanned).store.files, r.path = some mkv ∧ r.status = .missing := by
    decide
  have herror : ∃ e, (recordFileTransition oldFile newFile plan false).commit
      (runLibrary rescanned) = (.error e, runLibrary rescanned) := by
    have hrow : row 2 1 ∈ (runLibrary rescanned).store.files := by decide
    have hother : ∃ r ∈ (runLibrary rescanned).store.files, r.id ≠ 10 ∧ r.path = some mkv := by
      decide
    obtain ⟨r', hr', hid', hpath⟩ := hother
    exact recordFileTransition_taken (by decide) plan hrow rfl hr' hid' hpath false
  refine ⟨hgone, ?_⟩
  rintro ⟨l', hok, -⟩
  obtain ⟨e, herror⟩ := herror
  rw [herror] at hok
  cases hok

end Conversion

end Voom.Storage
