-- SUMMARY: Finding backup files on disk and inferring the paths they were made from.
import Voom.BackupManager.Backup

/-!
# Orphaned backups

Recovery knows a backup only by where it lies and what it is called. A sibling
backup names its original up to a timestamp, a global one only the file name,
which is matched against the pending operations.
-/

namespace Voom.Recovery

open BackupManager

/-- A plan that started and has not been closed yet, as the store keeps it. -/
structure PendingOperation where
  id : Uuid
  filePath : Path
  phaseName : String
  startedAt : Time
  deriving DecidableEq, Repr

/-- A backup file found on disk, with the path it is taken to be made from. -/
structure OrphanedBackup where
  backupPath : Path
  originalPath : Path
  deriving DecidableEq, Repr

/-! ## Directories -/

/-- The entries of a directory in the order `read_dir` gives them, each
subdirectory with its own. -/
inductive Listing where
  | done
  /-- `read_dir` failed. -/
  | unreadable
  | file (name : String) (rest : Listing)
  | dir (name : String) (sub rest : Listing)
  /-- A symlink, or an entry without metadata. -/
  | other (name : String) (rest : Listing)
  deriving DecidableEq, Repr

namespace Listing

/-- The files of the directory and of those below it. -/
def paths (dir : Path) : Listing → List Path
  | .done | .unreadable => []
  | .file name rest => dir.join name :: paths dir rest
  | .dir name sub rest => paths (dir.join name) sub ++ paths dir rest
  | .other _ rest => paths dir rest

/-- The names of all entries of the directory itself. -/
def names : Listing → List String
  | .done | .unreadable => []
  | .file name rest | .dir name _ rest | .other name rest => name :: names rest

/-- The names of its regular files. -/
def fileNames : Listing → List String
  | .done | .unreadable => []
  | .file name rest => name :: fileNames rest
  | .dir _ _ rest | .other _ rest => fileNames rest

end Listing

/-! ## Sibling backups -/

/-- `str::strip_suffix`. -/
def stripSuffix (suffix chars : List Char) : Option (List Char) :=
  if suffix.isSuffixOf chars then some (chars.take (chars.length - suffix.length)) else none

/-- `strip_timestamp_suffix`: without a trailing dot and fourteen digits. -/
def stripTimestampSuffix (name : List Char) : Option (List Char) :=
  let suffix := (name.reverse.takeWhile (· ≠ '.')).reverse
  if suffix.length = name.length then none
  else if suffix.length = 14 ∧ suffix.all Char.isDigit then
    some (name.take (name.length - suffix.length - 1))
  else none

section
variable (normalizePath : Path → Path)

/-- `infer_original_path`. -/
def inferOriginalPath (backupPath : Path) : Option Path :=
  backupPath.parent.bind fun backupDir =>
    backupDir.parent.bind fun originalDir =>
      backupPath.fileName.bind fun backupFilename =>
        (stripSuffix ".vbak".toList backupFilename.toList).bind fun withoutExt =>
          (stripTimestampSuffix withoutExt).map fun originalFilename =>
            (normalizePath originalDir).join (String.ofList originalFilename)

/-- `collect_vbak_files`. -/
def collectVbakFiles (backupDir : Path) (names : List String) : List OrphanedBackup :=
  names.filterMap fun name =>
    if (backupDir.join name).extension = some "vbak" then
      (inferOriginalPath normalizePath (backupDir.join name)).map fun original =>
        { backupPath := backupDir.join name, originalPath := original }
    else none

/-- `collect_orphans_in`: the `.vbak` files of every `.voom-backup` directory. -/
def collectOrphansIn (dir : Path) : Listing → List OrphanedBackup
  | .done | .unreadable => []
  | .file _ rest | .other _ rest => collectOrphansIn dir rest
  | .dir name sub rest =>
    (if name = ".voom-backup" then collectVbakFiles normalizePath (dir.join name) sub.names
      else collectOrphansIn (dir.join name) sub) ++ collectOrphansIn dir rest

/-- `find_orphans_under`. -/
def findOrphansUnder (readDir : Path → Listing) (dirs : List Path) : List OrphanedBackup :=
  dirs.flatMap fun dir => collectOrphansIn normalizePath dir (readDir dir)

end

/-! ## Global backups -/

def isHexDigit (c : Char) : Bool :=
  c.isDigit || ('a' ≤ c && c ≤ 'f') || ('A' ≤ c && c ≤ 'F')

/-- `Uuid::parse_str` on 36 characters: hyphens after 8, 12, 16 and 20 hexadecimal digits. -/
def isUuidText (chars : List Char) : Bool :=
  chars.length = 36 &&
    (chars.zipIdx.all fun p =>
      if p.2 = 8 ∨ p.2 = 13 ∨ p.2 = 18 ∨ p.2 = 23 then p.1 = '-' else isHexDigit p.1)

/-- The file name behind the identifier of a global backup. -/
def globalBackupName (backupFilename : String) : Option String :=
  let chars := backupFilename.toList
  if chars.length ≤ 37 then none
  else if chars.getD 36 ' ' ≠ '_' then none
  else if !isUuidText (chars.take 36) then none
  else some (String.ofList (chars.drop 37))

/-- The pending paths with a file name, in the order of the operations. -/
def pendingByFilename (pending : List PendingOperation) (filename : String) : List Path :=
  (pending.filter fun op => op.filePath.fileName = some filename).map (·.filePath)

/-- `collect_global_backups`: the backups with one match, and the paths that share
their file name with another pending operation. -/
def collectGlobalBackups (globalDir : Path) (pending : List PendingOperation)
    (names : List String) : List OrphanedBackup × List Path :=
  let found := names.filterMap fun name => (globalBackupName name).map fun original =>
    (globalDir.join name, pendingByFilename pending original)
  (found.filterMap fun p =>
      match p.2 with
      | [original] => some { backupPath := p.1, originalPath := original }
      | _ => none,
    found.flatMap fun p => if 1 < p.2.length then p.2 else [])

/-! ## Names of sibling backups -/

theorem stripSuffix_append (chars suffix : List Char) :
    stripSuffix suffix (chars ++ suffix) = some chars := by
  have hsuffix : suffix.isSuffixOf (chars ++ suffix) = true := by
    rw [List.isSuffixOf_iff_suffix]
    exact List.suffix_append chars suffix
  simp [stripSuffix, hsuffix]

theorem isDigit_render (now : Timestamp) : ∀ c ∈ now.render, c.isDigit = true ∧ c ≠ '.' := by
  intro c hc
  obtain ⟨d, -, rfl⟩ := List.mem_map.mp hc
  have hdigit : ∀ d : Fin 10, (Char.ofNat ('0'.toNat + d.val)).isDigit = true ∧
      Char.ofNat ('0'.toNat + d.val) ≠ '.' := by decide
  exact hdigit d

theorem render_length (now : Timestamp) : now.render.length = 14 := by
  rw [Timestamp.render, List.length_map, now.length_eq]

/-- What follows the last dot. -/
theorem takeWhile_reverse_append (front : List Char) {back : List Char} (h : ∀ c ∈ back, c ≠ '.') :
    (front ++ '.' :: back).reverse.takeWhile (· ≠ '.') = back.reverse := by
  rw [List.reverse_append, List.reverse_cons, List.append_assoc]
  rw [List.takeWhile_append_of_pos (by simpa using h)]
  simp

theorem stripTimestampSuffix_append (name : List Char) (now : Timestamp) :
    stripTimestampSuffix (name ++ '.' :: now.render) = some name := by
  have hdigits := isDigit_render now
  have hlength := render_length now
  have hsuffix := takeWhile_reverse_append name fun c hc => (hdigits c hc).2
  have hall : now.render.all Char.isDigit = true :=
    List.all_eq_true.mpr fun c hc => (hdigits c hc).1
  simp only [stripTimestampSuffix, hsuffix, List.reverse_reverse, hlength, hall]
  simp [hlength]

theorem extension_join_vbak (dir : Path) {stem : List Char} (h : stem ≠ []) :
    (dir.join (String.ofList (stem ++ ".vbak".toList))).extension = some "vbak" := by
  have hdotless : ∀ c ∈ "vbak".toList, c ≠ '.' := by simp
  have hext := takeWhile_reverse_append stem hdotless
  have hsplit : stem ++ ".vbak".toList = stem ++ '.' :: "vbak".toList := rfl
  simp only [Path.extension, Path.fileName_join, Option.bind_some, Path.splitExtension,
    String.toList_ofList, hsplit, hext]
  simp [h]

theorem inferOriginalPath_sibling (normalizePath : Path → Path) (dir : Path) (name : String)
    (now : Timestamp) :
    inferOriginalPath normalizePath ((dir.join ".voom-backup").join
      (String.ofList (name.toList ++ '.' :: now.render ++ ".vbak".toList))) =
        some ((normalizePath dir).join name) := by
  simp only [inferOriginalPath, Path.parent_join, Path.fileName_join, Option.bind_some,
    String.toList_ofList, stripSuffix_append, stripTimestampSuffix_append, Option.map_some,
    String.ofList_toList]

/-! ## Names of global backups -/

theorem isHexDigit_hexDigit : ∀ n < 16, isHexDigit (hexDigit n) = true := by
  decide

theorem isUuidText_uuidText (id : Uuid) : isUuidText (uuidText id) = true := by
  have hhex : ∀ n, isHexDigit (hexDigit (n % 16)) = true :=
    fun n => isHexDigit_hexDigit _ (Nat.mod_lt _ (by decide))
  simp [isUuidText, uuidText, hexDigits, hhex, List.zipIdx]

theorem globalBackupName_uuidText (id : Uuid) {name : String} (h : name ≠ "") :
    globalBackupName (String.ofList (uuidText id ++ '_' :: name.toList)) = some name := by
  have hlength := uuidText_length id
  have hpos : 0 < name.toList.length := by
    rw [List.length_pos_iff]
    intro hnil
    exact h (by rw [← String.ofList_toList (s := name), hnil])
  have hlong : ¬ (uuidText id ++ '_' :: name.toList).length ≤ 37 := by
    simp only [List.length_append, List.length_cons, hlength]
    omega
  have hat : (uuidText id ++ '_' :: name.toList).getD 36 ' ' = '_' := by
    rw [← hlength]
    simp
  have htake : (uuidText id ++ '_' :: name.toList).take 36 = uuidText id := by
    rw [← hlength, List.take_left]
  have hdrop : (uuidText id ++ '_' :: name.toList).drop 37 = name.toList := by
    have hsplit : uuidText id ++ '_' :: name.toList = (uuidText id ++ ['_']) ++ name.toList := by
      simp
    rw [hsplit]
    exact List.drop_left' (by simp)
  simp only [globalBackupName, String.toList_ofList, if_neg hlong, hat, ne_eq, not_true_eq_false,
    if_false, htake, isUuidText_uuidText, Bool.not_true, Bool.false_eq_true, hdrop,
    String.ofList_toList]

/-- A name with an extension ends with it. -/
theorem suffix_of_extension {dir : Path} {name : List Char} {ext : String}
    (h : (dir.join (String.ofList name)).extension = some ext) : '.' :: ext.toList <:+ name := by
  simp only [Path.extension, Path.fileName_join, Option.bind_some, Path.splitExtension,
    String.toList_ofList] at h
  split at h
  · cases h
  · rename_i hdot
    obtain rfl := Option.some.inj h
    rw [String.toList_ofList]
    let isName : Char → Bool := fun c => decide (c ≠ '.')
    have hsplit : name.reverse.takeWhile isName ++ name.reverse.dropWhile isName = name.reverse :=
      List.takeWhile_append_dropWhile
    cases hdrop : name.reverse.dropWhile isName with
    | nil =>
      -- without a dot the extension would be the whole name
      rw [hdrop, List.append_nil] at hsplit
      refine absurd (Or.inl ?_) hdot
      rw [List.length_reverse, hsplit, List.length_reverse]
    | cons c rest =>
      have hc : c = '.' := by
        have hhead := List.head?_dropWhile_not isName name.reverse
        rw [hdrop] at hhead
        simpa [isName] using hhead
      rw [hdrop, hc] at hsplit
      have hname := congrArg List.reverse hsplit
      rw [List.reverse_append, List.reverse_cons, List.reverse_reverse, List.append_assoc] at hname
      exact ⟨rest.reverse, hname⟩

/-- A global backup is taken for a sibling backup only if the file has a backup's name. -/
theorem vbak_of_global {dir : Path} {id : Uuid} {name : String}
    (h : (dir.join (String.ofList (uuidText id ++ '_' :: name.toList))).extension = some "vbak") :
    ".vbak".toList <:+ name.toList := by
  have hsuffix : ".vbak".toList <:+ uuidText id ++ '_' :: name.toList := suffix_of_extension h
  have hname : '_' :: name.toList <:+ uuidText id ++ '_' :: name.toList := List.suffix_append ..
  rcases List.suffix_or_suffix_of_suffix hsuffix hname with hshort | hlong
  · rcases List.suffix_cons_iff.mp hshort with heq | hshort
    · exact absurd (List.cons.inj heq).1 (by decide)
    · exact hshort
  · have hmem : '_' ∈ ".vbak".toList := hlong.subset (List.mem_cons_self ..)
    exact absurd hmem (by decide)

/-! ## What the scan finds -/

section
variable {normalizePath : Path → Path}

/-- A file directly in a `.voom-backup` directory. -/
def InSiblingDir (b : Path) : Prop := ∃ dir name, b = (Path.join dir ".voom-backup").join name

theorem collectVbakFiles_mem {dir : Path} {names : List String} {o : OrphanedBackup} :
    o ∈ collectVbakFiles normalizePath dir names ↔
      ∃ name ∈ names, o.backupPath = dir.join name ∧ o.backupPath.extension = some "vbak" ∧
        inferOriginalPath normalizePath o.backupPath = some o.originalPath := by
  simp only [collectVbakFiles, List.mem_filterMap]
  refine exists_congr fun name => and_congr_right fun _ => ?_
  constructor
  · intro h
    split at h
    · obtain ⟨original, horiginal, rfl⟩ := Option.map_eq_some_iff.mp h
      exact ⟨rfl, ‹_›, horiginal⟩
    · cases h
  · rintro ⟨hpath, hext, hinfer⟩
    rw [hpath] at hext hinfer
    rw [if_pos hext, hinfer, ← hpath]
    rfl

theorem collectOrphansIn_sound {dir : Path} {listing : Listing} {o : OrphanedBackup}
    (h : o ∈ collectOrphansIn normalizePath dir listing) :
    InSiblingDir o.backupPath ∧ o.backupPath.extension = some "vbak" ∧
      inferOriginalPath normalizePath o.backupPath = some o.originalPath := by
  induction listing generalizing dir with
  | done | unreadable => cases h
  | file name rest ih | other name rest ih => exact ih h
  | dir name sub rest ihsub ihrest =>
    rcases List.mem_append.mp h with h | h
    · split at h
      · rename_i hname
        obtain ⟨n, -, hpath, hext, hinfer⟩ := collectVbakFiles_mem.mp h
        exact ⟨⟨dir, n, hname ▸ hpath⟩, hext, hinfer⟩
      · exact ihsub h
    · exact ihrest h

theorem findOrphansUnder_sound {readDir : Path → Listing} {dirs : List Path} {o : OrphanedBackup}
    (h : o ∈ findOrphansUnder normalizePath readDir dirs) :
    InSiblingDir o.backupPath ∧ o.backupPath.extension = some "vbak" ∧
      inferOriginalPath normalizePath o.backupPath = some o.originalPath := by
  obtain ⟨dir, -, h⟩ := List.mem_flatMap.mp h
  exact collectOrphansIn_sound h

theorem mem_paths_below {dir p : Path} {listing : Listing} (h : p ∈ listing.paths dir) :
    ∃ rest, rest ≠ [] ∧ p.components = dir.components ++ rest := by
  induction listing generalizing dir with
  | done | unreadable => cases h
  | file name rest ih =>
    rcases List.mem_cons.mp h with rfl | h
    · exact ⟨[name], by simp, rfl⟩
    · exact ih h
  | dir name sub rest ihsub ihrest =>
    rcases List.mem_append.mp h with h | h
    · obtain ⟨below, -, hbelow⟩ := ihsub h
      exact ⟨name :: below, by simp, by simp [hbelow, Path.join]⟩
    · exact ihrest h
  | other name rest ih => exact ih h

theorem mem_names_of_paths {dir : Path} {name : String} {listing : Listing}
    (h : dir.join name ∈ listing.paths dir) : name ∈ listing.names := by
  induction listing with
  | done | unreadable => cases h
  | file n rest ih =>
    rcases List.mem_cons.mp h with h | h
    · simp only [Path.join, Path.mk.injEq, List.append_cancel_left_eq, List.cons.injEq,
        and_true] at h
      exact List.mem_cons.mpr (.inl h)
    · exact List.mem_cons_of_mem _ (ih h)
  | dir n sub rest ihsub ihrest =>
    rcases List.mem_append.mp h with h | h
    · -- a file of a subdirectory lies deeper
      obtain ⟨below, hne, hbelow⟩ := mem_paths_below h
      have hlength := congrArg List.length hbelow
      have hpos := List.length_pos_iff.mpr hne
      simp only [Path.join, List.length_append, List.length_singleton] at hlength
      omega
    · exact List.mem_cons_of_mem _ (ihrest h)
  | other n rest ih => exact List.mem_cons_of_mem _ (ih h)

/-- Every `.vbak` file that the listing shows is found, below directories that are not
themselves backup directories. -/
theorem collectOrphansIn_complete {root : Path} {between : List String} {name : String}
    {listing : Listing} {o : OrphanedBackup}
    (hpath : o.backupPath = ⟨root.components ++ between ++ [".voom-backup", name]⟩)
    (hbetween : ∀ c ∈ between, c ≠ ".voom-backup") (hext : o.backupPath.extension = some "vbak")
    (hinfer : inferOriginalPath normalizePath o.backupPath = some o.originalPath)
    (hmem : o.backupPath ∈ listing.paths root) :
    o ∈ collectOrphansIn normalizePath root listing := by
  induction listing generalizing root between with
  | done | unreadable => cases hmem
  | file n rest ih =>
    rcases List.mem_cons.mp hmem with hmem | hmem
    · rw [hpath] at hmem
      have hlength := congrArg (fun p : Path => p.components.length) hmem
      simp only [Path.join, List.length_append, List.length_cons, List.length_nil] at hlength
      omega
    · exact ih hpath hbetween hmem
  | dir n sub rest ihsub ihrest =>
    rcases List.mem_append.mp hmem with hmem | hmem
    · refine List.mem_append_left _ ?_
      obtain ⟨below, hne, hbelow⟩ := mem_paths_below hmem
      rw [hpath] at hbelow
      simp only [Path.join, List.append_assoc, List.append_cancel_left_eq,
        List.singleton_append] at hbelow
      cases between with
      | nil =>
        simp only [List.nil_append, List.cons.injEq] at hbelow
        obtain ⟨rfl, -⟩ := hbelow
        have hjoin : o.backupPath = (root.join ".voom-backup").join name := by
          simp [hpath, Path.join]
        rw [if_pos rfl]
        rw [hjoin] at hmem
        exact collectVbakFiles_mem.mpr ⟨name, mem_names_of_paths hmem, hjoin, hext, hinfer⟩
      | cons c between =>
        simp only [List.cons_append, List.cons.injEq] at hbelow
        obtain ⟨rfl, -⟩ := hbelow
        rw [if_neg (hbetween c (List.mem_cons_self ..))]
        have hbelow : o.backupPath =
            ⟨(root.join c).components ++ between ++ [".voom-backup", name]⟩ := by
          simp [hpath, Path.join]
        exact ihsub hbelow (fun c hc => hbetween c (List.mem_cons_of_mem _ hc)) hmem
    · exact List.mem_append_right _ (ihrest hpath hbetween hmem)
  | other n rest ih => exact ih hpath hbetween hmem

end

theorem mem_pendingByFilename {pending : List PendingOperation} {filename : String} {p : Path} :
    p ∈ pendingByFilename pending filename ↔
      ∃ op ∈ pending, op.filePath.fileName = some filename ∧ op.filePath = p := by
  simp only [pendingByFilename, List.mem_map, List.mem_filter, decide_eq_true_eq, and_assoc]

theorem mem_collectGlobalBackups {globalDir : Path} {pending : List PendingOperation}
    {names : List String} {o : OrphanedBackup} :
    o ∈ (collectGlobalBackups globalDir pending names).1 ↔
      ∃ name ∈ names, ∃ original, globalBackupName name = some original ∧
        pendingByFilename pending original = [o.originalPath] ∧
        o.backupPath = globalDir.join name := by
  simp only [collectGlobalBackups, List.mem_filterMap, Option.map_eq_some_iff]
  constructor
  · rintro ⟨q, ⟨name, hname, original, horiginal, rfl⟩, ho⟩
    refine ⟨name, hname, original, horiginal, ?_⟩
    split at ho
    · rename_i p hp
      obtain rfl := Option.some.inj ho
      exact ⟨hp, rfl⟩
    · cases ho
  · rintro ⟨name, hname, original, horiginal, hone, hpath⟩
    refine ⟨_, ⟨name, hname, original, horiginal, rfl⟩, ?_⟩
    rw [hone, ← hpath]

theorem mem_ambiguous {globalDir : Path} {pending : List PendingOperation} {names : List String}
    {p : Path} :
    p ∈ (collectGlobalBackups globalDir pending names).2 ↔
      ∃ name ∈ names, ∃ original, globalBackupName name = some original ∧
        1 < (pendingByFilename pending original).length ∧
        p ∈ pendingByFilename pending original := by
  simp only [collectGlobalBackups, List.mem_flatMap, List.mem_filterMap, Option.map_eq_some_iff]
  constructor
  · rintro ⟨q, ⟨name, hname, original, horiginal, rfl⟩, hp⟩
    refine ⟨name, hname, original, horiginal, ?_⟩
    split at hp
    · exact ⟨‹_›, hp⟩
    · cases hp
  · rintro ⟨name, hname, original, horiginal, hmany, hp⟩
    refine ⟨_, ⟨name, hname, original, horiginal, rfl⟩, ?_⟩
    rw [if_pos hmany]
    exact hp

end Voom.Recovery
