-- SUMMARY: The file operations of the backup manager: where backups go, how they are made, restored and removed.
import Mathlib.Logic.Function.Basic
import Voom.Domain.Events

/-!
# Backup file operations

The operations of `backup.rs`, `destination.rs`, `space.rs` and `inventory.rs`
on a disk that maps paths to contents. What the operating system, `rclone` and
the clock answer is collected in `BackupIo`; an answer decides which exit a
function takes, and a copy or a removal changes the disk. A copy that fails may
have truncated its target and written part of it.
-/

namespace Voom

/-- The files on disk. -/
abbrev Disk := Path → Option Content

namespace Disk

/-- `fs::copy` that went through. -/
def copy (d : Disk) (src dst : Path) : Disk :=
  Function.update d dst (d src)

/-- `fs::copy` that failed: what it left in the target, if it came as far as that. -/
def copyFailed (d : Disk) (dst : Path) (left : Option Content) : Disk :=
  left.elim d fun content => Function.update d dst (some content)

/-- `fs::remove_file` that went through. -/
def remove (d : Disk) (p : Path) : Disk :=
  Function.update d p none

@[simp] theorem copy_dst (d : Disk) (src dst : Path) : d.copy src dst dst = d src := by
  simp [copy]

theorem copy_of_ne {d : Disk} {src dst p : Path} (h : p ≠ dst) : d.copy src dst p = d p := by
  simp [copy, h]

theorem copyFailed_of_ne {d : Disk} {dst p : Path} (left : Option Content) (h : p ≠ dst) :
    d.copyFailed dst left p = d p := by
  cases left with
  | none => rfl
  | some content => exact Function.update_of_ne h ..

@[simp] theorem remove_same (d : Disk) (p : Path) : d.remove p p = none := by
  simp [remove]

theorem remove_of_ne {d : Disk} {p q : Path} (h : q ≠ p) : d.remove p q = d q := by
  simp [remove, h]

end Disk

namespace BackupManager

def pluginErr (message : String) : VoomError :=
  .plugin "backup-manager" message

/-! ## Configuration -/

inductive DestinationKind where
  | «local» | rclone | s3 | sftp | webdav
  deriving DecidableEq, Repr, Inhabited

def DestinationKind.isRcloneBacked : DestinationKind → Bool
  | .local => false
  | .rclone | .s3 | .sftp | .webdav => true

structure BackupDestinationConfig where
  name : String
  kind : DestinationKind := .local
  remote : Option String := none
  bandwidthLimit : Option String := none
  deriving DecidableEq, Repr

structure BackupConfig where
  backupDir : Option Path := none
  useGlobalDir : Bool := false
  minFreeSpace : Nat := 1024 * 1024 * 100
  verifyAfterUpload : Bool := true
  blockOnRemoteFailure : Bool := true
  rclonePath : String := "rclone"
  destinations : List BackupDestinationConfig := []
  deriving DecidableEq, Repr, Inhabited

/-! ## Names of backup files -/

/-- The `%Y%m%d%H%M%S` rendering of an instant: fourteen decimal digits. -/
structure Timestamp where
  digits : List (Fin 10)
  length_eq : digits.length = 14
  deriving DecidableEq, Repr

namespace Timestamp

/-- Digits are written as numerals. -/
instance tenNeZero : NeZero 10 := ⟨by decide⟩

/-- The instant of fourteen zeros. -/
def zero : Timestamp := ⟨List.replicate 14 0, rfl⟩

def render (t : Timestamp) : List Char :=
  t.digits.map fun d => Char.ofNat ('0'.toNat + d.val)

end Timestamp

def hexDigit (n : Nat) : Char :=
  if n < 10 then Char.ofNat ('0'.toNat + n) else Char.ofNat ('a'.toNat + (n - 10))

/-- The `k` low hexadecimal digits of `n`, most significant first. -/
def hexDigits : Nat → Nat → List Char
  | 0, _ => []
  | k + 1, n => hexDigits k (n / 16) ++ [hexDigit (n % 16)]

/-- The hyphenated 8-4-4-4-12 rendering of an identifier. -/
def uuidText (u : Uuid) : List Char :=
  hexDigits 8 (u / 16 ^ 24) ++ '-' :: hexDigits 4 (u / 16 ^ 20) ++
    '-' :: hexDigits 4 (u / 16 ^ 16) ++ '-' :: hexDigits 4 (u / 16 ^ 12) ++
    '-' :: hexDigits 12 u

/-- Characters that may not stand in a backup's file name are replaced. -/
def sanitizeName (name : String) : String :=
  String.ofList (name.toList.map fun c => if c = '/' ∨ c = '\\' ∨ c = '\x00' then '_' else c)

/-- `backup_path_for`: in the global directory under a fresh identifier, or in
the sibling `.voom-backup` directory under a timestamp. -/
def backupPathFor (config : BackupConfig) (path : Path) (uniqueId : Uuid) (now : Timestamp) : Path :=
  let fileName := (path.fileName.map sanitizeName).getD "unknown"
  let sibling :=
    ((path.parent.getD ⟨["."]⟩).join ".voom-backup").join
      (String.ofList (fileName.toList ++ '.' :: now.render ++ ".vbak".toList))
  if config.useGlobalDir then
    match config.backupDir with
    | some dir => dir.join (String.ofList (uuidText uniqueId ++ '_' :: fileName.toList))
    | none => sibling
  else sibling

/-! ## Records -/

structure RemoteBackupRecord where
  destinationName : String
  remotePath : String
  verified : Bool
  deriving DecidableEq, Repr

structure RemoteUploadRequest where
  destination : BackupDestinationConfig
  sourcePath : Path
  remotePath : String
  expectedSize : Nat
  rclonePath : String
  verifyAfterUpload : Bool
  deriving DecidableEq, Repr

structure RemoteUploadReceipt where
  verified : Bool
  deriving DecidableEq, Repr

/-- A record of a backed-up file. -/
structure BackupRecord where
  id : Uuid
  originalPath : Path
  backupPath : Path
  size : Nat
  createdAt : Time
  remoteBackups : List RemoteBackupRecord
  /-- The backup was kept on purpose (`keep_backups`). -/
  retained : Bool
  deriving DecidableEq, Repr

structure RemoteBackupInventoryRecord where
  backupId : Uuid
  originalPath : Path
  localBackupPath : Path
  destinationName : String
  remotePath : String
  size : Nat
  sha256 : Option String
  verified : Bool
  deriving DecidableEq, Repr

/-- The answers of the operating system, of `rclone` and of the clock that one
backup sees. -/
structure BackupIo where
  /-- `symlink_metadata`: whether the path is a symlink. -/
  symlinkMetadata : Path → Except String Bool
  /-- `metadata`: the length of the file. -/
  metadata : Path → Except String Nat
  availableSpace : Path → Except VoomError Nat
  createDirAll : Path → Except String Unit
  copy : Path → Path → Except String Unit
  /-- What a failing copy leaves in its target. -/
  copyLeaves : Path → Path → Option Content := fun _ _ => none
  removeFile : Path → Except String Unit
  uploadRemote : RemoteUploadRequest → Except VoomError RemoteUploadReceipt
  sha256 : Path → Except VoomError String
  appendInventory : RemoteBackupInventoryRecord → Except VoomError Unit
  uniqueId : Uuid
  timestamp : Timestamp
  now : Time

/-! ## Making a backup -/

/-- `validate_disk_space_for`. -/
def validateDiskSpaceFor (io : BackupIo) (backupPath sourcePath : Path) (minFreeSpace : Nat) :
    Except VoomError Unit :=
  match io.metadata sourcePath with
  | .error e =>
    .error (pluginErr ("failed to read metadata for " ++ sourcePath.display ++ ": " ++ e))
  | .ok fileSize =>
    match io.availableSpace (backupPath.parent.getD (sourcePath.parent.getD ⟨[]⟩)) with
    | .error e => .error e
    | .ok available =>
      if available < fileSize + minFreeSpace then
        .error (pluginErr ("insufficient disk space for backup of " ++ sourcePath.display ++
          ": need " ++ toString (fileSize + minFreeSpace) ++ " bytes (file " ++ toString fileSize ++
          " + reserve " ++ toString minFreeSpace ++ "), have " ++ toString available ++ " available"))
      else .ok ()

/-- `remote_path_for`. -/
def remotePathFor (destination : BackupDestinationConfig) (id : Uuid) (source : Path) :
    Except VoomError String :=
  match destination.remote with
  | none => .error (pluginErr ("backup destination '" ++ destination.name ++ "' requires remote"))
  | some remote =>
    let fileName := (source.fileName.map sanitizeName).getD "unknown"
    let trimmed := (remote.toList.reverse.dropWhile (· = '/')).reverse
    .ok (String.ofList (trimmed ++ '/' :: uuidText id ++ '/' :: fileName.toList ++ ".vbak".toList))

/-- The upload loop: a failed upload ends the backup when the configuration
says so and is passed over otherwise. -/
def uploadDestinations (io : BackupIo) (config : BackupConfig) (path : Path) (size : Nat) :
    List BackupDestinationConfig → Except VoomError (List RemoteBackupRecord)
  | [] => .ok []
  | destination :: rest =>
    if destination.kind.isRcloneBacked then
      match remotePathFor destination io.uniqueId path with
      | .error e => .error e
      | .ok remotePath =>
        match io.uploadRemote { destination, sourcePath := path, remotePath, expectedSize := size,
                                rclonePath := config.rclonePath,
                                verifyAfterUpload := config.verifyAfterUpload } with
        | .ok receipt =>
          match uploadDestinations io config path size rest with
          | .ok uploaded => .ok (⟨destination.name, remotePath, receipt.verified⟩ :: uploaded)
          | .error e => .error e
        | .error e =>
          if config.blockOnRemoteFailure then .error e
          else uploadDestinations io config path size rest
    else uploadDestinations io config path size rest

/-- `backup_file_with_destinations`. The copy made before a failing upload
stays on disk. -/
def backupFileWithDestinations (io : BackupIo) (config : BackupConfig) (path : Path) (disk : Disk) :
    Disk × Except VoomError BackupRecord :=
  match io.symlinkMetadata path with
  | .error e => (disk, .error (pluginErr ("cannot read " ++ path.display ++ ": " ++ e)))
  | .ok true => (disk, .error (pluginErr ("refusing to backup symlink: " ++ path.display)))
  | .ok false =>
    match io.metadata path with
    | .error e => (disk, .error (pluginErr ("cannot backup " ++ path.display ++ ": " ++ e)))
    | .ok size =>
      let backupPath := backupPathFor config path io.uniqueId io.timestamp
      match validateDiskSpaceFor io backupPath path config.minFreeSpace with
      | .error e => (disk, .error e)
      | .ok () =>
        match io.createDirAll (backupPath.parent.getD ⟨[]⟩) with
        | .error e => (disk, .error (.io e))
        | .ok () =>
          match io.copy path backupPath with
          | .error e =>
            (disk.copyFailed backupPath (io.copyLeaves path backupPath),
              .error (pluginErr ("failed to copy " ++ path.display ++ " to " ++
                backupPath.display ++ ": " ++ e)))
          | .ok () =>
            let disk := disk.copy path backupPath
            match uploadDestinations io config path size config.destinations with
            | .error e => (disk, .error e)
            | .ok remoteBackups =>
              (disk, .ok { id := io.uniqueId, originalPath := path, backupPath, size,
                           createdAt := io.now, remoteBackups, retained := false })

/-! ## Restoring and removing -/

/-- `restore_file`: copy the backup over the original path. The backup file
itself stays. -/
def restoreFile (io : BackupIo) (record : BackupRecord) (disk : Disk) : Disk × Except VoomError Unit :=
  match io.copy record.backupPath record.originalPath with
  | .error e =>
    (disk.copyFailed record.originalPath (io.copyLeaves record.backupPath record.originalPath),
      .error (pluginErr ("failed to restore " ++ record.originalPath.display ++ " from " ++
        record.backupPath.display ++ ": " ++ e)))
  | .ok () => (disk.copy record.backupPath record.originalPath, .ok ())

/-- `remove_backup`. -/
def removeBackup (io : BackupIo) (record : BackupRecord) (disk : Disk) :
    Disk × Except VoomError Unit :=
  match io.removeFile record.backupPath with
  | .error e =>
    (disk, .error (pluginErr ("failed to remove backup " ++ record.backupPath.display ++ ": " ++ e)))
  | .ok () => (disk.remove record.backupPath, .ok ())

/-! ## When a backup goes through -/

/-- Every exit of the upload loop that blocks is avoided: each rclone-backed
destination names a remote, and its upload succeeds unless failures are
tolerated. -/
def UploadsPass (io : BackupIo) (config : BackupConfig) (path : Path) (size : Nat) : Prop :=
  ∀ destination ∈ config.destinations, destination.kind.isRcloneBacked = true →
    ∃ remotePath, remotePathFor destination io.uniqueId path = .ok remotePath ∧
      (config.blockOnRemoteFailure = true →
        ∃ receipt, io.uploadRemote
          { destination, sourcePath := path, remotePath, expectedSize := size,
            rclonePath := config.rclonePath,
            verifyAfterUpload := config.verifyAfterUpload } = .ok receipt)

theorem uploadDestinations_ok_iff (io : BackupIo) (config : BackupConfig) (path : Path) (size : Nat)
    (ds : List BackupDestinationConfig) :
    (∃ uploaded, uploadDestinations io config path size ds = .ok uploaded) ↔
      UploadsPass io { config with destinations := ds } path size := by
  induction ds with
  | nil => simp [uploadDestinations, UploadsPass]
  | cons d rest ih =>
    have hcons : UploadsPass io { config with destinations := d :: rest } path size ↔
        (d.kind.isRcloneBacked = true →
          ∃ remotePath, remotePathFor d io.uniqueId path = .ok remotePath ∧
            (config.blockOnRemoteFailure = true →
              ∃ receipt, io.uploadRemote
                { destination := d, sourcePath := path, remotePath, expectedSize := size,
                  rclonePath := config.rclonePath,
                  verifyAfterUpload := config.verifyAfterUpload } = .ok receipt)) ∧
          UploadsPass io { config with destinations := rest } path size := by
      simp [UploadsPass]
    rw [hcons]
    by_cases hk : d.kind.isRcloneBacked = true
    · simp only [hk, forall_true_left]
      cases hr : remotePathFor d io.uniqueId path with
      | error e => simp [uploadDestinations, hk, hr]
      | ok remotePath =>
        cases hu : io.uploadRemote
            { destination := d, sourcePath := path, remotePath, expectedSize := size,
              rclonePath := config.rclonePath, verifyAfterUpload := config.verifyAfterUpload } with
        | ok receipt =>
          simp only [uploadDestinations, hk, hr, hu, if_true, ← ih]
          cases uploadDestinations io config path size rest <;> simp [hu]
        | error e =>
          cases hb : config.blockOnRemoteFailure
          · simp [uploadDestinations, hk, hr, hu, hb, ih]
          · simp [uploadDestinations, hk, hr, hu, hb]
    · simp [uploadDestinations, hk, ih]

/-- The conditions under which the copy itself is made: a readable file that is
no symlink, room for it at the destination, and no failing system call. -/
structure CopyPasses (io : BackupIo) (config : BackupConfig) (path : Path) (size : Nat) : Prop where
  noSymlink : io.symlinkMetadata path = .ok false
  readable : io.metadata path = .ok size
  space : ∃ available,
    io.availableSpace (((backupPathFor config path io.uniqueId io.timestamp).parent).getD
      (path.parent.getD ⟨[]⟩)) = .ok available ∧ size + config.minFreeSpace ≤ available
  directory : io.createDirAll
    (((backupPathFor config path io.uniqueId io.timestamp).parent).getD ⟨[]⟩) = .ok ()
  copied : io.copy path (backupPathFor config path io.uniqueId io.timestamp) = .ok ()

/-- `backup_file_with_destinations` returns a record exactly when the copy and
the uploads pass. -/
theorem backupFileWithDestinations_ok_iff (io : BackupIo) (config : BackupConfig) (path : Path)
    (disk : Disk) :
    (∃ record, (backupFileWithDestinations io config path disk).2 = .ok record) ↔
      ∃ size, CopyPasses io config path size ∧ UploadsPass io config path size := by
  constructor
  · rintro ⟨record, h⟩
    unfold backupFileWithDestinations validateDiskSpaceFor at h
    split at h
    · simp at h
    · simp at h
    rename_i hsym
    split at h
    · simp at h
    rename_i size hsize
    simp only at h
    cases hav : io.availableSpace (((backupPathFor config path io.uniqueId io.timestamp).parent).getD
        (path.parent.getD ⟨[]⟩)) with
    | error e => simp [hav] at h
    | ok available =>
      by_cases hlt : available < size + config.minFreeSpace
      · simp [hav, hlt] at h
      · cases hdir : io.createDirAll
            (((backupPathFor config path io.uniqueId io.timestamp).parent).getD ⟨[]⟩) with
        | error e => simp [hav, hlt, hdir] at h
        | ok _ =>
          cases hcopy : io.copy path (backupPathFor config path io.uniqueId io.timestamp) with
          | error e => simp [hav, hlt, hdir, hcopy] at h
          | ok _ =>
            refine ⟨size, ⟨hsym, hsize, ⟨available, hav, by omega⟩, hdir, hcopy⟩, ?_⟩
            apply (uploadDestinations_ok_iff io config path size config.destinations).mp
            cases hup : uploadDestinations io config path size config.destinations with
            | error e => simp [hav, hlt, hdir, hcopy, hup] at h
            | ok uploaded => exact ⟨uploaded, rfl⟩
  · rintro ⟨size, ⟨hsym, hsize, ⟨available, hav, hle⟩, hdir, hcopy⟩, hup⟩
    obtain ⟨uploaded, hup⟩ :=
      (uploadDestinations_ok_iff io config path size config.destinations).mpr hup
    have hlt : ¬ available < size + config.minFreeSpace := by omega
    simp [backupFileWithDestinations, validateDiskSpaceFor, hsym, hsize, hav, hlt, hdir, hcopy, hup]

/-- The record of a backup is about the path that was backed up. -/
theorem backupFileWithDestinations_record {io : BackupIo} {config : BackupConfig} {path : Path}
    {disk : Disk} {record : BackupRecord}
    (h : (backupFileWithDestinations io config path disk).2 = .ok record) :
    record.originalPath = path ∧
      record.backupPath = backupPathFor config path io.uniqueId io.timestamp ∧
      record.retained = false ∧
      (backupFileWithDestinations io config path disk).1 = disk.copy path record.backupPath := by
  have hok := (backupFileWithDestinations_ok_iff io config path disk).mp ⟨record, h⟩
  obtain ⟨size, ⟨hsym, hsize, ⟨available, hav, hle⟩, hdir, hcopy⟩, hup⟩ := hok
  obtain ⟨uploaded, hup⟩ :=
    (uploadDestinations_ok_iff io config path size config.destinations).mpr hup
  have hlt : ¬ available < size + config.minFreeSpace := by omega
  have heq : backupFileWithDestinations io config path disk =
      (disk.copy path (backupPathFor config path io.uniqueId io.timestamp),
        .ok { id := io.uniqueId, originalPath := path,
              backupPath := backupPathFor config path io.uniqueId io.timestamp, size,
              createdAt := io.now, remoteBackups := uploaded, retained := false }) := by
    simp [backupFileWithDestinations, validateDiskSpaceFor, hsym, hsize, hav, hlt, hdir, hcopy, hup]
  rw [heq] at h ⊢
  simp only [Except.ok.injEq] at h
  subst h
  exact ⟨rfl, rfl, rfl, rfl⟩

/-! ## Backups lie apart from the files they are made of -/

@[simp] theorem hexDigits_length (k n : Nat) : (hexDigits k n).length = k := by
  induction k generalizing n with
  | zero => rfl
  | succ k ih => simp [hexDigits, ih]

@[simp] theorem uuidText_length (u : Uuid) : (uuidText u).length = 36 := by
  simp [uuidText]

@[simp] theorem sanitizeName_length (name : String) :
    (sanitizeName name).toList.length = name.toList.length := by
  simp [sanitizeName]

/-- The shape of a backup path: two levels below the file's directory, or in the
global directory under a name that is longer by an identifier. -/
theorem backupPathFor_cases (config : BackupConfig) (path : Path) (id : Uuid) (now : Timestamp) :
    (∃ name, backupPathFor config path id now =
      ((path.parent.getD ⟨["."]⟩).join ".voom-backup").join name) ∨
    ∃ (dir : Path) (name : String), backupPathFor config path id now = dir.join name ∧
      ((path.fileName.getD "unknown").toList.length + 37 = name.toList.length) := by
  unfold backupPathFor
  dsimp only
  split
  · split
    · rename_i dir _
      refine .inr ⟨dir, _, rfl, ?_⟩
      cases path.fileName with
      | none => simp
      | some name =>
        simp
        omega
    · exact .inl ⟨_, rfl⟩
  · exact .inl ⟨_, rfl⟩

/-- The name of a sibling of the file that is not much longer than its own. -/
theorem backupPathFor_ne_sibling {config : BackupConfig} {path : Path} {id : Uuid} {now : Timestamp}
    {parent : Path} {name sibling : String} (hpath : path = parent.join name)
    (hlen : sibling.toList.length < name.toList.length + 37) :
    backupPathFor config path id now ≠ parent.join sibling := by
  subst hpath
  rcases backupPathFor_cases config (parent.join name) id now with ⟨b, hb⟩ | ⟨dir, b, hb, hblen⟩
  · rw [hb, Path.parent_join, Option.getD_some]
    intro heq
    have hlength : parent.components.length + 2 = parent.components.length + 1 := by
      simpa [Path.join] using congrArg (fun p : Path => p.components.length) heq
    omega
  · rw [hb]
    intro heq
    have hname := congrArg Path.fileName heq
    simp only [Path.fileName_join, Option.some.injEq, Option.getD_some] at hname hblen
    subst hname
    omega

theorem backupPathFor_ne_self (config : BackupConfig) (path : Path) (id : Uuid) (now : Timestamp) :
    backupPathFor config path id now ≠ path := by
  cases hname : path.fileName with
  | some name =>
    have hpath := Path.eq_join_of_fileName hname
    intro heq
    refine backupPathFor_ne_sibling hpath (by omega) (heq.trans hpath)
  | none =>
    intro heq
    have hjoin : ∃ dir name, backupPathFor config path id now = Path.join dir name := by
      rcases backupPathFor_cases config path id now with ⟨b, hb⟩ | ⟨dir, b, hb, -⟩
      · exact ⟨_, b, hb⟩
      · exact ⟨dir, b, hb⟩
    obtain ⟨dir, b, hb⟩ := hjoin
    rw [heq] at hb
    rw [hb, Path.fileName_join] at hname
    cases hname

theorem backupPathFor_ne_withExtension (config : BackupConfig) (path : Path) (id : Uuid)
    (now : Timestamp) {ext : String} (hext : ext.toList.length ≤ 30) :
    backupPathFor config path id now ≠ path.withExtension ext := by
  cases hname : path.fileName with
  | some name =>
    have hpath := Path.eq_join_of_fileName hname
    have hwith : path.withExtension ext =
        (Path.mk path.components.dropLast).join ((Path.splitExtension name).1 ++ "." ++ ext) := by
      simp [Path.withExtension, hname, Path.join]
    rw [hwith]
    refine backupPathFor_ne_sibling hpath ?_
    have hstem := Path.splitExtension_length name
    simp only [String.toList_append, List.length_append]
    have hdot : ".".toList.length = 1 := rfl
    omega
  | none =>
    have hwith : path.withExtension ext = path := by
      simp [Path.withExtension, hname]
    rw [hwith]
    exact backupPathFor_ne_self config path id now

end BackupManager

end Voom
