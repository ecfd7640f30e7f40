-- SUMMARY: The backup manager plugin: its records and its handling of the plan lifecycle.
import Voom.BackupManager.Backup
import Voom.Kernel.Bus

namespace Voom.BackupManager

open Kernel

/-- The plugin's state: the active backup records, by original path. -/
structure Manager where
  config : BackupConfig
  records : Path → Option BackupRecord
  /-- Whether a remote inventory is attached (`init` attaches one). -/
  inventory : Bool := true

namespace Manager

def hasBackup (m : Manager) (path : Path) : Bool := (m.records path).isSome

def insertRecord (m : Manager) (path : Path) (record : BackupRecord) : Manager :=
  { m with records := Function.update m.records path (some record) }

def eraseRecord (m : Manager) (path : Path) : Manager :=
  { m with records := Function.update m.records path none }

@[simp] theorem insertRecord_records_same (m : Manager) (path : Path) (r : BackupRecord) :
    (m.insertRecord path r).records path = some r := by
  simp [insertRecord]

theorem insertRecord_records_ne {m : Manager} {path p : Path} {r : BackupRecord} (h : p ≠ path) :
    (m.insertRecord path r).records p = m.records p := by
  simp [insertRecord, h]

@[simp] theorem eraseRecord_records_same (m : Manager) (path : Path) :
    (m.eraseRecord path).records path = none := by
  simp [eraseRecord]

theorem eraseRecord_records_ne {m : Manager} {path p : Path} (h : p ≠ path) :
    (m.eraseRecord path).records p = m.records p := by
  simp [eraseRecord, h]

end Manager

/-! ## Operations -/

/-- The inventory rows of a record, appended one remote backup at a time. -/
def appendInventoryRows (io : BackupIo) (record : BackupRecord) :
    List RemoteBackupRecord → Except VoomError Unit
  | [] => .ok ()
  | remote :: rest =>
    match io.sha256 record.backupPath with
    | .error e => .error e
    | .ok digest =>
      match io.appendInventory
          { backupId := record.id, originalPath := record.originalPath,
            localBackupPath := record.backupPath, destinationName := remote.destinationName,
            remotePath := remote.remotePath, size := record.size, sha256 := some digest,
            verified := remote.verified } with
      | .error e => .error e
      | .ok () => appendInventoryRows io record rest

/-- `persist_remote_inventory`. -/
def persistRemoteInventory (io : BackupIo) (m : Manager) (record : BackupRecord) :
    Except VoomError Unit :=
  if m.inventory then appendInventoryRows io record record.remoteBackups else .ok ()

/-- `BackupManagerPlugin::backup_file`. The record is active before the
inventory is written, so a failing inventory leaves it in place. -/
def backupFile (io : BackupIo) (path : Path) (m : Manager) (disk : Disk) :
    Manager × Disk × Except VoomError BackupRecord :=
  match backupFileWithDestinations io m.config path disk with
  | (disk, .error e) => (m, disk, .error e)
  | (disk, .ok record) =>
    let m := m.insertRecord path record
    match persistRemoteInventory io m record with
    | .error e => (m, disk, .error e)
    | .ok () => (m, disk, .ok record)

/-- The result of a step that did something; its JSON payload is not read by
anyone downstream. -/
def backupResult : EventResult := { pluginName := "backup-manager" }

/-- `BackupManagerPlugin::handles`. -/
def handles : EventType → Bool
  | .planExecuting | .planCompleted | .planFailed => true
  | _ => false

/-- `PlanExecuting`: back the file up unless a record is already active. -/
def onPlanExecuting (io : BackupIo) (path : Path) (m : Manager) (disk : Disk) :
    Manager × Disk × HandlerResult :=
  if m.hasBackup path then (m, disk, .ok none)
  else
    match backupFile io path m disk with
    | (m, disk, .error e) => (m, disk, .err e)
    | (m, disk, .ok _) => (m, disk, .ok (some backupResult))

/-- `PlanCompleted`: keep the record as retained, or remove backup and record. -/
def onPlanCompleted (io : BackupIo) (evt : PlanCompletedEvent) (m : Manager) (disk : Disk) :
    Manager × Disk × HandlerResult :=
  if evt.keepBackups then
    match m.records evt.path with
    | some record => (m.insertRecord evt.path { record with retained := true }, disk, .ok none)
    | none => (m, disk, .ok none)
  else
    match m.records evt.path with
    | none => (m, disk, .ok none)
    | some record =>
      match removeBackup io record disk with
      | (disk, .error e) => (m, disk, .err e)
      | (disk, .ok ()) => (m.eraseRecord evt.path, disk, .ok (some backupResult))

/-- `PlanFailed`: restore the file from its record, if there is one. -/
def onPlanFailed (io : BackupIo) (path : Path) (m : Manager) (disk : Disk) :
    Manager × Disk × HandlerResult :=
  match m.records path with
  | none => (m, disk, .ok none)
  | some record =>
    match restoreFile io record disk with
    | (disk, .error e) => (m, disk, .err e)
    | (disk, .ok ()) => (m.eraseRecord path, disk, .ok (some backupResult))

/-- `BackupManagerPlugin::on_event`. -/
def onEvent (io : BackupIo) (event : Event) (m : Manager) (disk : Disk) :
    Manager × Disk × HandlerResult :=
  match event with
  | .planExecuting evt => onPlanExecuting io evt.path m disk
  | .planCompleted evt => onPlanCompleted io evt m disk
  | .planFailed evt => onPlanFailed io evt.path m disk
  | _ => (m, disk, .ok none)

/-! ## When backing up succeeds -/

/-- Every row of the inventory is written. -/
def RowsPass (io : BackupIo) (record : BackupRecord) (remotes : List RemoteBackupRecord) : Prop :=
  ∀ remote ∈ remotes, ∃ digest, io.sha256 record.backupPath = .ok digest ∧
    io.appendInventory
      { backupId := record.id, originalPath := record.originalPath,
        localBackupPath := record.backupPath, destinationName := remote.destinationName,
        remotePath := remote.remotePath, size := record.size, sha256 := some digest,
        verified := remote.verified } = .ok ()

theorem appendInventoryRows_ok_iff (io : BackupIo) (record : BackupRecord)
    (remotes : List RemoteBackupRecord) :
    appendInventoryRows io record remotes = .ok () ↔ RowsPass io record remotes := by
  induction remotes with
  | nil => simp [appendInventoryRows, RowsPass]
  | cons remote rest ih =>
    unfold appendInventoryRows
    cases hsha : io.sha256 record.backupPath with
    | error e =>
      simp only [RowsPass, hsha, reduceCtorEq, false_and, exists_const, imp_false, false_iff]
      intro hall
      exact hall remote List.mem_cons_self
    | ok digest =>
      simp only [RowsPass, List.mem_cons, forall_eq_or_imp, hsha, Except.ok.injEq,
        exists_eq_left']
      cases happ : io.appendInventory
          { backupId := record.id, originalPath := record.originalPath,
            localBackupPath := record.backupPath, destinationName := remote.destinationName,
            remotePath := remote.remotePath, size := record.size, sha256 := some digest,
            verified := remote.verified } with
      | error e => simp
      | ok _ => simp [ih, RowsPass, hsha]

/-- The whole backup step goes through for a path: the copy and the uploads
pass, and, with an inventory attached, so does every row for an upload that was
made. Only a configuration with remote destinations ever writes rows. -/
def BackupPasses (io : BackupIo) (m : Manager) (path : Path) : Prop :=
  ∃ size, CopyPasses io m.config path size ∧
    ∃ uploaded, uploadDestinations io m.config path size m.config.destinations = .ok uploaded ∧
      (m.inventory = true → RowsPass io
        { id := io.uniqueId, originalPath := path,
          backupPath := backupPathFor m.config path io.uniqueId io.timestamp, size,
          createdAt := io.now, remoteBackups := uploaded, retained := false } uploaded)

theorem backupFile_eq_of_passes {io : BackupIo} {m : Manager} {path : Path}
    (h : BackupPasses io m path) (disk : Disk) :
    ∃ record, record.originalPath = path ∧ record.retained = false ∧
      record.backupPath = backupPathFor m.config path io.uniqueId io.timestamp ∧
      backupFile io path m disk =
        (m.insertRecord path record, disk.copy path record.backupPath, .ok record) := by
  obtain ⟨size, ⟨hsym, hsize, ⟨available, hav, hle⟩, hdir, hcopy⟩, uploaded, hup, hrows⟩ := h
  have hlt : ¬ available < size + m.config.minFreeSpace := by omega
  refine ⟨{ id := io.uniqueId, originalPath := path,
            backupPath := backupPathFor m.config path io.uniqueId io.timestamp, size,
            createdAt := io.now, remoteBackups := uploaded, retained := false }, rfl, rfl, rfl, ?_⟩
  unfold backupFile
  have hback : backupFileWithDestinations io m.config path disk =
      (disk.copy path (backupPathFor m.config path io.uniqueId io.timestamp),
        .ok { id := io.uniqueId, originalPath := path,
              backupPath := backupPathFor m.config path io.uniqueId io.timestamp, size,
              createdAt := io.now, remoteBackups := uploaded, retained := false }) := by
    simp [backupFileWithDestinations, validateDiskSpaceFor, hsym, hsize, hav, hlt, hdir, hcopy, hup]
  rw [hback]
  have hinv : persistRemoteInventory io (m.insertRecord path
      { id := io.uniqueId, originalPath := path,
        backupPath := backupPathFor m.config path io.uniqueId io.timestamp, size,
        createdAt := io.now, remoteBackups := uploaded, retained := false })
      { id := io.uniqueId, originalPath := path,
        backupPath := backupPathFor m.config path io.uniqueId io.timestamp, size,
        createdAt := io.now, remoteBackups := uploaded, retained := false } = .ok () := by
    unfold persistRemoteInventory
    split
    · rename_i hinv
      exact (appendInventoryRows_ok_iff _ _ _).mpr (hrows hinv)
    · rfl
  simp only [hinv]

/-- `backup_file` returns a record exactly when the whole step passes. -/
theorem backupFile_ok_iff (io : BackupIo) (m : Manager) (path : Path) (disk : Disk) :
    (∃ record, (backupFile io path m disk).2.2 = .ok record) ↔ BackupPasses io m path := by
  constructor
  · rintro ⟨record, h⟩
    unfold backupFile at h
    cases hb : backupFileWithDestinations io m.config path disk with
    | mk disk' result =>
      cases result with
      | error e => simp [hb] at h
      | ok record' =>
        have hpass := (backupFileWithDestinations_ok_iff io m.config path disk).mp
          ⟨record', by rw [hb]⟩
        obtain ⟨size, hcopyPasses, hup⟩ := hpass
        obtain ⟨uploaded, hup⟩ :=
          (uploadDestinations_ok_iff io m.config path size m.config.destinations).mpr hup
        refine ⟨size, hcopyPasses, uploaded, hup, fun hinv => ?_⟩
        obtain ⟨hsym, hsize, ⟨available, hav, hle⟩, hdir, hcopy⟩ := hcopyPasses
        have hlt : ¬ available < size + m.config.minFreeSpace := by omega
        have hrecord : record' =
            { id := io.uniqueId, originalPath := path,
              backupPath := backupPathFor m.config path io.uniqueId io.timestamp, size,
              createdAt := io.now, remoteBackups := uploaded, retained := false } := by
          have := congrArg Prod.snd hb
          simp [backupFileWithDestinations, validateDiskSpaceFor, hsym, hsize, hav, hlt, hdir,
            hcopy, hup] at this
          exact this.symm
        subst hrecord
        apply (appendInventoryRows_ok_iff _ _ _).mp
        simp only [hb, persistRemoteInventory, Manager.insertRecord, hinv, if_true] at h
        revert h
        split
        · intro h
          cases h
        · rename_i hrows
          intro _
          exact hrows
  · intro h
    obtain ⟨record, -, -, -, heq⟩ := backupFile_eq_of_passes h disk
    exact ⟨record, by rw [heq]⟩

/-! ## What the handlers answer -/

/-- A backup step that is unnecessary or passes: the record is there already
and nothing happens, or a copy is made and recorded. -/
theorem onPlanExecuting_cases {io : BackupIo} {m : Manager} {path : Path}
    (h : m.hasBackup path = true ∨ BackupPasses io m path) (disk : Disk) :
    (∃ r, m.records path = some r ∧ onPlanExecuting io path m disk = (m, disk, .ok none)) ∨
    ∃ r, r.originalPath = path ∧
      r.backupPath = backupPathFor m.config path io.uniqueId io.timestamp ∧
      onPlanExecuting io path m disk =
        (m.insertRecord path r, disk.copy path r.backupPath, .ok (some backupResult)) := by
  unfold onPlanExecuting
  by_cases hrec : m.hasBackup path = true
  · left
    obtain ⟨r, hr⟩ := Option.isSome_iff_exists.mp hrec
    exact ⟨r, hr, by simp [hrec]⟩
  · right
    obtain ⟨record, horig, -, hpath, heq⟩ := backupFile_eq_of_passes (h.resolve_left hrec) disk
    refine ⟨record, horig, hpath, ?_⟩
    simp only [hrec, Bool.false_eq_true, if_false, heq]

/-- A successful or unnecessary backup step leaves a record and answers without
an error. -/
theorem onPlanExecuting_of_passes {io : BackupIo} {m : Manager} {path : Path}
    (h : m.hasBackup path = true ∨ BackupPasses io m path) (disk : Disk) :
    (onPlanExecuting io path m disk).1.hasBackup path = true ∧
      ∀ e, (onPlanExecuting io path m disk).2.2 ≠ .err e := by
  rcases onPlanExecuting_cases h disk with ⟨r, hr, heq⟩ | ⟨r, -, -, heq⟩
  · simp [heq, Manager.hasBackup, hr]
  · simp [heq, Manager.hasBackup]

/-- Otherwise it answers with an error. -/
theorem onPlanExecuting_of_not_passes {io : BackupIo} {m : Manager} {path : Path}
    (h : ¬ (m.hasBackup path = true ∨ BackupPasses io m path)) (disk : Disk) :
    ∃ e, (onPlanExecuting io path m disk).2.2 = .err e := by
  obtain ⟨hrec, hpass⟩ := not_or.mp h
  have hnot := fun hok => hpass ((backupFile_ok_iff io m path disk).mp hok)
  unfold onPlanExecuting
  simp only [hrec, Bool.false_eq_true, if_false]
  split
  · rename_i e _
    exact ⟨e, rfl⟩
  · rename_i record heq
    exact absurd ⟨record, by rw [heq]⟩ hnot

/-- A backup of one path keeps the records of the others. -/
theorem onPlanExecuting_hasBackup {io : BackupIo} {m : Manager} {path p : Path} {disk : Disk}
    (h : m.hasBackup p = true) : (onPlanExecuting io path m disk).1.hasBackup p = true := by
  unfold onPlanExecuting backupFile
  have hinsert : ∀ record, (m.insertRecord path record).hasBackup p = true := by
    intro record
    by_cases hp : p = path
    · subst hp
      simp [Manager.hasBackup]
    · simpa [Manager.hasBackup, Manager.insertRecord_records_ne hp] using h
  grind

/-- The backup manager's results claim nothing and produce nothing. -/
theorem onEvent_result {io : BackupIo} {event : Event} {m : Manager} {disk : Disk} {r : EventResult}
    (h : (onEvent io event m disk).2.2 = .ok (some r)) : r = backupResult := by
  unfold onEvent at h
  split at h
  · unfold onPlanExecuting at h
    split at h
    · cases h
    · split at h <;> cases h
      rfl
  · unfold onPlanCompleted at h
    split at h
    · split at h <;> cases h
    · split at h
      · cases h
      · split at h <;> cases h
        rfl
  · unfold onPlanFailed at h
    split at h
    · cases h
    · split at h <;> cases h
      rfl
  · cases h

/-! ## Well-kept records -/

/-- Every record is about the path it is kept under, and its backup lies where
backups of that path go. -/
def Manager.WellKept (m : Manager) : Prop :=
  ∀ p r, m.records p = some r →
    r.originalPath = p ∧ ∃ id now, r.backupPath = backupPathFor m.config p id now

namespace Manager.WellKept

variable {m : Manager}

theorem insert (h : m.WellKept) {p : Path} {r : BackupRecord} (horig : r.originalPath = p)
    (hpath : ∃ id now, r.backupPath = backupPathFor m.config p id now) :
    (m.insertRecord p r).WellKept := by
  intro p' r' hr'
  by_cases hp : p' = p
  · subst hp
    rw [insertRecord_records_same] at hr'
    cases hr'
    exact ⟨horig, hpath⟩
  · rw [insertRecord_records_ne hp] at hr'
    exact h p' r' hr'

theorem erase (h : m.WellKept) (p : Path) : (m.eraseRecord p).WellKept := by
  intro p' r' hr'
  by_cases hp : p' = p
  · subst hp
    rw [eraseRecord_records_same] at hr'
    cases hr'
  · rw [eraseRecord_records_ne hp] at hr'
    exact h p' r' hr'

/-- A backup is not where the file is, and not where a conversion of it goes. -/
theorem backup_ne (h : m.WellKept) {p : Path} {r : BackupRecord} (hr : m.records p = some r) :
    r.backupPath ≠ p ∧ ∀ c : Container, r.backupPath ≠ p.withExtension c.asStr := by
  obtain ⟨-, id, now, hpath⟩ := h p r hr
  rw [hpath]
  refine ⟨backupPathFor_ne_self _ _ _ _, fun c => backupPathFor_ne_withExtension _ _ _ _ ?_⟩
  have := c.asStr_length
  omega

theorem onPlanExecuting {io : BackupIo} {path : Path} {disk : Disk} (h : m.WellKept)
    (hpass : m.hasBackup path = true ∨ BackupPasses io m path) :
    (BackupManager.onPlanExecuting io path m disk).1.WellKept := by
  rcases onPlanExecuting_cases hpass disk with ⟨r, -, heq⟩ | ⟨r, horig, hpath, heq⟩
  · rw [heq]
    exact h
  · rw [heq]
    exact h.insert horig ⟨_, _, hpath⟩

theorem onPlanCompleted {io : BackupIo} {evt : PlanCompletedEvent} {disk : Disk}
    (h : m.WellKept) : (BackupManager.onPlanCompleted io evt m disk).1.WellKept := by
  unfold BackupManager.onPlanCompleted
  split
  · split
    · rename_i record hrecord
      obtain ⟨horig, hpath⟩ := h _ _ hrecord
      exact h.insert horig hpath
    · exact h
  · split
    · exact h
    · split
      · exact h
      · exact h.erase _

theorem onPlanFailed {io : BackupIo} {path : Path} {disk : Disk} (h : m.WellKept) :
    (BackupManager.onPlanFailed io path m disk).1.WellKept := by
  unfold BackupManager.onPlanFailed
  split
  · exact h
  · split
    · exact h
    · exact h.erase _

end Manager.WellKept

/-- Failing a plan touches no file but the one at its path. -/
theorem onPlanFailed_disk {io : BackupIo} {path : Path} {m : Manager} (hkept : m.WellKept)
    {disk : Disk} {q : Path} (h : q ≠ path) : (onPlanFailed io path m disk).2.1 q = disk q := by
  unfold onPlanFailed restoreFile
  split
  · rfl
  · rename_i record hrecord
    obtain ⟨horig, -⟩ := hkept path record hrecord
    cases hcopy : io.copy record.backupPath record.originalPath with
    | error e => exact Disk.copyFailed_of_ne _ (horig ▸ h)
    | ok _ => exact Disk.copy_of_ne (horig ▸ h)

/-- A restore that goes through brings the content of the backup back. -/
theorem onPlanFailed_restores {io : BackupIo} {path : Path} {m : Manager} (hkept : m.WellKept)
    {disk : Disk} (hcopy : ∀ src dst, io.copy src dst = .ok ()) {r : BackupRecord}
    (hr : m.records path = some r) :
    (onPlanFailed io path m disk).2.1 path = disk r.backupPath := by
  obtain ⟨horig, -⟩ := hkept path r hr
  simp [onPlanFailed, restoreFile, hr, hcopy, horig]

end Voom.BackupManager
