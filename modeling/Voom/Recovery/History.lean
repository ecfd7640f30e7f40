-- SUMMARY: Histories of plans, backups and crashes, and when recovery restores the right bytes to the right path.
import Voom.BackupManager.Plugin
import Voom.Lib.Run
import Voom.Recovery.Recover

/-!
# Recovery after a history

Backups survive a phase that fails or keeps them, and recovery tells a backup's
original only from its name. So it is right as long as no plan starts on a path to
which a backup on disk would be attributed already.
-/

namespace Voom.Recovery

open BackupManager Lib

/-! ## Histories -/

/-- The backup manager, the disk and the pending operations. What each operation's file
held when it started and what each backup was made from is noted beside them. -/
structure Machine where
  manager : Manager
  disk : Disk
  pending : List PendingOperation := []
  origin : Uuid → Option Content := fun _ => none
  madeFrom : Path → Option Path := fun _ => none

/-- The directory of the global mode, as the backup manager and the caller of recovery
both read it from the configuration. -/
def globalDir (config : BackupConfig) : Option Path :=
  if config.useGlobalDir then config.backupDir else none

inductive Act where
  /-- `PlanExecuting` reaches the backup manager and then, unless it crashes before or the
  store fails, the store. -/
  | executing (io : BackupIo) (evt : PlanExecutingEvent) (now : Time) (stored : Bool)
  | completed (io : BackupIo) (evt : PlanCompletedEvent) (stored : Bool)
  | failed (io : BackupIo) (evt : PlanFailedEvent) (stored : Bool)
  /-- An executor or a user writes or deletes a file. -/
  | write (path : Path) (content : Option Content)
  | crash
  /-- A crash in the middle of the copy that `PlanExecuting` makes. -/
  | crashInBackup (io : BackupIo) (evt : PlanExecutingEvent) (copied : Content)
  | recover (io : RecoveryIo) (scanDirs : List Path)

/-- Whether `backup_file_with_destinations` gets as far as the copy. -/
def copyReached (io : BackupIo) (config : BackupConfig) (path : Path) : Bool :=
  let backupPath := backupPathFor config path io.uniqueId io.timestamp
  match io.symlinkMetadata path, io.metadata path,
    validateDiskSpaceFor io backupPath path config.minFreeSpace,
    io.createDirAll (backupPath.parent.getD ⟨[]⟩) with
  | .ok false, .ok _, .ok (), .ok () => true
  | _, _, _, _ => false

/-- What it writes to the backup path: the content of the file, or what a failing copy leaves. -/
def backupWrites (io : BackupIo) (config : BackupConfig) (path : Path) (disk : Disk) :
    Option (Option Content) :=
  let backupPath := backupPathFor config path io.uniqueId io.timestamp
  match copyReached io config path, io.copy path backupPath with
  | true, .ok () => some (disk path)
  | true, .error _ => (io.copyLeaves path backupPath).map some
  | false, _ => none

namespace Machine

def forget (s : Machine) : Machine :=
  { s with manager := { s.manager with records := fun _ => none } }

def backupPath (s : Machine) (io : BackupIo) (path : Path) : Path :=
  backupPathFor s.manager.config path io.uniqueId io.timestamp

section
variable (normalizePath : Path → Path)

def recovered (s : Machine) (io : RecoveryIo) (scanDirs : List Path) : RecoveryState :=
  (checkAndRecoverUnder normalizePath io .alwaysRecover scanDirs (globalDir s.manager.config)
    { disk := s.disk, pending := s.pending }).1

def step (s : Machine) : Act → Machine
  | .executing io evt now stored =>
    let (manager, disk, _) := onPlanExecuting io evt.path s.manager s.disk
    let written :=
      if s.manager.hasBackup evt.path then none
      else backupWrites io s.manager.config evt.path s.disk
    { manager, disk
      pending :=
        if stored then insertPendingOp ⟨evt.planId, evt.path, evt.phaseName, now⟩ s.pending
        else s.pending
      origin :=
        if stored then Function.update s.origin evt.planId (s.disk evt.path) else s.origin
      madeFrom :=
        if written.isSome then Function.update s.madeFrom (s.backupPath io evt.path) (some evt.path)
        else s.madeFrom }
  | .completed io evt stored =>
    let (manager, disk, _) := onPlanCompleted io evt s.manager s.disk
    { s with manager, disk
             pending := if stored then deletePendingOp evt.planId s.pending else s.pending }
  | .failed io evt stored =>
    let (manager, disk, _) := onPlanFailed io evt.path s.manager s.disk
    { s with manager, disk
             pending := if stored then deletePendingOp evt.planId s.pending else s.pending }
  | .write path content => { s with disk := Function.update s.disk path content }
  | .crash => s.forget
  | .crashInBackup io evt copied =>
    { s.forget with
      disk := Function.update s.disk (s.backupPath io evt.path) (some copied)
      madeFrom := Function.update s.madeFrom (s.backupPath io evt.path) (some evt.path) }
  | .recover io scanDirs =>
    let st := s.recovered normalizePath io scanDirs
    { s with disk := st.disk, pending := st.pending }

end

end Machine

/-! ## What recovery owes -/

/-- Recovery restores only to pending paths, each from a backup made of that path, and
leaves there what the path held when its operation started. It removes a pending
operation only with its path restored or without a backup of it. -/
structure RecoversRight (s : Machine) (st : RecoveryState) : Prop where
  pending : ∀ r ∈ st.restored, ∃ op ∈ s.pending, op.filePath = r.2
  own : ∀ r ∈ st.restored, s.madeFrom r.1 = some r.2
  content : ∀ r ∈ st.restored, ∀ op ∈ s.pending, op.filePath = r.2 →
    st.disk r.2 = s.origin op.id ∧ st.disk r.2 ≠ none
  others : ∀ q, st.disk q ≠ s.disk q → ∃ r ∈ st.restored, q = r.1 ∨ q = r.2
  removed : ∀ op ∈ s.pending, op ∉ st.pending → (∃ r ∈ st.restored, r.2 = op.filePath) ∨
    ∀ b, s.madeFrom b = some op.filePath → s.disk b = none

section
variable (normalizePath : Path → Path)

/-- A recovery along the history is right. -/
def Right (s : Machine) : Act → Prop
  | .recover io scanDirs => RecoversRight s (s.recovered normalizePath io scanDirs)
  | _ => True

/-! ## Orderly histories -/

/-- A path whose backups carry its name: it lies in no backup directory, discovery leaves
its directory as it is, and its name survives `backup_path_for` and is no backup's. -/
structure Ordinary (config : BackupConfig) (p : Path) : Prop where
  split : ∃ dir name, p = Path.join dir name ∧ normalizePath dir = dir ∧ name ≠ "" ∧
    sanitizeName name = name ∧ ¬ ".vbak".toList <:+ name.toList ∧
    (∀ c ∈ dir.components, c ≠ ".voom-backup") ∧ globalDir config ≠ some dir

/-- A file that lies where backups lie. -/
def InBackupDir (config : BackupConfig) (b : Path) : Prop :=
  InSiblingDir b ∨ ∃ g name, globalDir config = some g ∧ b = g.join name

/-- A file that recovery would take for a backup of the path. -/
def Attributed (config : BackupConfig) (p b : Path) : Prop :=
  (InSiblingDir b ∧ inferOriginalPath normalizePath b = some p) ∨
    ∃ g name filename, globalDir config = some g ∧ b = g.join name ∧
      globalBackupName name = some filename ∧ p.fileName = some filename

/-- No backup of the path is left and no operation on it pending, nor, in the global mode,
on a file of the same name. -/
structure Startable (s : Machine) (evt : PlanExecutingEvent) : Prop where
  ordinary : Ordinary normalizePath s.manager.config evt.path
  noBackup : ∀ b, s.disk b ≠ none → ¬ Attributed normalizePath s.manager.config evt.path b
  alone : ∀ op ∈ s.pending, op.filePath ≠ evt.path
  aloneByName : globalDir s.manager.config ≠ none →
    ∀ op ∈ s.pending, op.filePath.fileName ≠ evt.path.fileName
  fresh : ∀ op ∈ s.pending, op.id ≠ evt.planId

/-- The scanned directories are canonical, none is itself a pending file, their listings show
every file below them, and no copy breaks off with its target written. -/
structure Readable (s : Machine) (io : RecoveryIo) (scanDirs : List Path) : Prop where
  canonical : ∀ dir ∈ scanDirs, ∀ dir', io.canonicalize dir = some dir' → dir' = dir
  noFile : ∀ dir ∈ scanDirs, ∀ op ∈ s.pending, op.filePath ≠ dir
  listed : ∀ dir ∈ scanDirs, ∀ q, s.disk q ≠ none → q.startsWith dir = true →
    q ∈ (io.readDir dir).paths dir
  globalListed : ∀ g, globalDir s.manager.config = some g → ∀ name, s.disk (g.join name) ≠ none →
    name ∈ (io.readDir g).fileNames
  whole : ∀ src dst e, io.copy src dst = .error e → io.copyLeaves src dst = none

/-- The copy that makes the backup does not break off with part of it written. -/
def WholeBackup (s : Machine) (io : BackupIo) (path : Path) : Prop :=
  ∀ e, io.copy path (s.backupPath io path) = .error e →
    io.copyLeaves path (s.backupPath io path) = none

def Orderly (s : Machine) : Act → Prop
  | .executing io evt _ stored =>
    Startable normalizePath s evt ∧ (stored = true → WholeBackup s io evt.path)
  | .crashInBackup _ evt _ => Startable normalizePath s evt
  | .write path _ => ¬ InBackupDir s.manager.config path
  | .recover io scanDirs => Readable s io scanDirs
  | .completed _ _ _ | .failed _ _ _ | .crash => True

/-! ## Ordinary paths and their backups -/

section
variable {normalizePath} {config : BackupConfig} {p : Path}

theorem Ordinary.not_inBackupDir (h : Ordinary normalizePath config p) : ¬ InBackupDir config p := by
  obtain ⟨dir, name, rfl, -, -, -, -, hdir, hglobal⟩ := h.split
  rintro (⟨d, n, heq⟩ | ⟨g, n, hg, heq⟩)
  · have hparent := congrArg Path.parent heq
    rw [Path.parent_join, Path.parent_join, Option.some.injEq] at hparent
    rw [hparent] at hdir
    exact hdir ".voom-backup" (by simp [Path.join]) rfl
  · have hparent := congrArg Path.parent heq
    rw [Path.parent_join, Path.parent_join, Option.some.injEq] at hparent
    exact hglobal (hparent ▸ hg)

/-- Where the backups of an ordinary path lie and what they are called. -/
theorem Ordinary.backupPathFor_cases (h : Ordinary normalizePath config p) (id : Uuid)
    (now : Timestamp) :
    ∃ dir name, p = Path.join dir name ∧ normalizePath dir = dir ∧ name ≠ "" ∧
      ¬ ".vbak".toList <:+ name.toList ∧ (∀ c ∈ dir.components, c ≠ ".voom-backup") ∧
      ((globalDir config = none ∧
          backupPathFor config p id now = (dir.join ".voom-backup").join
            (String.ofList (name.toList ++ '.' :: now.render ++ ".vbak".toList))) ∨
        ∃ g, globalDir config = some g ∧
          backupPathFor config p id now =
            g.join (String.ofList (uuidText id ++ '_' :: name.toList))) := by
  obtain ⟨dir, name, rfl, hnorm, hne, hsane, hvbak, hdir, -⟩ := h.split
  refine ⟨dir, name, rfl, hnorm, hne, hvbak, hdir, ?_⟩
  unfold backupPathFor globalDir
  simp only [Path.fileName_join, Option.map_some, Option.getD_some, hsane, Path.parent_join]
  split
  · split
    · exact .inr ⟨_, ‹_›, rfl⟩
    · exact .inl ⟨‹_›, rfl⟩
  · exact .inl ⟨rfl, rfl⟩

theorem Ordinary.inBackupDir_backup (h : Ordinary normalizePath config p) (id : Uuid)
    (now : Timestamp) : InBackupDir config (backupPathFor config p id now) := by
  obtain ⟨dir, name, -, -, -, -, -, ⟨-, heq⟩ | ⟨g, hg, heq⟩⟩ := h.backupPathFor_cases id now
  · exact .inl ⟨dir, _, heq⟩
  · exact .inr ⟨g, _, hg, heq⟩

/-- Recovery attributes a backup of an ordinary path to that path. -/
theorem Ordinary.attributed_backup (h : Ordinary normalizePath config p) (id : Uuid)
    (now : Timestamp) : Attributed normalizePath config p (backupPathFor config p id now) := by
  obtain ⟨dir, name, rfl, hnorm, hne, -, -, ⟨-, heq⟩ | ⟨g, hg, heq⟩⟩ := h.backupPathFor_cases id now
  · refine .inl ⟨⟨dir, _, heq⟩, ?_⟩
    rw [heq, inferOriginalPath_sibling, hnorm]
  · exact .inr ⟨g, _, name, hg, heq, globalBackupName_uuidText id hne, Path.fileName_join ..⟩

/-- In the global mode also to every path with the same file name. -/
theorem Ordinary.attributed_sameName (h : Ordinary normalizePath config p)
    (hglobal : globalDir config ≠ none) {q : Path} (hname : q.fileName = p.fileName) (id : Uuid)
    (now : Timestamp) : Attributed normalizePath config q (backupPathFor config p id now) := by
  obtain ⟨dir, name, rfl, -, hne, -, -, ⟨hnone, -⟩ | ⟨g, hg, heq⟩⟩ := h.backupPathFor_cases id now
  · exact absurd hnone hglobal
  · refine .inr ⟨g, _, name, hg, heq, globalBackupName_uuidText id hne, ?_⟩
    rw [hname, Path.fileName_join]

end

/-! ## What the handlers of the backup manager do -/

theorem backupFileWithDestinations_disk (io : BackupIo) (config : BackupConfig) (path : Path)
    (disk : Disk) :
    (backupFileWithDestinations io config path disk).1 = (backupWrites io config path disk).elim disk
      (Function.update disk (backupPathFor config path io.uniqueId io.timestamp)) := by
  simp only [backupFileWithDestinations, backupWrites, copyReached]
  cases io.symlinkMetadata path with
  | error e => rfl
  | ok symlink =>
    cases symlink with
    | true => rfl
    | false =>
      cases io.metadata path with
      | error e => rfl
      | ok size =>
        cases validateDiskSpaceFor io (backupPathFor config path io.uniqueId io.timestamp) path
            config.minFreeSpace with
        | error e => rfl
        | ok _ =>
          cases io.createDirAll
              ((backupPathFor config path io.uniqueId io.timestamp).parent.getD ⟨[]⟩) with
          | error e => rfl
          | ok _ =>
            cases io.copy path (backupPathFor config path io.uniqueId io.timestamp) with
            | error e =>
              dsimp only
              cases io.copyLeaves path (backupPathFor config path io.uniqueId io.timestamp) with
              | none => rfl
              | some content => rfl
            | ok _ =>
              dsimp only
              cases uploadDestinations io config path size config.destinations with
              | error e => rfl
              | ok _ => rfl

theorem WholeBackup.writes {s : Machine} {io : BackupIo} {path : Path}
    (h : WholeBackup s io path) {content : Option Content}
    (hwrites : backupWrites io s.manager.config path s.disk = some content) :
    content = s.disk path := by
  cases hreached : copyReached io s.manager.config path with
  | false => simp [backupWrites, hreached] at hwrites
  | true =>
    cases hcopy : io.copy path (s.backupPath io path) with
    | error e =>
      have hnone := h e hcopy
      simp only [Machine.backupPath] at hcopy hnone
      simp [backupWrites, hreached, hcopy, hnone] at hwrites
    | ok _ =>
      simp only [Machine.backupPath] at hcopy
      simp only [backupWrites, hreached, hcopy, Option.some.injEq] at hwrites
      exact hwrites.symm

/-- Starting writes the backup or does not, and at most records it. -/
theorem onPlanExecuting_effect (io : BackupIo) (path : Path) (m : Manager) (disk : Disk) :
    (onPlanExecuting io path m disk).2.1 =
        (if m.hasBackup path then none else backupWrites io m.config path disk).elim disk
          (Function.update disk (backupPathFor m.config path io.uniqueId io.timestamp)) ∧
      ((onPlanExecuting io path m disk).1 = m ∨
        ∃ r, (onPlanExecuting io path m disk).1 = m.insertRecord path r ∧ r.originalPath = path) := by
  unfold onPlanExecuting
  cases hrecord : m.hasBackup path with
  | true => exact ⟨rfl, .inl rfl⟩
  | false =>
    have hdisk := backupFileWithDestinations_disk io m.config path disk
    simp only [Bool.false_eq_true, if_false]
    cases hresult : backupFileWithDestinations io m.config path disk with
    | mk disk' result =>
      rw [hresult] at hdisk
      cases result with
      | error e =>
        simp only [backupFile, hresult]
        exact ⟨hdisk, .inl trivial⟩
      | ok record =>
        have horiginal : record.originalPath = path :=
          (backupFileWithDestinations_record (by rw [hresult])).1
        simp only [backupFile, hresult]
        cases persistRemoteInventory io (m.insertRecord path record) record with
        | error e => exact ⟨hdisk, .inr ⟨record, rfl, horiginal⟩⟩
        | ok _ => exact ⟨hdisk, .inr ⟨record, rfl, horiginal⟩⟩

/-- Completing keeps or forgets a record and at most removes a file. -/
theorem onPlanCompleted_effect (io : BackupIo) (evt : PlanCompletedEvent) (m : Manager)
    (disk : Disk) :
    (onPlanCompleted io evt m disk).1.config = m.config ∧
      (∀ q r', (onPlanCompleted io evt m disk).1.records q = some r' →
        ∃ q₀ r, m.records q₀ = some r ∧ r'.originalPath = r.originalPath) ∧
      ∀ q, (onPlanCompleted io evt m disk).2.1 q = disk q ∨
        (onPlanCompleted io evt m disk).2.1 q = none := by
  have hsame : ∀ q r', m.records q = some r' →
      ∃ q₀ r, m.records q₀ = some r ∧ r'.originalPath = r.originalPath :=
    fun q r' hr => ⟨q, r', hr, rfl⟩
  unfold onPlanCompleted removeBackup
  split
  · split
    · rename_i record hrecord
      refine ⟨rfl, fun q r' hr => ?_, fun q => .inl rfl⟩
      by_cases hq : q = evt.path
      · rw [hq, Manager.insertRecord_records_same, Option.some.injEq] at hr
        exact ⟨evt.path, record, hrecord, hr ▸ rfl⟩
      · rw [Manager.insertRecord_records_ne hq] at hr
        exact hsame q r' hr
    · exact ⟨rfl, hsame, fun q => .inl rfl⟩
  · split
    · exact ⟨rfl, hsame, fun q => .inl rfl⟩
    · rename_i record hrecord
      cases io.removeFile record.backupPath with
      | error e => exact ⟨rfl, hsame, fun q => .inl rfl⟩
      | ok _ =>
        refine ⟨rfl, fun q r' hr => ?_, fun q => ?_⟩
        · by_cases hq : q = evt.path
          · rw [hq, Manager.eraseRecord_records_same] at hr
            cases hr
          · rw [Manager.eraseRecord_records_ne hq] at hr
            exact hsame q r' hr
        · by_cases hq : q = record.backupPath
          · rw [hq]
            exact .inr (Disk.remove_same _ _)
          · exact .inl (Disk.remove_of_ne hq)

/-- Failing forgets a record and at most writes the path the record is of. -/
theorem onPlanFailed_effect (io : BackupIo) (path : Path) (m : Manager) (disk : Disk) :
    (onPlanFailed io path m disk).1.config = m.config ∧
      (∀ q r, (onPlanFailed io path m disk).1.records q = some r → m.records q = some r) ∧
      ∀ q, (∀ r, m.records path = some r → q ≠ r.originalPath) →
        (onPlanFailed io path m disk).2.1 q = disk q := by
  unfold onPlanFailed restoreFile
  split
  · exact ⟨rfl, fun _ _ h => h, fun _ _ => rfl⟩
  · rename_i record hrecord
    cases io.copy record.backupPath record.originalPath with
    | error e =>
      exact ⟨rfl, fun _ _ h => h, fun q hq => Disk.copyFailed_of_ne _ (hq record hrecord)⟩
    | ok _ =>
      refine ⟨rfl, fun q r hr => ?_, fun q hq => Disk.copy_of_ne (hq record hrecord)⟩
      by_cases hq : q = path
      · rw [hq, Manager.eraseRecord_records_same] at hr
        cases hr
      · rw [Manager.eraseRecord_records_ne hq] at hr
        exact hr

/-! ## The invariant -/

/-- Every file where backups lie was made from an ordinary path, and if an operation on
that path is pending, holds what the path held when the operation started. -/
structure Inv (s : Machine) : Prop where
  records : ∀ p r, s.manager.records p = some r →
    Ordinary normalizePath s.manager.config r.originalPath
  ids : Table.Keyed PendingOperation.id s.pending
  ordinary : ∀ op ∈ s.pending, Ordinary normalizePath s.manager.config op.filePath
  placed : ∀ b p, s.madeFrom b = some p → InBackupDir s.manager.config b
  made : ∀ b, s.disk b ≠ none → InBackupDir s.manager.config b →
    ∃ p id now, s.madeFrom b = some p ∧ Ordinary normalizePath s.manager.config p ∧
      b = backupPathFor s.manager.config p id now
  origins : ∀ b, s.disk b ≠ none → ∀ op ∈ s.pending, s.madeFrom b = some op.filePath →
    s.disk b = s.origin op.id
  names : globalDir s.manager.config ≠ none → ∀ b p, s.disk b ≠ none → s.madeFrom b = some p →
    ∀ op ∈ s.pending, op.filePath.fileName = p.fileName → op.filePath = p

namespace Inv

variable {normalizePath} {s : Machine}

/-- Steps that make no backup and start no operation. -/
theorem shrink (h : Inv normalizePath s) {manager : Manager} {disk : Disk}
    {pending : List PendingOperation} (hconfig : manager.config = s.manager.config)
    (hrecords : ∀ p r, manager.records p = some r →
      Ordinary normalizePath s.manager.config r.originalPath)
    (hdisk : ∀ b, InBackupDir s.manager.config b → disk b = s.disk b ∨ disk b = none)
    (hpending : pending.Sublist s.pending) :
    Inv normalizePath { s with manager, disk, pending } := by
  have hback : ∀ b, disk b ≠ none → InBackupDir s.manager.config b → disk b = s.disk b :=
    fun b hb hdir => (hdisk b hdir).resolve_right hb
  refine ⟨?_, ?_, ?_, ?_, ?_, ?_, ?_⟩ <;> dsimp only <;> try rw [hconfig]
  · exact hrecords
  · exact List.Nodup.sublist (hpending.map _) h.ids
  · exact fun op hop => h.ordinary op (hpending.subset hop)
  · exact h.placed
  · exact fun b hb hdir => h.made b (hback b hb hdir ▸ hb) hdir
  · intro b hb op hop hmade
    have heq := hback b hb (h.placed b _ hmade)
    rw [heq]
    exact h.origins b (heq ▸ hb) op (hpending.subset hop) hmade
  · intro hglobal b p hb hmade op hop hname
    have heq := hback b hb (h.placed b _ hmade)
    exact h.names hglobal b p (heq ▸ hb) hmade op (hpending.subset hop) hname

/-- A backup of a path that no operation is pending on. -/
theorem backup (h : Inv normalizePath s) {evt : PlanExecutingEvent}
    (hstart : Startable normalizePath s evt) {manager : Manager}
    (hconfig : manager.config = s.manager.config)
    (hrecords : ∀ p r, manager.records p = some r →
      Ordinary normalizePath s.manager.config r.originalPath)
    (io : BackupIo) (content : Option Content) :
    Inv normalizePath
      { s with manager := manager
               disk := Function.update s.disk (s.backupPath io evt.path) content
               madeFrom := Function.update s.madeFrom (s.backupPath io evt.path)
                 (some evt.path) } := by
  have hplaced := hstart.ordinary.inBackupDir_backup io.uniqueId io.timestamp
  refine ⟨?_, h.ids, ?_, ?_, ?_, ?_, ?_⟩ <;> dsimp only <;> try rw [hconfig]
  · exact hrecords
  · exact h.ordinary
  · intro b p hmade
    by_cases hb : b = s.backupPath io evt.path
    · exact hb ▸ hplaced
    · rw [Function.update_of_ne hb] at hmade
      exact h.placed b p hmade
  · intro b hdisk hdir
    by_cases hb : b = s.backupPath io evt.path
    · exact ⟨evt.path, io.uniqueId, io.timestamp, by rw [hb, Function.update_self],
        hstart.ordinary, hb⟩
    · rw [Function.update_of_ne hb] at hdisk ⊢
      exact h.made b hdisk hdir
  · intro b hdisk op hop hmade
    by_cases hb : b = s.backupPath io evt.path
    · rw [hb, Function.update_self, Option.some.injEq] at hmade
      exact absurd hmade.symm (hstart.alone op hop)
    · rw [Function.update_of_ne hb] at hdisk hmade ⊢
      exact h.origins b hdisk op hop hmade
  · intro hglobal b p hdisk hmade op hop hname
    by_cases hb : b = s.backupPath io evt.path
    · rw [hb, Function.update_self, Option.some.injEq] at hmade
      exact absurd (hmade ▸ hname) (hstart.aloneByName hglobal op hop)
    · rw [Function.update_of_ne hb] at hdisk hmade
      exact h.names hglobal b p hdisk hmade op hop hname

/-- An operation starts whose path has no backup but those with its content. -/
theorem pend (h : Inv normalizePath s) (op : PendingOperation) {content : Option Content}
    (hordinary : Ordinary normalizePath s.manager.config op.filePath)
    (hfresh : ∀ op' ∈ s.pending, op'.id ≠ op.id)
    (hown : ∀ b, s.disk b ≠ none → s.madeFrom b = some op.filePath → s.disk b = content)
    (hnames : globalDir s.manager.config ≠ none → ∀ b p, s.disk b ≠ none →
      s.madeFrom b = some p → op.filePath.fileName = p.fileName → op.filePath = p) :
    Inv normalizePath
      { s with pending := insertPendingOp op s.pending
               origin := Function.update s.origin op.id content } := by
  have hmem : ∀ op' ∈ insertPendingOp op s.pending, op' ∈ s.pending ∨ op' = op := by
    intro op' hop'
    rcases List.mem_append.mp hop' with hop' | hop'
    · exact .inl (Table.mem_delete.mp hop').1
    · exact .inr (List.mem_singleton.mp hop')
  refine ⟨h.records, ?_, ?_, h.placed, h.made, ?_, ?_⟩
  · exact (h.ids.delete).append fun op' hop' => (Table.mem_delete.mp hop').2
  · intro op' hop'
    rcases hmem op' hop' with hop' | rfl
    · exact h.ordinary op' hop'
    · exact hordinary
  · intro b hdisk op' hop' hmade
    dsimp only
    rcases hmem op' hop' with hop' | rfl
    · rw [Function.update_of_ne (hfresh op' hop')]
      exact h.origins b hdisk op' hop' hmade
    · rw [Function.update_self]
      exact hown b hdisk hmade
  · intro hglobal b p hdisk hmade op' hop' hname
    rcases hmem op' hop' with hop' | rfl
    · exact h.names hglobal b p hdisk hmade op' hop' hname
    · exact hnames hglobal b p hdisk hmade hname

/-- The backups there are of a path on which a plan may start. -/
theorem no_backup (h : Inv normalizePath s) {evt : PlanExecutingEvent}
    (hstart : Startable normalizePath s evt) {b : Path} (hdisk : s.disk b ≠ none) :
    s.madeFrom b ≠ some evt.path ∧ (globalDir s.manager.config ≠ none → ∀ p,
      s.madeFrom b = some p → evt.path.fileName ≠ p.fileName) := by
  constructor
  · intro hmade
    obtain ⟨p, id, now, hp, hordinary, rfl⟩ := h.made b hdisk (h.placed b _ hmade)
    obtain rfl := Option.some.inj (hp.symm.trans hmade)
    exact hstart.noBackup _ hdisk (hordinary.attributed_backup id now)
  · intro hglobal p hmade hname
    obtain ⟨p', id, now, hp, hordinary, rfl⟩ := h.made b hdisk (h.placed b _ hmade)
    obtain rfl := Option.some.inj (hp.symm.trans hmade)
    exact hstart.noBackup _ hdisk (hordinary.attributed_sameName hglobal hname id now)

theorem records_executing (h : Inv normalizePath s) {evt : PlanExecutingEvent}
    (hstart : Startable normalizePath s evt) (io : BackupIo) :
    (onPlanExecuting io evt.path s.manager s.disk).1.config = s.manager.config ∧
      ∀ p r, (onPlanExecuting io evt.path s.manager s.disk).1.records p = some r →
        Ordinary normalizePath s.manager.config r.originalPath := by
  obtain ⟨-, hsame | ⟨record, hinsert, horiginal⟩⟩ :=
    onPlanExecuting_effect io evt.path s.manager s.disk
  · rw [hsame]
    exact ⟨rfl, h.records⟩
  · rw [hinsert]
    refine ⟨rfl, fun p r hr => ?_⟩
    by_cases hp : p = evt.path
    · rw [hp, Manager.insertRecord_records_same, Option.some.injEq] at hr
      rw [← hr, horiginal]
      exact hstart.ordinary
    · rw [Manager.insertRecord_records_ne hp] at hr
      exact h.records p r hr

theorem executing (h : Inv normalizePath s) {evt : PlanExecutingEvent}
    (hstart : Startable normalizePath s evt) (io : BackupIo) (now : Time) (stored : Bool)
    (hwhole : stored = true → WholeBackup s io evt.path) :
    Inv normalizePath (s.step normalizePath (.executing io evt now stored)) := by
  obtain ⟨hconfig, hrecords⟩ := h.records_executing hstart io
  have hdisk := (onPlanExecuting_effect io evt.path s.manager s.disk).1
  cases hwritten : (if s.manager.hasBackup evt.path then none
      else backupWrites io s.manager.config evt.path s.disk) with
  | some content =>
    have hbackup := h.backup hstart hconfig hrecords io content
    rw [hwritten] at hdisk
    simp only [Machine.step, hwritten, hdisk, Option.isSome_some, Option.elim_some, if_true]
    cases stored with
    | false => exact hbackup
    | true =>
      have hcontent : content = s.disk evt.path := by
        split at hwritten
        · cases hwritten
        · exact (hwhole rfl).writes hwritten
      refine hbackup.pend ⟨evt.planId, evt.path, evt.phaseName, now⟩ ?_ hstart.fresh ?_ ?_ <;>
        dsimp only <;> try rw [hconfig]
      · exact hstart.ordinary
      · intro b hb hmade
        by_cases heq : b = s.backupPath io evt.path
        · rw [heq, Function.update_self, hcontent]
        · rw [Function.update_of_ne heq] at hb hmade
          exact absurd hmade (h.no_backup hstart hb).1
      · intro hglobal b p hb hmade hname
        by_cases heq : b = s.backupPath io evt.path
        · rw [heq, Function.update_self, Option.some.injEq] at hmade
          exact hmade
        · rw [Function.update_of_ne heq] at hb hmade
          exact absurd hname ((h.no_backup hstart hb).2 hglobal p hmade)
  | none =>
    have hmanager : Inv normalizePath
        { s with manager := (onPlanExecuting io evt.path s.manager s.disk).1 } :=
      h.shrink hconfig hrecords (fun _ _ => .inl rfl) (List.Sublist.refl _)
    rw [hwritten] at hdisk
    simp only [Machine.step, hwritten, hdisk, Option.isSome_none, Option.elim_none,
      Bool.false_eq_true, if_false]
    cases stored with
    | false => exact hmanager
    | true =>
      refine hmanager.pend ⟨evt.planId, evt.path, evt.phaseName, now⟩ ?_ hstart.fresh ?_ ?_ <;>
        dsimp only <;> try rw [hconfig]
      · exact hstart.ordinary
      · exact fun b hb hmade => absurd hmade (h.no_backup hstart hb).1
      · exact fun hglobal b p hb hmade hname =>
          absurd hname ((h.no_backup hstart hb).2 hglobal p hmade)

theorem completed (h : Inv normalizePath s) (io : BackupIo) (evt : PlanCompletedEvent)
    (stored : Bool) : Inv normalizePath (s.step normalizePath (.completed io evt stored)) := by
  obtain ⟨hconfig, hrecords, hdisk⟩ := onPlanCompleted_effect io evt s.manager s.disk
  simp only [Machine.step]
  refine h.shrink hconfig (fun p r hr => ?_) (fun b _ => hdisk b) ?_
  · obtain ⟨p₀, r₀, hr₀, horiginal⟩ := hrecords p r hr
    exact horiginal ▸ h.records p₀ r₀ hr₀
  · split
    · exact List.filter_sublist
    · exact List.Sublist.refl _

theorem failed (h : Inv normalizePath s) (io : BackupIo) (evt : PlanFailedEvent)
    (stored : Bool) : Inv normalizePath (s.step normalizePath (.failed io evt stored)) := by
  obtain ⟨hconfig, hrecords, hdisk⟩ := onPlanFailed_effect io evt.path s.manager s.disk
  simp only [Machine.step]
  refine h.shrink hconfig (fun p r hr => h.records p r (hrecords p r hr)) (fun b hb => .inl ?_) ?_
  · refine hdisk b fun r hr heq => ?_
    exact (h.records _ r hr).not_inBackupDir (heq ▸ hb)
  · split
    · exact List.filter_sublist
    · exact List.Sublist.refl _

theorem write (h : Inv normalizePath s) {path : Path} (content : Option Content)
    (hpath : ¬ InBackupDir s.manager.config path) :
    Inv normalizePath (s.step normalizePath (.write path content)) := by
  refine h.shrink rfl h.records (fun b hb => .inl ?_) (List.Sublist.refl _)
  have hne : b ≠ path := fun heq => hpath (heq ▸ hb)
  exact Function.update_of_ne hne ..

theorem crash (h : Inv normalizePath s) : Inv normalizePath (s.step normalizePath .crash) :=
  h.shrink rfl (fun _ _ hr => absurd hr (by simp)) (fun _ _ => .inl rfl) (List.Sublist.refl _)

theorem crashInBackup (h : Inv normalizePath s) {evt : PlanExecutingEvent}
    (hstart : Startable normalizePath s evt) (io : BackupIo) (copied : Content) :
    Inv normalizePath (s.step normalizePath (.crashInBackup io evt copied)) := by
  have hconfig : s.forget.manager.config = s.manager.config := rfl
  refine h.backup hstart hconfig (fun p r hr => ?_) io (some copied)
  cases hr

/-! ### Recovery -/

/-- A backup on disk that recovery attributes to a pending path was made from it. -/
theorem own_backup (h : Inv normalizePath s) {io : RecoveryIo} {scanDirs : List Path}
    {pending : List PendingOperation} (hpending : ∀ op ∈ pending, op ∈ s.pending)
    {o : OrphanedBackup}
    (ho : o ∈ (collectBackups normalizePath io scanDirs (globalDir s.manager.config) pending).1)
    (hdisk : s.disk o.backupPath ≠ none) : s.madeFrom o.backupPath = some o.originalPath := by
  have hsibling : ∀ o : OrphanedBackup, o ∈ findOrphansUnder normalizePath io.readDir scanDirs →
      s.disk o.backupPath ≠ none → s.madeFrom o.backupPath = some o.originalPath := by
    intro o ho hdisk
    obtain ⟨hdir, hext, hinfer⟩ := findOrphansUnder_sound ho
    obtain ⟨p, id, now, hmade, hordinary, hpath⟩ := h.made _ hdisk (.inl hdir)
    obtain ⟨dir, name, rfl, hnorm, -, hvbak, -, ⟨-, heq⟩ | ⟨g, -, heq⟩⟩ :=
      hordinary.backupPathFor_cases id now
    · rw [hpath, heq, inferOriginalPath_sibling, hnorm] at hinfer
      rw [hmade, hinfer]
    · rw [hpath, heq] at hext
      exact absurd (vbak_of_global hext) hvbak
  simp only [collectBackups] at ho
  cases hglobal : globalDir s.manager.config with
  | none =>
    rw [hglobal] at ho
    exact hsibling o ho hdisk
  | some g =>
    rw [hglobal] at ho
    rcases List.mem_append.mp ho with ho | ho
    · exact hsibling o ho hdisk
    · obtain ⟨name, -, filename, hparse, hone, hpath⟩ := mem_collectGlobalBackups.mp ho
      have hdir : InBackupDir s.manager.config o.backupPath := .inr ⟨g, name, hglobal, hpath⟩
      obtain ⟨p, id, now, hmade, hordinary, hbackup⟩ := h.made _ hdisk hdir
      obtain ⟨dir, original, rfl, -, hne, -, -, ⟨hnone, -⟩ | ⟨g', hg', heq⟩⟩ :=
        hordinary.backupPathFor_cases id now
      · rw [hglobal] at hnone
        cases hnone
      · have hname := congrArg Path.fileName (hpath.symm.trans (hbackup.trans heq))
        rw [Path.fileName_join, Path.fileName_join, Option.some.injEq] at hname
        rw [hname, globalBackupName_uuidText id hne, Option.some.injEq] at hparse
        have hmem : o.originalPath ∈ pendingByFilename pending filename := by
          rw [hone]
          exact List.mem_singleton_self _
        obtain ⟨op, hop, hfilename, horiginal⟩ := mem_pendingByFilename.mp hmem
        have hsame : op.filePath.fileName = (dir.join original).fileName := by
          rw [hfilename, Path.fileName_join, hparse]
        rw [hmade, ← horiginal, h.names (by simp [hglobal]) _ _ hdisk hmade op (hpending op hop) hsame]

/-- The backups of a pending path under a scanned directory are found, unless the path is
ambiguous. -/
theorem backup_found (h : Inv normalizePath s) {io : RecoveryIo} {scanDirs : List Path}
    (hreadable : Readable s io scanDirs) {pending : List PendingOperation}
    {op : PendingOperation} (hop : op ∈ pending) (hmem : op ∈ s.pending)
    (hunder : isUnderAny op.filePath (scanDirs.filterMap io.canonicalize) = true) {b : Path}
    (hmade : s.madeFrom b = some op.filePath) (hdisk : s.disk b ≠ none) :
    (∃ o ∈ (collectBackups normalizePath io scanDirs (globalDir s.manager.config) pending).1,
        o.originalPath = op.filePath) ∨
      op.filePath ∈
        (collectBackups normalizePath io scanDirs (globalDir s.manager.config) pending).2 := by
  obtain ⟨p, id, now, hp, hordinary, hpath⟩ := h.made b hdisk (h.placed b _ hmade)
  obtain rfl := Option.some.inj (hp.symm.trans hmade)
  obtain ⟨dir, name, hsplit, hnorm, hne, -, hdir, ⟨hglobal, heq⟩ | ⟨g, hglobal, heq⟩⟩ :=
    hordinary.backupPathFor_cases id now
  · left
    obtain ⟨root', hroot', hstarts⟩ := List.any_eq_true.mp hunder
    obtain ⟨root, hroot, hcanonical⟩ := List.mem_filterMap.mp hroot'
    obtain rfl := hreadable.canonical root hroot root' hcanonical
    have hbelow : root'.components <+: dir.components := by
      have hprefix := Path.startsWith_iff.mp hstarts
      rw [hsplit] at hprefix
      rcases List.prefix_concat_iff.mp hprefix with hself | hprefix
      · refine absurd ?_ (hreadable.noFile root' hroot op hmem)
        rw [hsplit, Path.join, ← hself]
      · exact hprefix
    obtain ⟨between, hbetween⟩ := hbelow
    have hb : b = ⟨root'.components ++ between ++ [".voom-backup",
        String.ofList (name.toList ++ '.' :: now.render ++ ".vbak".toList)]⟩ := by
      rw [hpath, heq, hbetween]
      simp [Path.join]
    have hlisted : b ∈ (io.readDir root').paths root' := by
      refine hreadable.listed root' hroot b hdisk (Path.startsWith_iff.mpr ?_)
      rw [hb, List.append_assoc]
      exact List.prefix_append ..
    refine ⟨⟨b, op.filePath⟩, ?_, rfl⟩
    simp only [collectBackups, hglobal]
    refine List.mem_flatMap.mpr ⟨root', hroot, ?_⟩
    refine collectOrphansIn_complete hb (fun c hc => hdir c ?_) ?_ ?_ hlisted
    · rw [← hbetween]
      exact List.mem_append_right _ hc
    · dsimp only
      rw [hpath, heq]
      exact extension_join_vbak _ (by simp)
    · dsimp only
      rw [hpath, heq, inferOriginalPath_sibling, hnorm, hsplit]
  · have hfile : s.disk (g.join (String.ofList (uuidText id ++ '_' :: name.toList))) ≠ none := by
      rw [← heq, ← hpath]
      exact hdisk
    have hlisted := hreadable.globalListed g hglobal _ hfile
    have hparse := globalBackupName_uuidText id hne
    have hmatch : op.filePath ∈ pendingByFilename pending name := by
      refine mem_pendingByFilename.mpr ⟨op, hop, ?_, rfl⟩
      rw [hsplit, Path.fileName_join]
    simp only [collectBackups, hglobal]
    by_cases hmany : 1 < (pendingByFilename pending name).length
    · exact .inr (mem_ambiguous.mpr ⟨_, hlisted, name, hparse, hmany, hmatch⟩)
    · -- the only match is the path itself
      have hone : pendingByFilename pending name = [op.filePath] := by
        have hpos := List.length_pos_of_mem hmatch
        obtain ⟨x, hx⟩ := List.length_eq_one_iff.mp (by omega :
          (pendingByFilename pending name).length = 1)
        rw [hx] at hmatch ⊢
        rw [List.mem_singleton.mp hmatch]
      refine .inl ⟨⟨g.join (String.ofList (uuidText id ++ '_' :: name.toList)), op.filePath⟩,
        List.mem_append_right _ ?_, rfl⟩
      exact mem_collectGlobalBackups.mpr ⟨_, hlisted, name, hparse, hone, rfl⟩

/-- Every backup that recovery collects lies where backups lie. -/
theorem inBackupDir_of_collected {config : BackupConfig} {io : RecoveryIo} {scanDirs : List Path}
    {pending : List PendingOperation} {o : OrphanedBackup}
    (ho : o ∈ (collectBackups normalizePath io scanDirs (globalDir config) pending).1) :
    InBackupDir config o.backupPath := by
  simp only [collectBackups] at ho
  cases hglobal : globalDir config with
  | none =>
    rw [hglobal] at ho
    exact .inl (findOrphansUnder_sound ho).1
  | some g =>
    rw [hglobal] at ho
    rcases List.mem_append.mp ho with ho | ho
    · exact .inl (findOrphansUnder_sound ho).1
    · obtain ⟨name, -, -, -, -, hpath⟩ := mem_collectGlobalBackups.mp ho
      exact .inr ⟨g, name, hglobal, hpath⟩

/-- The two outcomes of a recovery. -/
theorem recovered_cases (h : Inv normalizePath s) {io : RecoveryIo} {scanDirs : List Path}
    (hreadable : Readable s io scanDirs) :
    ∃ pending : List PendingOperation, (∀ op ∈ pending, op ∈ s.pending) ∧
      ∃ orphans : List OrphanedBackup,
        (∀ o, o ∈ orphans ↔
          o ∈ (collectBackups normalizePath io scanDirs (globalDir s.manager.config) pending).1 ∧
            ∃ op ∈ pending, op.filePath = o.originalPath) ∧
        (Progress (InBackupDir s.manager.config) orphans { disk := s.disk, pending := s.pending }
            (s.recovered normalizePath io scanDirs) ∨
          (orphans = [] ∧ (s.recovered normalizePath io scanDirs).disk = s.disk ∧
            (s.recovered normalizePath io scanDirs).restored = [] ∧
            (s.recovered normalizePath io scanDirs).pending.Sublist s.pending ∧
            ∀ op ∈ s.pending, op ∉ (s.recovered normalizePath io scanDirs).pending →
              op ∈ pending ∧ op.filePath ∉ (collectBackups normalizePath io scanDirs
                (globalDir s.manager.config) pending).2 ∧
              isUnderAny op.filePath (scanDirs.filterMap io.canonicalize) = true)) := by
  let pending := if io.listPendingOps then listPendingOps s.pending else []
  have hpending : ∀ op ∈ pending, op ∈ s.pending := by
    intro op hop
    simp only [pending] at hop
    split at hop
    · exact List.mem_mergeSort.mp hop
    · cases hop
  let collected := collectBackups normalizePath io scanDirs (globalDir s.manager.config) pending
  let orphans := collected.1.filter fun b => pending.any fun op => op.filePath = b.originalPath
  have horphans : ∀ o, o ∈ orphans ↔ o ∈ collected.1 ∧
      ∃ op ∈ pending, op.filePath = o.originalPath := by
    intro o
    simp only [orphans, List.mem_filter, List.any_eq_true, decide_eq_true_eq]
  have hplaces : ∀ o ∈ orphans, InBackupDir s.manager.config o.backupPath ∧
      ¬ InBackupDir s.manager.config o.originalPath := by
    intro o ho
    obtain ⟨hcollected, op, hop, hpath⟩ := (horphans o).mp ho
    refine ⟨inBackupDir_of_collected hcollected, ?_⟩
    rw [← hpath]
    exact (h.ordinary op (hpending op hop)).not_inBackupDir
  refine ⟨pending, hpending, orphans, horphans, ?_⟩
  have hcases := checkAndRecoverUnder_cases io hreadable.whole scanDirs (globalDir s.manager.config)
    { disk := s.disk, pending := s.pending } h.ids rfl rfl rfl rfl hplaces rfl
  rcases hcases with ⟨-, hprogress⟩ | hclean
  · exact .inl hprogress
  · exact .inr hclean

theorem recover (h : Inv normalizePath s) {io : RecoveryIo} {scanDirs : List Path}
    (hreadable : Readable s io scanDirs) :
    Inv normalizePath (s.step normalizePath (.recover io scanDirs)) := by
  obtain ⟨pending, -, orphans, -, hprogress | ⟨-, hdisk, -, hsub, -⟩⟩ :=
    h.recovered_cases hreadable
  · refine h.shrink rfl h.records (fun b hb => ?_) hprogress.pending
    rcases hprogress.backups b hb with hsame | ⟨hgone, -⟩
    · exact .inl hsame
    · exact .inr hgone
  · exact h.shrink rfl h.records (fun b _ => .inl (congrFun hdisk b)) hsub

/-- Orderly steps keep the invariant. -/
theorem step (h : Inv normalizePath s) {act : Act} (hact : Orderly normalizePath s act) :
    Inv normalizePath (s.step normalizePath act) := by
  cases act with
  | executing io evt now stored => exact h.executing hact.1 io now stored hact.2
  | completed io evt stored => exact h.completed io evt stored
  | failed io evt stored => exact h.failed io evt stored
  | write path content => exact h.write content hact
  | crash => exact h.crash
  | crashInBackup io evt copied => exact h.crashInBackup hact io copied
  | recover io scanDirs => exact h.recover hact

/-- Restoring orphans restores to each pending path what it held. -/
theorem right_of_progress (h : Inv normalizePath s) {io : RecoveryIo} {scanDirs : List Path}
    {pending : List PendingOperation} (hpending : ∀ op ∈ pending, op ∈ s.pending)
    {orphans : List OrphanedBackup} {st : RecoveryState}
    (horphans : ∀ o, o ∈ orphans ↔
      o ∈ (collectBackups normalizePath io scanDirs (globalDir s.manager.config) pending).1 ∧
        ∃ op ∈ pending, op.filePath = o.originalPath)
    (hprogress : Progress (InBackupDir s.manager.config) orphans
      { disk := s.disk, pending := s.pending } st) : RecoversRight s st := by
  have hrestored : ∀ r ∈ st.restored, s.madeFrom r.1 = some r.2 ∧ s.disk r.1 ≠ none ∧
      ∃ op ∈ s.pending, op.filePath = r.2 := by
    intro r hr
    obtain ⟨o, ho, rfl, hdisk⟩ := hprogress.restored r hr
    obtain ⟨hcollected, op, hop, hpath⟩ := (horphans o).mp ho
    exact ⟨h.own_backup hpending hcollected hdisk, hdisk, op, hpending op hop, hpath⟩
  refine ⟨fun r hr => (hrestored r hr).2.2, fun r hr => (hrestored r hr).1, ?_, ?_, ?_⟩
  · intro r hr op hop hpath
    have hplace : ¬ InBackupDir s.manager.config r.2 := by
      rw [← hpath]
      exact (h.ordinary op hop).not_inBackupDir
    -- the last restore to the path, made from a backup of it as every other
    rcases hprogress.files r.2 hplace with ⟨-, hnone⟩ | ⟨r', hr', heq, hdisk⟩
    · exact absurd rfl (hnone r hr)
    · obtain ⟨hmade, hsome, -⟩ := hrestored r' hr'
      rw [heq, ← hpath] at hmade
      rw [hdisk]
      exact ⟨h.origins r'.1 hsome op hop hmade, hsome⟩
  · intro q hq
    by_cases hplace : InBackupDir s.manager.config q
    · rcases hprogress.backups q hplace with hsame | ⟨-, r, hr, heq⟩
      · exact absurd hsame hq
      · exact ⟨r, hr, .inl heq.symm⟩
    · rcases hprogress.files q hplace with ⟨hsame, -⟩ | ⟨r, hr, heq, -⟩
      · exact absurd hsame hq
      · exact ⟨r, hr, .inr heq.symm⟩
  · exact fun op hop hn => .inl (hprogress.removed op hop hn)

theorem right (h : Inv normalizePath s) {act : Act} (hact : Orderly normalizePath s act) :
    Right normalizePath s act := by
  cases act with
  | recover io scanDirs =>
    obtain ⟨pending, hpending, orphans, horphans, hprogress | ⟨hnone, hdisk, hres, -, hremoved⟩⟩ :=
      h.recovered_cases hact
    · exact h.right_of_progress hpending horphans hprogress
    · have hempty : ∀ r, r ∉ (s.recovered normalizePath io scanDirs).restored := by
        simp [hres]
      refine ⟨fun r hr => absurd hr (hempty r), fun r hr => absurd hr (hempty r),
        fun r hr => absurd hr (hempty r), fun q hq => absurd (congrFun hdisk q) hq,
        fun op hop hn => .inr fun b hmade => ?_⟩
      -- a backup of the path would have been found, and the path be an orphan's
      by_contra hb
      obtain ⟨hlisted, hclear, hunder⟩ := hremoved op hop hn
      rcases h.backup_found hact hlisted hop hunder hmade hb with ⟨o, ho, hpath⟩ | hambiguous
      · have horphan := (horphans o).mpr ⟨ho, op, hlisted, hpath.symm⟩
        rw [hnone] at horphan
        cases horphan
      · exact hclear hambiguous
  | executing io evt now stored | completed io evt stored | failed io evt stored
  | write path content | crash | crashInBackup io evt copied => trivial

end Inv

/-! ## Whole histories -/

/-- No plan has run yet and nothing lies where backups lie. -/
structure Clean (s : Machine) : Prop where
  records : ∀ p, s.manager.records p = none
  pending : s.pending = []
  madeFrom : ∀ b, s.madeFrom b = none
  noBackup : ∀ b, InBackupDir s.manager.config b → s.disk b = none

theorem Clean.inv {s : Machine} (h : Clean s) : Inv normalizePath s where
  records p r hr := by
    rw [h.records p] at hr
    cases hr
  ids := by
    rw [h.pending]
    exact List.nodup_nil
  ordinary op hop := by
    rw [h.pending] at hop
    cases hop
  placed b p hmade := by
    rw [h.madeFrom b] at hmade
    cases hmade
  made b hdisk hdir := absurd (h.noBackup b hdir) hdisk
  origins b _ op hop := by
    rw [h.pending] at hop
    cases hop
  names _ b p _ _ op hop := by
    rw [h.pending] at hop
    cases hop

/-- In an orderly history every recovery restores the right bytes to the right paths. -/
theorem recovery_restores_right_bytes {s : Machine} (hclean : Clean s) {acts : List Act}
    (horderly : Along (Machine.step normalizePath) (Orderly normalizePath) s acts) :
    Along (Machine.step normalizePath) (Right normalizePath) s acts := by
  refine Along.of_invariant (fun s act hinv hact => ?_) (fun s act hinv hact => ?_)
    (hclean.inv normalizePath) horderly
  · exact hinv.step hact
  · exact hinv.right hact

end

/-! ## Two histories of one file -/

/-- Every operation succeeds; the second decides the backup's name. -/
def steadyIo (second : Fin 10) : BackupIo where
  symlinkMetadata _ := .ok false
  metadata _ := .ok 1
  availableSpace _ := .ok (2 ^ 40)
  createDirAll _ := .ok ()
  copy _ _ := .ok ()
  removeFile _ := .ok ()
  uploadRemote _ := .ok ⟨true⟩
  sha256 _ := .ok ""
  appendInventory _ := .ok ()
  uniqueId := second
  timestamp := ⟨List.replicate 13 0 ++ [second], rfl⟩
  now := second

def media : Path := ⟨["media"]⟩
def movie : Path := media.join "movie.mkv"

/-- One film and no backups. -/
def library : Machine where
  manager := { config := {}, records := fun _ => none }
  disk := fun p => if p = movie then some [1] else none

/-- `/media` with the film and its backups of the given seconds. -/
def mediaListing (seconds : List (Fin 10)) : Listing :=
  .file "movie.mkv" (.dir ".voom-backup"
    (seconds.foldr (fun second rest => .file
      (String.ofList ("movie.mkv.0000000000000".toList ++
        Char.ofNat ('0'.toNat + second.val) :: ".vbak".toList)) rest) .done) .done)

def recoveryIo (seconds : List (Fin 10)) : RecoveryIo where
  listPendingOps := true
  readDir _ := mediaListing seconds
  canonicalize p := some p
  copy _ _ := .ok ()
  removeFile _ := .ok ()
  deletePendingOp _ := true

/-- A crash after the executor wrote half a file. -/
def interrupted : List Act :=
  [.executing (steadyIo 1) ⟨1, movie, "normalize", 1⟩ 1 true, .write movie (some [9]), .crash,
    .recover (recoveryIo [1]) [media]]

/-- A phase fails and is rolled back, which leaves its backup; the user replaces the film;
a later phase crashes. -/
def interruptedAfterFailure : List Act :=
  [.executing (steadyIo 1) ⟨1, movie, "normalize", 1⟩ 1 true, .write movie (some [9]),
    .failed (steadyIo 1) { planId := 1, path := movie, phaseName := "normalize", error := "exit 1" }
      true,
    .write movie (some [2]),
    .executing (steadyIo 2) ⟨2, movie, "normalize", 1⟩ 2 true, .write movie (some [8]), .crash]

theorem movie_ordinary (config : BackupConfig) (h : globalDir config = none) :
    Ordinary id config movie := by
  refine ⟨media, "movie.mkv", rfl, rfl, by decide, by decide, by decide, by decide, ?_⟩
  rw [h]
  exact Option.some_ne_none _ ∘ Eq.symm

theorem library_clean : Clean library where
  records _ := rfl
  pending := rfl
  madeFrom _ := rfl
  noBackup b hdir := by
    have hne : b ≠ movie := by
      rintro rfl
      exact (movie_ordinary {} rfl).not_inBackupDir hdir
    simp [library, hne]

theorem interrupted_orderly :
    Along (Machine.step id) (Orderly id) library interrupted := by
  refine ⟨?_, ?_, trivial, ?_, trivial⟩
  · -- the film is alone in the library
    refine ⟨⟨movie_ordinary {} rfl, fun b hb => ?_, by simp [library], by simp [library],
      by simp [library]⟩, fun _ e hcopy => by cases hcopy⟩
    obtain rfl : b = movie := by
      by_contra hne
      simp [library, hne] at hb
    rintro (⟨hdir, -⟩ | ⟨g, -, -, hg, -⟩)
    · exact (movie_ordinary {} rfl).not_inBackupDir (.inl hdir)
    · cases hg
  · exact (movie_ordinary {} rfl).not_inBackupDir
  · have hdisk : ((interrupted.take 3).foldl (Machine.step id) library).disk =
        Function.update (Function.update library.disk
          (backupPathFor {} movie 1 (steadyIo 1).timestamp) (some [1])) movie (some [9]) := rfl
    have hfiles : ∀ q, ((interrupted.take 3).foldl (Machine.step id) library).disk q ≠ none →
        q = movie ∨ q = backupPathFor {} movie 1 (steadyIo 1).timestamp := by
      intro q hq
      by_contra! hne
      rw [hdisk, Function.update_of_ne hne.1, Function.update_of_ne hne.2] at hq
      simp [library, hne.1] at hq
    refine ⟨fun dir _ dir' hcanonical => ?_, ?_, ?_, fun g hg => ?_,
      fun _ _ _ hcopy => by cases hcopy⟩
    · exact (Option.some.inj hcanonical).symm
    · decide
    · rintro dir hdir q hq -
      obtain rfl := List.mem_singleton.mp hdir
      rcases hfiles q hq with rfl | rfl <;> decide
    · cases hg

/-- The film is restored after the crash. -/
theorem interrupted_recovers :
    Along (Machine.step id) (Orderly id) library interrupted ∧
      Along (Machine.step id) (Right id) library interrupted ∧
      (interrupted.foldl (Machine.step id) library).disk movie = some [1] :=
  ⟨interrupted_orderly,
    recovery_restores_right_bytes id library_clean interrupted_orderly,
    by decide +kernel⟩

/-- The two backups of the film that the failed and the crashed phase left are both taken for
the crashed one's, and the older is applied last. -/
theorem recovery_restores_leftover_backup :
    Clean library ∧ ¬ Along (Machine.step id) (Right id) library
      (interruptedAfterFailure ++ [.recover (recoveryIo [2, 1]) [media]]) := by
  refine ⟨library_clean, fun hright => ?_⟩
  let crashed := interruptedAfterFailure.foldl (Machine.step id) library
  have hlast : RecoversRight crashed (crashed.recovered id (recoveryIo [2, 1]) [media]) :=
    hright.last
  have hrestored : (backupPathFor {} movie 1 (steadyIo 1).timestamp, movie) ∈
      (crashed.recovered id (recoveryIo [2, 1]) [media]).restored := by decide +kernel
  have hpending : ⟨2, movie, "normalize", 2⟩ ∈ crashed.pending := by decide
  have hcontent := (hlast.content _ hrestored _ hpending rfl).1
  have hfirst : (crashed.recovered id (recoveryIo [2, 1]) [media]).disk movie = some [1] := by
    decide +kernel
  have horigin : crashed.origin 2 = some [2] := by decide
  rw [hfirst, horigin] at hcontent
  cases hcontent

end Voom.Recovery
