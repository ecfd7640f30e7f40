-- SUMMARY: Crash recovery: resolving orphaned backups and removing stale pending operations.
import Voom.Lib.Table
import Voom.Recovery.Orphans

/-!
# Recovery

`check_and_recover_under` over the disk and the pending operations. The answers of
the file system and the store are collected in `RecoveryIo`; every restore that is
made is noted, so that what recovery wrote where can be stated.
-/

namespace Voom.Recovery

open BackupManager

inductive RecoveryMode where
  | alwaysRecover | alwaysDiscard
  deriving DecidableEq, Repr

structure RecoveryIo where
  /-- Whether `list_pending_ops` succeeds. -/
  listPendingOps : Bool
  readDir : Path → Listing
  canonicalize : Path → Option Path
  copy : Path → Path → Except String Unit
  /-- What a failing copy leaves in its target. -/
  copyLeaves : Path → Path → Option Content := fun _ _ => none
  removeFile : Path → Except String Unit
  /-- Whether `delete_pending_op` succeeds. -/
  deletePendingOp : Uuid → Bool

structure RecoveryState where
  disk : Disk
  pending : List PendingOperation
  /-- The restores made: the backup and the path it was copied to. -/
  restored : List (Path × Path) := []

/-! ## Pending operations -/

/-- `insert_pending_op`: replaces an operation with the same id. -/
def insertPendingOp (op : PendingOperation) (pending : List PendingOperation) :
    List PendingOperation :=
  Lib.Table.delete PendingOperation.id op.id pending ++ [op]

/-- `delete_pending_op`. -/
def deletePendingOp (id : Uuid) (pending : List PendingOperation) : List PendingOperation :=
  Lib.Table.delete PendingOperation.id id pending

/-- `list_pending_ops`, oldest first. -/
def listPendingOps (pending : List PendingOperation) : List PendingOperation :=
  pending.mergeSort fun a b => a.startedAt ≤ b.startedAt

def tryDeletePendingOp (io : RecoveryIo) (st : RecoveryState) (op : PendingOperation) :
    RecoveryState :=
  if io.deletePendingOp op.id then { st with pending := deletePendingOp op.id st.pending } else st

/-! ## Resolving -/

/-- `recover`: copy the backup to the original path, then remove it. Whether both
went through is what the caller learns. -/
def recover (io : RecoveryIo) (orphan : OrphanedBackup) (st : RecoveryState) :
    RecoveryState × Bool :=
  match st.disk orphan.backupPath, io.copy orphan.backupPath orphan.originalPath with
  | none, _ => (st, false)
  | some _, .error _ =>
    let left := io.copyLeaves orphan.backupPath orphan.originalPath
    ({ st with disk := st.disk.copyFailed orphan.originalPath left }, false)
  | some _, .ok () =>
    let st := { st with disk := st.disk.copy orphan.backupPath orphan.originalPath
                        restored := st.restored ++ [(orphan.backupPath, orphan.originalPath)] }
    match io.removeFile orphan.backupPath with
    | .error _ => (st, false)
    | .ok () => ({ st with disk := st.disk.remove orphan.backupPath }, true)

/-- `discard`. -/
def discard (io : RecoveryIo) (orphan : OrphanedBackup) (st : RecoveryState) :
    RecoveryState × Bool :=
  match st.disk orphan.backupPath, io.removeFile orphan.backupPath with
  | none, _ | some _, .error _ => (st, false)
  | some _, .ok () => ({ st with disk := st.disk.remove orphan.backupPath }, true)

/-- `resolve_single_orphan`. -/
def resolveSingleOrphan (io : RecoveryIo) (mode : RecoveryMode) (pending : List PendingOperation)
    (orphan : OrphanedBackup) (st : RecoveryState) : RecoveryState × Bool :=
  let (st, resolved) :=
    match mode with
    | .alwaysRecover => recover io orphan st
    | .alwaysDiscard => discard io orphan st
  if resolved then
    ((pending.filter fun op => op.filePath = orphan.originalPath).foldl (tryDeletePendingOp io) st,
      true)
  else (st, false)

/-- The loop over the orphans; counts those that were resolved. -/
def resolveOrphans (io : RecoveryIo) (mode : RecoveryMode) (pending : List PendingOperation) :
    List OrphanedBackup → RecoveryState → RecoveryState × Nat
  | [], st => (st, 0)
  | orphan :: rest, st =>
    let (st, resolved) := resolveSingleOrphan io mode pending orphan st
    let (st, n) := resolveOrphans io mode pending rest st
    (st, if resolved then n + 1 else n)

/-- `clean_stale_pending_ops`. -/
def cleanStalePendingOps (io : RecoveryIo) (pending : List PendingOperation) (scanDirs : List Path)
    (ambiguousPaths : List Path) (st : RecoveryState) : RecoveryState :=
  let canonicalDirs := scanDirs.filterMap io.canonicalize
  (pending.filter fun op =>
    !ambiguousPaths.contains op.filePath && isUnderAny op.filePath canonicalDirs).foldl
      (tryDeletePendingOp io) st

section
variable (normalizePath : Path → Path)

/-- All backups found under the scanned directories and in the global one, and the
paths whose global backups are ambiguous. -/
def collectBackups (io : RecoveryIo) (scanDirs : List Path) (globalBackupDir : Option Path)
    (pending : List PendingOperation) : List OrphanedBackup × List Path :=
  let siblings := findOrphansUnder normalizePath io.readDir scanDirs
  match globalBackupDir with
  | none => (siblings, [])
  | some dir =>
    let (globals, ambiguous) := collectGlobalBackups dir pending (io.readDir dir).fileNames
    (siblings ++ globals, ambiguous)

/-- `check_and_recover_under`, with the number of files it resolved. -/
def checkAndRecoverUnder (io : RecoveryIo) (mode : RecoveryMode) (scanDirs : List Path)
    (globalBackupDir : Option Path) (st : RecoveryState) : RecoveryState × Nat :=
  let pending := if io.listPendingOps then listPendingOps st.pending else []
  let (backups, ambiguous) := collectBackups normalizePath io scanDirs globalBackupDir pending
  let orphans := backups.filter fun b => pending.any fun op => op.filePath = b.originalPath
  if orphans = [] then (cleanStalePendingOps io pending scanDirs ambiguous st, 0)
  else resolveOrphans io mode pending orphans st

end

/-! ## What recovery does -/

/-- How far recovery got from `st₀`, when it restores only the given orphans and backups
lie where `B` holds. -/
structure Progress (B : Path → Prop) (orphans : List OrphanedBackup) (st₀ st : RecoveryState) :
    Prop where
  backups : ∀ q, B q → st.disk q = st₀.disk q ∨ (st.disk q = none ∧ ∃ r ∈ st.restored, r.1 = q)
  restored : ∀ r ∈ st.restored, ∃ o ∈ orphans, r = (o.backupPath, o.originalPath) ∧
    st₀.disk o.backupPath ≠ none
  files : ∀ q, ¬ B q →
    (st.disk q = st₀.disk q ∧ ∀ r ∈ st.restored, r.2 ≠ q) ∨
      ∃ r ∈ st.restored, r.2 = q ∧ st.disk q = st₀.disk r.1
  pending : st.pending.Sublist st₀.pending
  removed : ∀ op ∈ st₀.pending, op ∉ st.pending → ∃ r ∈ st.restored, r.2 = op.filePath

theorem foldl_tryDeletePendingOp (io : RecoveryIo) (ops : List PendingOperation)
    (st : RecoveryState) :
    (ops.foldl (tryDeletePendingOp io) st).disk = st.disk ∧
      (ops.foldl (tryDeletePendingOp io) st).restored = st.restored ∧
      (ops.foldl (tryDeletePendingOp io) st).pending.Sublist st.pending ∧
      ∀ op ∈ st.pending, op ∉ (ops.foldl (tryDeletePendingOp io) st).pending →
        ∃ x ∈ ops, x.id = op.id := by
  induction ops generalizing st with
  | nil => exact ⟨rfl, rfl, List.Sublist.refl _, fun _ h hn => absurd h hn⟩
  | cons x ops ih =>
    obtain ⟨hdisk, hrestored, hsub, hremoved⟩ := ih (tryDeletePendingOp io st x)
    have hstep : (tryDeletePendingOp io st x).disk = st.disk ∧
        (tryDeletePendingOp io st x).restored = st.restored ∧
        (tryDeletePendingOp io st x).pending.Sublist st.pending ∧
        ∀ op ∈ st.pending, op ∉ (tryDeletePendingOp io st x).pending → x.id = op.id := by
      unfold tryDeletePendingOp
      split
      · refine ⟨rfl, rfl, List.filter_sublist, fun op hop hn => ?_⟩
        by_contra hne
        exact hn (Lib.Table.mem_delete.mpr ⟨hop, fun h => hne h.symm⟩)
      · exact ⟨rfl, rfl, List.Sublist.refl _, fun _ h hn => absurd h hn⟩
    refine ⟨hdisk.trans hstep.1, hrestored.trans hstep.2.1, hsub.trans hstep.2.2.1,
      fun op hop hn => ?_⟩
    by_cases hmem : op ∈ (tryDeletePendingOp io st x).pending
    · obtain ⟨y, hy, hid⟩ := hremoved op hmem hn
      exact ⟨y, List.mem_cons_of_mem _ hy, hid⟩
    · exact ⟨x, List.mem_cons_self .., hstep.2.2.2 op hop hmem⟩

section
variable {B : Path → Prop} {orphans : List OrphanedBackup} {st₀ st : RecoveryState}

theorem Progress.start (h : st₀.restored = []) : Progress B orphans st₀ st₀ where
  backups _ _ := .inl rfl
  restored r hr := by
    rw [h] at hr
    cases hr
  files q _ := by
    refine .inl ⟨rfl, fun r hr => ?_⟩
    rw [h] at hr
    cases hr
  pending := List.Sublist.refl _
  removed _ hop hn := absurd hop hn

/-- Copying a backup to a path where no backups lie. -/
theorem Progress.restore (h : Progress B orphans st₀ st) {o : OrphanedBackup} (ho : o ∈ orphans)
    (hb : B o.backupPath) (hp : ¬ B o.originalPath) (hsome : st.disk o.backupPath ≠ none) :
    Progress B orphans st₀
      { st with disk := st.disk.copy o.backupPath o.originalPath
                restored := st.restored ++ [(o.backupPath, o.originalPath)] } := by
  have hsame : st.disk o.backupPath = st₀.disk o.backupPath :=
    (h.backups _ hb).resolve_right fun hgone => hsome hgone.1
  refine ⟨fun q hq => ?_, fun r hr => ?_, fun q hq => ?_, h.pending, fun op hop hn => ?_⟩ <;>
    dsimp only at *
  · have hne : q ≠ o.originalPath := fun heq => hp (heq ▸ hq)
    rw [Disk.copy_of_ne hne]
    rcases h.backups q hq with hdisk | ⟨hgone, x, hx, hxq⟩
    · exact .inl hdisk
    · exact .inr ⟨hgone, x, List.mem_append_left _ hx, hxq⟩
  · rcases List.mem_append.mp hr with hr | hr
    · exact h.restored r hr
    · exact ⟨o, ho, List.mem_singleton.mp hr, hsame ▸ hsome⟩
  · by_cases heq : q = o.originalPath
    · refine .inr ⟨_, List.mem_append_right _ (List.mem_singleton_self _), heq.symm, ?_⟩
      rw [heq, Disk.copy_dst, hsame]
    · rw [Disk.copy_of_ne heq]
      rcases h.files q hq with ⟨hdisk, hnone⟩ | ⟨r, hr, hrq, hdisk⟩
      · refine .inl ⟨hdisk, fun r hr => ?_⟩
        rcases List.mem_append.mp hr with hr | hr
        · exact hnone r hr
        · rw [List.mem_singleton.mp hr]
          exact fun h => heq h.symm
      · exact .inr ⟨r, List.mem_append_left _ hr, hrq, hdisk⟩
  · obtain ⟨r, hr, hrp⟩ := h.removed op hop hn
    exact ⟨r, List.mem_append_left _ hr, hrp⟩

theorem Progress.remove (h : Progress B orphans st₀ st) {b : Path} (hb : B b)
    (hrestored : ∃ r ∈ st.restored, r.1 = b) :
    Progress B orphans st₀ { st with disk := st.disk.remove b } := by
  refine ⟨fun q hq => ?_, h.restored, fun q hq => ?_, h.pending, h.removed⟩ <;> dsimp only
  · by_cases heq : q = b
    · rw [heq]
      exact .inr ⟨Disk.remove_same _ _, hrestored⟩
    · rw [Disk.remove_of_ne heq]
      exact h.backups q hq
  · have hne : q ≠ b := fun heq => hq (heq ▸ hb)
    rw [Disk.remove_of_ne hne]
    exact h.files q hq

/-- Deleting pending operations whose path was restored. -/
theorem Progress.delete (h : Progress B orphans st₀ st)
    (hkeyed : Lib.Table.Keyed PendingOperation.id st₀.pending) (io : RecoveryIo)
    {ops : List PendingOperation}
    (hops : ∀ op ∈ ops, op ∈ st₀.pending ∧ ∃ r ∈ st.restored, r.2 = op.filePath) :
    Progress B orphans st₀ (ops.foldl (tryDeletePendingOp io) st) := by
  obtain ⟨hdisk, hrestored, hsub, hremoved⟩ := foldl_tryDeletePendingOp io ops st
  refine ⟨?_, ?_, ?_, hsub.trans h.pending, fun op hop hn => ?_⟩
  · rw [hdisk, hrestored]
    exact h.backups
  · rw [hrestored]
    exact h.restored
  · rw [hdisk, hrestored]
    exact h.files
  · rw [hrestored]
    by_cases hmem : op ∈ st.pending
    · obtain ⟨x, hx, hid⟩ := hremoved op hmem hn
      obtain ⟨hxmem, hxr⟩ := hops x hx
      exact hkeyed.eq_of_key hxmem hop hid ▸ hxr
    · exact h.removed op hop hmem

theorem Progress.recover (h : Progress B orphans st₀ st) (io : RecoveryIo)
    (hwhole : ∀ src dst e, io.copy src dst = .error e → io.copyLeaves src dst = none)
    {o : OrphanedBackup} (ho : o ∈ orphans) (hb : B o.backupPath) (hp : ¬ B o.originalPath) :
    Progress B orphans st₀ (recover io o st).1 ∧
      ((recover io o st).2 = true → ∃ r ∈ (recover io o st).1.restored, r.2 = o.originalPath) := by
  unfold Recovery.recover
  split
  · exact ⟨h, fun hfalse => absurd hfalse Bool.false_ne_true⟩
  · rename_i hcopy
    rw [hwhole _ _ _ hcopy]
    exact ⟨h, fun hfalse => absurd hfalse Bool.false_ne_true⟩
  · rename_i hsome _
    have hrestore := h.restore ho hb hp (by simp [hsome])
    dsimp only
    split
    · exact ⟨hrestore, fun hfalse => absurd hfalse Bool.false_ne_true⟩
    · have hmem : (o.backupPath, o.originalPath) ∈
          st.restored ++ [(o.backupPath, o.originalPath)] :=
        List.mem_append_right _ (List.mem_singleton_self _)
      exact ⟨hrestore.remove hb ⟨_, hmem, rfl⟩, fun _ => ⟨_, hmem, rfl⟩⟩

theorem Progress.resolve (h : Progress B orphans st₀ st)
    (hkeyed : Lib.Table.Keyed PendingOperation.id st₀.pending) (io : RecoveryIo)
    (hwhole : ∀ src dst e, io.copy src dst = .error e → io.copyLeaves src dst = none)
    {pending : List PendingOperation} (hpending : ∀ op ∈ pending, op ∈ st₀.pending)
    {o : OrphanedBackup} (ho : o ∈ orphans) (hb : B o.backupPath) (hp : ¬ B o.originalPath) :
    Progress B orphans st₀ (resolveSingleOrphan io .alwaysRecover pending o st).1 := by
  obtain ⟨hrecover, hresolved⟩ := h.recover io hwhole ho hb hp
  simp only [resolveSingleOrphan]
  split
  · rename_i hok
    refine hrecover.delete hkeyed io fun op hop => ?_
    obtain ⟨hop, hpath⟩ := List.mem_filter.mp hop
    rw [of_decide_eq_true hpath]
    exact ⟨hpending op hop, hresolved hok⟩
  · exact hrecover

theorem Progress.resolveAll (hkeyed : Lib.Table.Keyed PendingOperation.id st₀.pending)
    (io : RecoveryIo)
    (hwhole : ∀ src dst e, io.copy src dst = .error e → io.copyLeaves src dst = none)
    {pending : List PendingOperation} (hpending : ∀ op ∈ pending, op ∈ st₀.pending)
    (horphans : ∀ o ∈ orphans, B o.backupPath ∧ ¬ B o.originalPath) {rest : List OrphanedBackup}
    (hrest : ∀ o ∈ rest, o ∈ orphans) (h : Progress B orphans st₀ st) :
    Progress B orphans st₀ (resolveOrphans io .alwaysRecover pending rest st).1 := by
  induction rest generalizing st with
  | nil => exact h
  | cons o rest ih =>
    rw [List.forall_mem_cons] at hrest
    obtain ⟨hb, hp⟩ := horphans o hrest.1
    exact ih hrest.2 (h.resolve hkeyed io hwhole hpending hrest.1 hb hp)

end

/-- With orphans recovery resolves them, and without it only removes pending operations
under the scanned directories that are not ambiguous. -/
theorem checkAndRecoverUnder_cases {normalizePath : Path → Path} {B : Path → Prop}
    (io : RecoveryIo)
    (hwhole : ∀ src dst e, io.copy src dst = .error e → io.copyLeaves src dst = none)
    (scanDirs : List Path) (globalBackupDir : Option Path) (st : RecoveryState)
    (hkeyed : Lib.Table.Keyed PendingOperation.id st.pending) (hrestored : st.restored = [])
    {pending : List PendingOperation}
    (hpending : pending = if io.listPendingOps then listPendingOps st.pending else [])
    {backups : List OrphanedBackup} {ambiguous : List Path}
    (hcollect : collectBackups normalizePath io scanDirs globalBackupDir pending =
      (backups, ambiguous))
    {orphans : List OrphanedBackup}
    (horphans : orphans = backups.filter fun b => pending.any fun op => op.filePath = b.originalPath)
    (hB : ∀ o ∈ orphans, B o.backupPath ∧ ¬ B o.originalPath) {st' : RecoveryState}
    (hst' : st' =
      (checkAndRecoverUnder normalizePath io .alwaysRecover scanDirs globalBackupDir st).1) :
    (orphans ≠ [] ∧ Progress B orphans st st') ∨
      (orphans = [] ∧ st'.disk = st.disk ∧ st'.restored = [] ∧ st'.pending.Sublist st.pending ∧
        ∀ op ∈ st.pending, op ∉ st'.pending → op ∈ pending ∧ op.filePath ∉ ambiguous ∧
          isUnderAny op.filePath (scanDirs.filterMap io.canonicalize) = true) := by
  have hmem : ∀ op ∈ pending, op ∈ st.pending := by
    intro op hop
    rw [hpending] at hop
    split at hop
    · exact List.mem_mergeSort.mp hop
    · cases hop
  simp only [checkAndRecoverUnder, ← hpending, hcollect, ← horphans] at hst'
  split at hst'
  · rename_i hnone
    obtain ⟨hdisk, hres, hsub, hremoved⟩ := foldl_tryDeletePendingOp io
      (pending.filter fun op => !ambiguous.contains op.filePath &&
        isUnderAny op.filePath (scanDirs.filterMap io.canonicalize)) st
    rw [hst']
    refine .inr ⟨hnone, hdisk, hres.trans hrestored, hsub, fun op hop hn => ?_⟩
    obtain ⟨x, hx, hid⟩ := hremoved op hop hn
    obtain ⟨hx, hcond⟩ := List.mem_filter.mp hx
    obtain rfl := hkeyed.eq_of_key (hmem x hx) hop hid
    simp only [Bool.and_eq_true, Bool.not_eq_true', List.contains_eq_mem,
      decide_eq_false_iff_not] at hcond
    exact ⟨hx, hcond⟩
  · rename_i hsome
    rw [hst']
    exact .inl ⟨hsome, Progress.resolveAll hkeyed io hwhole hmem hB (fun _ ho => ho)
      (Progress.start hrestored)⟩

/-- Nothing is restored but the paths of the given orphans. -/
theorem resolveOrphans_restored (io : RecoveryIo) (mode : RecoveryMode)
    (pending : List PendingOperation) (orphans : List OrphanedBackup) (st : RecoveryState) :
    ∀ r ∈ (resolveOrphans io mode pending orphans st).1.restored,
      r ∈ st.restored ∨ ∃ o ∈ orphans, o.originalPath = r.2 := by
  induction orphans generalizing st with
  | nil => exact fun r hr => .inl hr
  | cons orphan rest ih =>
    have hstep : ∀ r ∈ (resolveSingleOrphan io mode pending orphan st).1.restored,
        r ∈ st.restored ∨ orphan.originalPath = r.2 := by
      have hrecover : ∀ r ∈ (recover io orphan st).1.restored,
          r ∈ st.restored ∨ orphan.originalPath = r.2 := by
        intro r hr
        unfold recover at hr
        split at hr
        · exact .inl hr
        · exact .inl hr
        · have hr : r ∈ st.restored ++ [(orphan.backupPath, orphan.originalPath)] := by
            dsimp only at hr
            split at hr <;> exact hr
          rcases List.mem_append.mp hr with hr | hr
          · exact .inl hr
          · exact .inr (by rw [List.mem_singleton.mp hr])
      have hdiscard : (discard io orphan st).1.restored = st.restored := by
        unfold discard
        split <;> rfl
      intro r hr
      unfold resolveSingleOrphan at hr
      cases mode with
      | alwaysRecover =>
        dsimp only at hr
        split at hr
        · rw [(foldl_tryDeletePendingOp io _ _).2.1] at hr
          exact hrecover r hr
        · exact hrecover r hr
      | alwaysDiscard =>
        dsimp only at hr
        split at hr
        · rw [(foldl_tryDeletePendingOp io _ _).2.1, hdiscard] at hr
          exact .inl hr
        · exact .inl (hdiscard ▸ hr)
    intro r hr
    rcases ih _ r hr with hr | ⟨o, ho, hpath⟩
    · rcases hstep r hr with hr | hpath
      · exact .inl hr
      · exact .inr ⟨orphan, List.mem_cons_self, hpath⟩
    · exact .inr ⟨o, List.mem_cons_of_mem _ ho, hpath⟩

/-- Recovery restores only the paths of pending operations. -/
theorem checkAndRecoverUnder_restored (normalizePath : Path → Path) (io : RecoveryIo)
    (mode : RecoveryMode) (scanDirs : List Path) (globalBackupDir : Option Path)
    {st : RecoveryState} (hst : st.restored = []) :
    ∀ r ∈ (checkAndRecoverUnder normalizePath io mode scanDirs globalBackupDir st).1.restored,
      ∃ op ∈ st.pending, op.filePath = r.2 := by
  intro r hr
  simp only [checkAndRecoverUnder] at hr
  generalize hpending : (if io.listPendingOps then listPendingOps st.pending else []) = pending
    at hr
  have hmem : ∀ op ∈ pending, op ∈ st.pending := by
    intro op hop
    rw [← hpending] at hop
    split at hop
    · exact List.mem_mergeSort.mp hop
    · cases hop
  split at hr
  · rw [cleanStalePendingOps, (foldl_tryDeletePendingOp io _ _).2.1, hst] at hr
    cases hr
  · rcases resolveOrphans_restored io mode _ _ st r hr with hr | ⟨o, ho, hpath⟩
    · rw [hst] at hr
      cases hr
    · obtain ⟨op, hop, hfile⟩ := List.any_eq_true.mp (List.mem_filter.mp ho).2
      exact ⟨op, hmem op hop, (of_decide_eq_true hfile).trans hpath⟩

end Voom.Recovery
