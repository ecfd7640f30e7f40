-- SUMMARY: When the integrity report of the database is that of the in-memory store.
import Voom.Storage.FileRoundTrip
import Voom.Storage.Verification

/-!
# The integrity report

Both stores judge a file by its records. The database compares the texts of the
times, looks for a changed hash among the hash checks of any file, and takes a
missing hash for no difference; the in-memory store compares the times, and
looks at active files whose latest record is a hash check. `Agree` says what
remains: the reports are the same exactly when the files on which the two
differ cancel out.
-/

namespace Voom.Storage

open Voom.Lib Voom.Lib.Sql Voom.Rfc3339 Voom.Storage.Schema Voom.Storage.Sqlite

/-! ## Libraries -/

/-- Files and the records of their verifications, as both stores are given them. -/
structure VerifiedLibrary (env : FileEnv) where
  files : List MediaFile
  records : List VerificationRecord
  files_keyed : Table.Keyed MediaFile.id files
  paths_distinct : (files.map (·.path.display)).Nodup
  records_keyed : Table.Keyed VerificationRecord.id records
  records_known : ∀ r ∈ records, ∃ file ∈ files, r.fileId = env.uuid file.id
  times_distinct : ∀ r ∈ records, ∀ r' ∈ records, r.fileId = r'.fileId →
    r.verifiedAt = r'.verifiedAt → r = r'

namespace VerifiedLibrary

variable {env : FileEnv} (lib : VerifiedLibrary env)

def toMemory : InMemoryStore := ⟨lib.files, lib.records⟩

def rowOf (env : FileEnv) (now : Time) (file : MediaFile) : Row :=
  fileRow env.toUpsertEnv (env.uuid file.id) file now

def toDb (now : Time) : VerificationDb :=
  ⟨lib.files.map (rowOf env now), lib.records.map (verificationRow env)⟩

/-! ## Judgements -/

def history (file : MediaFile) : List VerificationRecord :=
  lib.records.filter (·.fileId = env.uuid file.id)

def hashHistory (file : MediaFile) : List VerificationRecord :=
  (lib.history file).filter (·.mode = .hash)

section

variable {κ : Type} [LinearOrder κ] (key : DateTime → κ)

/-- The record with the greatest time, as `key` compares them. -/
def latestBy (records : List VerificationRecord) : Option VerificationRecord :=
  Window.maxBy (fun r => key r.verifiedAt) records

def previousBy (records : List VerificationRecord) (r : VerificationRecord) :
    Option VerificationRecord :=
  Window.previousBy (fun r => key r.verifiedAt) records r

def staleBy (since : DateTime) (file : MediaFile) : Bool :=
  (latestBy key (lib.history file)).any fun r => key r.verifiedAt < key since

/-- Never verified, or stale. -/
def dueBy (since : DateTime) (file : MediaFile) : Bool :=
  (latestBy key (lib.history file)).all fun r => key r.verifiedAt < key since

def outcomeBy (outcome : VerificationOutcome) (file : MediaFile) : Bool :=
  (latestBy key (lib.history file)).any (·.outcome = outcome)

/-- The last two hash checks have hashes, and different ones. -/
def hashesChangedBy (file : MediaFile) : Bool :=
  (latestBy key (lib.hashHistory file)).any fun r =>
    (previousBy key (lib.hashHistory file) r).any fun p =>
      VerificationDb.hashesDiffer p.contentHash r.contentHash

end

def neverVerified (file : MediaFile) : Bool := (lib.history file).isEmpty

/-- The latest record is a hash check, and the hash check before it says something else. -/
def latestHashChanged (file : MediaFile) : Bool :=
  (latestBy id (lib.history file)).any fun r =>
    r.mode = .hash && (previousBy id (lib.hashHistory file) r).any (·.contentHash ≠ r.contentHash)

def isActive (file : MediaFile) : Bool := file.status = .active

/-! ## Keys -/

section

variable {lib}

theorem mem_history {file : MediaFile} {r : VerificationRecord} :
    r ∈ lib.history file ↔ r ∈ lib.records ∧ r.fileId = env.uuid file.id := by
  simp [history, List.mem_filter]

theorem records_nodup (lib : VerifiedLibrary env) : lib.records.Nodup :=
  List.Nodup.of_map _ lib.records_keyed

/-- Keys that tell times apart tell the records of a file apart. -/
theorem history_keyed {κ : Type} {key : DateTime → κ} (hkey : Function.Injective key)
    (file : MediaFile) : Table.Keyed (fun r => key r.verifiedAt) (lib.history file) := by
  refine List.Nodup.map_on (fun r hr r' hr' heq => ?_) (lib.records_nodup.filter _)
  obtain ⟨hr, hfile⟩ := mem_history.mp hr
  obtain ⟨hr', hfile'⟩ := mem_history.mp hr'
  exact lib.times_distinct r hr r' hr' (hfile.trans hfile'.symm) (hkey heq)

theorem hashHistory_keyed {κ : Type} {key : DateTime → κ} (hkey : Function.Injective key)
    (file : MediaFile) : Table.Keyed (fun r => key r.verifiedAt) (lib.hashHistory file) :=
  List.Nodup.sublist (List.filter_sublist.map _) (history_keyed hkey file)

theorem formatIso_injective : Function.Injective formatIso := fun _ _ => formatIso_inj

theorem uuid_injective (henv : env.Faithful) : Function.Injective env.uuid := by
  intro u v h
  have := henv.uuid u
  rw [h, henv.uuid v] at this
  exact (Except.ok.inj this).symm

/-- Different files have different histories. -/
theorem file_eq_of_uuid (henv : env.Faithful) {file file' : MediaFile} (hfile : file ∈ lib.files)
    (hfile' : file' ∈ lib.files) (h : env.uuid file.id = env.uuid file'.id) : file = file' :=
  lib.files_keyed.eq_of_key hfile hfile' (uuid_injective henv h)

end

/-! ## Rows -/

section

variable {now : Time} {file : MediaFile}

@[simp] theorem rowOf_id : rowOf env now file "id" = .text (env.uuid file.id) := rfl

@[simp] theorem rowOf_status : rowOf env now file "status" = .text file.status.asStr := rfl

@[simp] theorem rowOf_path : rowOf env now file "path" = .text file.path.display := rfl

theorem isActive_rowOf : VerificationDb.isActive (rowOf env now file) = isActive file := by
  unfold VerificationDb.isActive isActive
  rw [rowOf_status]
  cases file.status <;> rfl

theorem isOf_rowOf (r : VerificationRecord) :
    VerificationDb.isOf (rowOf env now file) (verificationRow env r) =
      decide (r.fileId = env.uuid file.id) := by
  unfold VerificationDb.isOf
  rw [rowOf_id]
  simp [verificationRow, eq_comm]

end

/-! ## The queries of the database -/

section

variable {lib} {now : Time} {file : MediaFile}

theorem lastAt_rowOf : (lib.toDb now).lastAt (rowOf env now file) =
    (latestBy formatIso (lib.history file)).map fun r => formatIso r.verifiedAt := by
  unfold VerificationDb.lastAt latestBy
  rw [← Window.max?_map_key]
  congr 1
  show ((lib.records.map _).filter _).map _ = _
  rw [List.filter_map, List.map_map]
  congr 1
  exact List.filter_congr fun r _ => isOf_rowOf r

theorem isNone_lastAt : ((lib.toDb now).lastAt (rowOf env now file)).isNone =
    lib.neverVerified file := by
  rw [lastAt_rowOf]
  unfold neverVerified latestBy
  cases hhistory : lib.history file <;> simp [Window.maxBy]

theorem any_lastAt (since : DateTime) :
    ((lib.toDb now).lastAt (rowOf env now file)).any (· < formatIso since) =
      lib.staleBy formatIso since file := by
  rw [lastAt_rowOf, Option.any_map]
  unfold staleBy
  congr 1
  exact funext fun _ => decide_eq_decide.mpr Iff.rfl

theorem all_lastAt (since : DateTime) :
    ((lib.toDb now).lastAt (rowOf env now file)).all (· < formatIso since) =
      lib.dueBy formatIso since file := by
  rw [lastAt_rowOf, Option.all_map]
  unfold dueBy
  congr 1
  exact funext fun _ => decide_eq_decide.mpr Iff.rfl

/-- A count over the rows of the files is one over the files. -/
theorem length_filter_rows {p : Row → Bool} {q : MediaFile → Bool}
    (h : ∀ file, p (rowOf env now file) = q file) :
    (((lib.toDb now).files.filter VerificationDb.isActive).filter p).length =
      ((lib.files.filter isActive).filter q).length := by
  show (((lib.files.map _).filter _).filter _).length = _
  rw [List.filter_map, List.filter_map, List.length_map]
  have hactive : VerificationDb.isActive ∘ rowOf env now = isActive :=
    funext fun _ => isActive_rowOf
  have hp : p ∘ rowOf env now = q := funext h
  rw [hactive, hp]

theorem integrityFileAggregates_eq (since : DateTime) :
    (lib.toDb now).integrityFileAggregates (formatIso since) =
      ((lib.files.filter isActive).length,
        ((lib.files.filter isActive).filter lib.neverVerified).length,
        ((lib.files.filter isActive).filter (lib.staleBy formatIso since)).length) := by
  have htotal : ((lib.toDb now).files.filter VerificationDb.isActive).length =
      (lib.files.filter isActive).length := by
    have hall : (((lib.toDb now).files.filter VerificationDb.isActive).filter fun _ => true).length =
        ((lib.files.filter isActive).filter fun _ => true).length :=
      length_filter_rows fun _ => rfl
    simpa using hall
  refine Prod.ext htotal (Prod.ext ?_ ?_)
  · exact length_filter_rows fun _ => isNone_lastAt
  · exact length_filter_rows fun _ => any_lastAt since

theorem verificationRow_injOn (henv : env.Faithful) {r r' : VerificationRecord}
    (hr : r ∈ lib.records) (hr' : r' ∈ lib.records)
    (h : verificationRow env r = verificationRow env r') : r = r' :=
  lib.records_keyed.eq_of_key hr hr' (uuid_injective henv (congrArg VerificationRow.id h))

/-- The rows of one file, among rows that are selected by their file. -/
theorem partition_eq {p : VerificationRow → Bool} {q : VerificationRecord → Bool}
    (h : ∀ r ∈ lib.history file, p (verificationRow env r) = q r) :
    ((lib.toDb now).verifications.filter p).filter (·.fileId = env.uuid file.id) =
      ((lib.history file).filter q).map (verificationRow env) := by
  show ((lib.records.map _).filter _).filter _ = _
  rw [List.filter_map, List.filter_map]
  unfold history
  rw [List.filter_filter, List.filter_filter]
  congr 1
  refine List.filter_congr fun r hr => ?_
  simp only [Function.comp_apply]
  by_cases hfile : r.fileId = env.uuid file.id
  · rw [h r (mem_history.mpr ⟨hr, hfile⟩), Bool.and_comm]
    rfl
  · simp [hfile]

/-- The row of the last time comes first, whatever else the order looks at. -/
theorem rowNumber_eq_one_iff {κ : Type} [LinearOrder κ] {key : VerificationRow → κ}
    (hkey : ∀ v w, key v ≤ key w → v.verifiedAt ≤ w.verifiedAt)
    {records : List VerificationRecord}
    (hkeyed : Table.Keyed (fun r => formatIso r.verifiedAt) records)
    (hrows : ∀ r ∈ records, ∀ r' ∈ records, key (verificationRow env r) =
      key (verificationRow env r') → r = r')
    {r : VerificationRecord} (hr : r ∈ records) :
    Window.rowNumber (OrderDual.toDual ∘ key) (records.map (verificationRow env))
      (verificationRow env r) = 1 ↔ latestBy formatIso records = some r := by
  have hnodup : records.Nodup := List.Nodup.of_map _ hkeyed
  have hkeyed' : Table.Keyed key (records.map (verificationRow env)) := by
    unfold Table.Keyed
    rw [List.map_map]
    exact List.Nodup.map_on hrows hnodup
  have hfiner : ∀ r r' : VerificationRecord,
      key (verificationRow env r) ≤ key (verificationRow env r') →
      formatIso r.verifiedAt ≤ formatIso r'.verifiedAt := fun r r' => hkey _ _
  unfold latestBy
  rw [Window.rowNumber_eq_one_iff hkeyed' (List.mem_map_of_mem hr), Window.isLatest_map hr,
    Window.maxBy_eq_some_iff hkeyed]
  exact Window.isLatest_iff_of_finer hkeyed hfiner

theorem outcome_asStr_inj {o o' : VerificationOutcome} : o.asStr = o'.asStr ↔ o = o' := by
  cases o <;> cases o' <;> decide

theorem mode_asStr_eq_hash {mode : VerificationMode} : mode.asStr = "hash" ↔ mode = .hash := by
  cases mode <;> decide

theorem latestBy_mem {κ : Type} [LinearOrder κ] {key : DateTime → κ}
    {records : List VerificationRecord} {r : VerificationRecord}
    (h : latestBy key records = some r) : r ∈ records :=
  (Window.isLatest_of_maxBy h).1

theorem joined_iff (r : VerificationRecord) :
    ((lib.toDb now).files.any fun f =>
      VerificationDb.isOf f (verificationRow env r) && VerificationDb.isActive f) = true ↔
    ∃ file ∈ lib.files.filter isActive, r.fileId = env.uuid file.id := by
  show ((lib.files.map _).any _) = true ↔ _
  simp only [List.any_map, List.any_eq_true, Function.comp_apply, isOf_rowOf, isActive_rowOf,
    Bool.and_eq_true, decide_eq_true_eq, List.mem_filter]
  exact ⟨fun ⟨file, hfile, heq, hactive⟩ => ⟨file, ⟨hfile, hactive⟩, heq⟩,
    fun ⟨file, ⟨hfile, hactive⟩, heq⟩ => ⟨file, hfile, heq, hactive⟩⟩

/-- The partition of an active file is its history. -/
theorem activeVerifications_of (hfile : file ∈ lib.files.filter isActive) :
    (lib.toDb now).activeVerifications.filter (·.fileId = env.uuid file.id) =
      (lib.history file).map (verificationRow env) := by
  unfold VerificationDb.activeVerifications
  rw [partition_eq (q := fun _ => true), List.filter_true]
  exact fun r hr => (joined_iff r).mpr ⟨file, hfile, (mem_history.mp hr).2⟩

/-- The rows that the outcome query counts are the latest of the active files. -/
theorem mem_latestVerifications (henv : env.Faithful) {v : VerificationRow} :
    v ∈ (lib.toDb now).latestVerifications ↔
      ∃ file ∈ lib.files.filter isActive, ∃ r, latestBy formatIso (lib.history file) = some r ∧
        v = verificationRow env r := by
  have hfirst : ∀ file ∈ lib.files.filter isActive, ∀ r ∈ lib.history file,
      Window.rowNumber (fun v => OrderDual.toDual (toLex (v.verifiedAt, v.id)))
        ((lib.toDb now).activeVerifications.filter (·.fileId = (verificationRow env r).fileId))
        (verificationRow env r) = 1 ↔ latestBy formatIso (lib.history file) = some r := by
    intro file hfile r hr
    have hid : (verificationRow env r).fileId = env.uuid file.id := (mem_history.mp hr).2
    rw [hid, activeVerifications_of hfile]
    apply rowNumber_eq_one_iff ?_ (history_keyed formatIso_injective file) ?_ hr
    · exact fun v w h => (Prod.Lex.toLex_le_toLex'.mp h).1
    · intro r hr r' hr' h
      have hrow := congrArg (fun k => (ofLex k).2) h
      exact lib.records_keyed.eq_of_key (mem_history.mp hr).1 (mem_history.mp hr').1
        (uuid_injective henv hrow)
  unfold VerificationDb.latestVerifications
  constructor
  · intro hv
    obtain ⟨hv, hnumber⟩ := List.mem_filter.mp hv
    obtain ⟨hv, hjoin⟩ := List.mem_filter.mp hv
    obtain ⟨r, hr, rfl⟩ := List.mem_map.mp hv
    obtain ⟨file, hfile, hid⟩ := (joined_iff r).mp hjoin
    have hlatest := (hfirst file hfile r (mem_history.mpr ⟨hr, hid⟩)).mp (by simpa using hnumber)
    exact ⟨file, hfile, r, hlatest, rfl⟩
  · rintro ⟨file, hfile, r, hlatest, rfl⟩
    have hr := latestBy_mem hlatest
    have hjoin := (@joined_iff _ _ now r).mpr ⟨file, hfile, (mem_history.mp hr).2⟩
    refine List.mem_filter.mpr ⟨List.mem_filter.mpr ⟨?_, hjoin⟩, ?_⟩
    · exact List.mem_map_of_mem (mem_history.mp hr).1
    · simpa using (hfirst file hfile r hr).mpr hlatest

theorem rows_nodup (henv : env.Faithful) : (lib.toDb now).verifications.Nodup :=
  List.Nodup.map_on (fun _ hr _ hr' h => verificationRow_injOn henv hr hr' h) lib.records_nodup

/-- Files by the texts of their identifiers. -/
theorem uuids_nodup (henv : env.Faithful) {files : List MediaFile} (h : files.Sublist lib.files) :
    (files.map fun file => env.uuid file.id).Nodup := by
  refine List.Nodup.map_on (fun file hfile file' hfile' heq => ?_)
    ((List.Nodup.of_map _ lib.files_keyed).sublist h)
  exact file_eq_of_uuid henv (h.subset hfile) (h.subset hfile') heq

/-- One row is counted for each of these files. -/
theorem length_eq_of_rows (henv : env.Faithful) {rows : List VerificationRow}
    {files : List MediaFile} (hfiles : files.Sublist lib.files) (hrows : rows.Nodup)
    {pick : MediaFile → Option VerificationRecord}
    (hpick : ∀ file r, pick file = some r → r ∈ lib.history file)
    {p : MediaFile → VerificationRecord → Bool}
    (h : ∀ v, v ∈ rows ↔ ∃ file ∈ files, ∃ r, pick file = some r ∧ p file r = true ∧
      v = verificationRow env r) :
    rows.length = (files.filter fun file => (pick file).any (p file)).length ∧
      (rows.map (·.fileId)).Nodup := by
  have hid : ∀ {file r}, pick file = some r → (verificationRow env r).fileId = env.uuid file.id :=
    fun h => (mem_history.mp (hpick _ _ h)).2
  have hnodup : (rows.map (·.fileId)).Nodup := by
    refine List.Nodup.map_on (fun v hv v' hv' heq => ?_) hrows
    obtain ⟨file, hfile, r, hr, -, rfl⟩ := (h v).mp hv
    obtain ⟨file', hfile', r', hr', -, rfl⟩ := (h v').mp hv'
    rw [hid hr, hid hr'] at heq
    obtain rfl := file_eq_of_uuid henv (hfiles.subset hfile) (hfiles.subset hfile') heq
    rw [Option.some.inj (hr.symm.trans hr')]
  refine ⟨Window.length_eq_of_map hnodup
    (uuids_nodup henv (List.filter_sublist.trans hfiles)) fun c => ?_, hnodup⟩
  rw [List.mem_map, List.mem_map]
  constructor
  · rintro ⟨v, hv, rfl⟩
    obtain ⟨file, hfile, r, hr, hp, rfl⟩ := (h v).mp hv
    exact ⟨file, List.mem_filter.mpr ⟨hfile, by rw [hr]; exact hp⟩, (hid hr).symm⟩
  · rintro ⟨file, hfile, rfl⟩
    obtain ⟨hfile, hany⟩ := List.mem_filter.mp hfile
    cases hr : pick file with
    | none => simp [hr] at hany
    | some r =>
      rw [hr] at hany
      exact ⟨_, (h _).mpr ⟨file, hfile, r, hr, hany, rfl⟩, hid hr⟩

theorem integrityOutcomeAggregates_eq (henv : env.Faithful) :
    (lib.toDb now).integrityOutcomeAggregates =
      (((lib.files.filter isActive).filter (lib.outcomeBy formatIso .error)).length,
        ((lib.files.filter isActive).filter (lib.outcomeBy formatIso .warning)).length) := by
  have hnodup : (lib.toDb now).latestVerifications.Nodup := ((rows_nodup henv).filter _).filter _
  have hcount : ∀ o : VerificationOutcome,
      ((lib.toDb now).latestVerifications.filter (·.outcome = o.asStr)).length =
        ((lib.files.filter isActive).filter (lib.outcomeBy formatIso o)).length := by
    intro o
    refine (@length_eq_of_rows _ _ henv _ _ List.filter_sublist (hnodup.filter _)
      (fun file => latestBy formatIso (lib.history file)) (fun _ _ h => latestBy_mem h)
      (fun _ r => r.outcome = o) fun v => ?_).1
    rw [List.mem_filter, mem_latestVerifications henv]
    constructor
    · rintro ⟨⟨file, hfile, r, hr, rfl⟩, ho⟩
      have hr' : r.outcome = o := outcome_asStr_inj.mp (by simpa using ho)
      exact ⟨file, hfile, r, hr, by simpa using hr', rfl⟩
    · rintro ⟨file, hfile, r, hr, ho, rfl⟩
      obtain rfl : r.outcome = o := by simpa using ho
      exact ⟨⟨file, hfile, r, hr, rfl⟩, by simp [verificationRow]⟩
  exact Prod.ext (hcount .error) (hcount .warning)

/-- `LAG` is the record before it. -/
theorem lag_rows {records : List VerificationRecord}
    (hkeyed : Table.Keyed (fun r => formatIso r.verifiedAt) records) {r : VerificationRecord}
    (hr : r ∈ records) :
    Window.lag (·.verifiedAt) (records.map (verificationRow env)) (verificationRow env r) =
      (previousBy formatIso records r).map (verificationRow env) := by
  have hkeyed' : Table.Keyed VerificationRow.verifiedAt (records.map (verificationRow env)) := by
    unfold Table.Keyed
    rw [List.map_map]
    exact hkeyed
  have hlag := fun w => Window.lag_eq_some_iff hkeyed' (p := w) (List.mem_map_of_mem hr)
  unfold previousBy
  cases hprevious : Window.previousBy (fun r => formatIso r.verifiedAt) records r with
  | some p =>
    have hp := (Window.previousBy_eq_some_iff hkeyed).mp hprevious
    exact (hlag _).mpr ((Window.isPrevious_map hp.1.1).mpr hp)
  | none =>
    rw [Option.map_none, Option.eq_none_iff_forall_ne_some]
    intro w hw
    have hw := (hlag w).mp hw
    obtain ⟨p, hp, rfl⟩ := List.mem_map.mp hw.1.1
    have hbefore : Window.IsPrevious (VerificationRow.verifiedAt ∘ verificationRow env) records r p :=
      (Window.isPrevious_map hp).mp hw
    rw [(Window.previousBy_eq_some_iff hkeyed).mpr hbefore] at hprevious
    cases hprevious

/-- The partition of a file is its hash checks. -/
theorem hashVerifications_of (file : MediaFile) :
    (lib.toDb now).hashVerifications.filter (·.fileId = env.uuid file.id) =
      (lib.hashHistory file).map (verificationRow env) := by
  unfold VerificationDb.hashVerifications hashHistory
  apply partition_eq
  exact fun r _ => decide_eq_decide.mpr mode_asStr_eq_hash

theorem mem_hashHistory {r : VerificationRecord} :
    r ∈ lib.hashHistory file ↔ r ∈ lib.history file ∧ r.mode = .hash := by
  simp [hashHistory, List.mem_filter]

theorem mem_changedHashes {v : VerificationRow} :
    v ∈ (lib.toDb now).changedHashes ↔
      ∃ file ∈ lib.files, ∃ r, latestBy formatIso (lib.hashHistory file) = some r ∧
        (previousBy formatIso (lib.hashHistory file) r).any (fun p =>
          VerificationDb.hashesDiffer p.contentHash r.contentHash) = true ∧
        v = verificationRow env r := by
  have hkeyed : ∀ file, Table.Keyed (fun r => formatIso r.verifiedAt) (lib.hashHistory file) :=
    hashHistory_keyed formatIso_injective
  -- Both windows are over the hash checks of the file.
  have hwindow : ∀ file, ∀ r ∈ lib.hashHistory file,
      (Window.rowNumber (fun v => OrderDual.toDual v.verifiedAt)
        ((lib.toDb now).hashVerifications.filter (·.fileId = (verificationRow env r).fileId))
        (verificationRow env r) = 1 ↔ latestBy formatIso (lib.hashHistory file) = some r) ∧
      (Window.lag (·.verifiedAt)
        ((lib.toDb now).hashVerifications.filter (·.fileId = (verificationRow env r).fileId))
        (verificationRow env r)).any (fun previous =>
          VerificationDb.hashesDiffer previous.contentHash (verificationRow env r).contentHash) =
      (previousBy formatIso (lib.hashHistory file) r).any fun p =>
        VerificationDb.hashesDiffer p.contentHash r.contentHash := by
    intro file r hr
    have hid : (verificationRow env r).fileId = env.uuid file.id :=
      (mem_history.mp (mem_hashHistory.mp hr).1).2
    rw [hid, hashVerifications_of, lag_rows (hkeyed file) hr, Option.any_map]
    refine ⟨?_, rfl⟩
    apply rowNumber_eq_one_iff (fun _ _ h => h) (hkeyed file) ?_ hr
    exact fun r hr r' hr' h => (hkeyed file).eq_of_key hr hr' h
  unfold VerificationDb.changedHashes
  dsimp only
  constructor
  · intro hv
    obtain ⟨hv, hchanged⟩ := List.mem_filter.mp hv
    obtain ⟨hv, hhash⟩ := List.mem_filter.mp hv
    obtain ⟨r, hr, rfl⟩ := List.mem_map.mp hv
    obtain ⟨file, hfile, hid⟩ := lib.records_known r hr
    have hmode : r.mode = .hash := mode_asStr_eq_hash.mp (by simpa using hhash)
    have hmem := mem_hashHistory.mpr ⟨mem_history.mpr ⟨hr, hid⟩, hmode⟩
    obtain ⟨hnumber, hdiffers⟩ := Bool.and_eq_true_iff.mp hchanged
    rw [(hwindow file r hmem).2] at hdiffers
    exact ⟨file, hfile, r, (hwindow file r hmem).1.mp (of_decide_eq_true hnumber), hdiffers, rfl⟩
  · rintro ⟨file, hfile, r, hlatest, hdiffers, rfl⟩
    have hmem := latestBy_mem hlatest
    obtain ⟨hhistory, hmode⟩ := mem_hashHistory.mp hmem
    refine List.mem_filter.mpr ⟨List.mem_filter.mpr ⟨?_, ?_⟩, Bool.and_eq_true_iff.mpr ⟨?_, ?_⟩⟩
    · exact List.mem_map_of_mem (mem_history.mp hhistory).1
    · exact decide_eq_true (mode_asStr_eq_hash.mpr hmode)
    · exact decide_eq_true ((hwindow file r hmem).1.mpr hlatest)
    · rw [(hwindow file r hmem).2]
      exact hdiffers

theorem integrityHashMismatches_eq (henv : env.Faithful) :
    (lib.toDb now).integrityHashMismatches =
      (lib.files.filter (lib.hashesChangedBy formatIso)).length := by
  have hnodup : (lib.toDb now).changedHashes.Nodup := ((rows_nodup henv).filter _).filter _
  obtain ⟨hlength, hfiles⟩ := length_eq_of_rows henv (List.Sublist.refl lib.files) hnodup
    (fun _ _ h => (mem_hashHistory.mp (latestBy_mem h)).1) fun _ => mem_changedHashes
  unfold VerificationDb.integrityHashMismatches
  rw [hfiles.dedup, List.length_map]
  exact hlength

end

/-! ## The loop of the in-memory store -/

section

variable {lib} {file : MediaFile}

/-- The identifier decides between no two records. -/
theorem latest_toMemory : lib.toMemory.latest env file = latestBy id (lib.history file) := by
  unfold InMemoryStore.latest latestBy
  exact Window.maxBy_eq_of_finer (history_keyed Function.injective_id file)
    fun _ _ h => (Prod.Lex.toLex_le_toLex'.mp h).1

theorem hashChangedForLatest_toMemory (r : VerificationRecord) :
    lib.toMemory.hashChangedForLatest (env.uuid file.id) r =
      (r.mode = .hash && (previousBy id (lib.hashHistory file) r).any
        (·.contentHash ≠ r.contentHash)) := by
  have hhashed : (lib.records.filter fun r => r.fileId = env.uuid file.id && r.mode = .hash) =
      lib.hashHistory file := by
    unfold hashHistory history
    rw [List.filter_filter]
    exact List.filter_congr fun r _ => Bool.and_comm _ _
  unfold InMemoryStore.hashChangedForLatest
  by_cases hmode : r.mode = .hash
  · simp only [hmode, ne_eq, not_true_eq_false, ↓reduceIte, decide_true, Bool.true_and]
    show (Window.maxBy _ (List.filter _ (lib.records.filter _))).any _ = _
    rw [hhashed]
    rfl
  · simp [hmode]

/-- One round adds the judgements of one file. -/
theorem tally_eq (since : DateTime) (s : IntegritySummary) :
    lib.toMemory.tally env since s file =
      { totalFiles := s.totalFiles
        neverVerified := s.neverVerified + (lib.neverVerified file).toNat
        stale := s.stale + (lib.staleBy id since file).toNat
        withErrors := s.withErrors + (lib.outcomeBy id .error file).toNat
        withWarnings := s.withWarnings + (lib.outcomeBy id .warning file).toNat
        hashMismatches := s.hashMismatches + (lib.latestHashChanged file).toNat } := by
  unfold InMemoryStore.tally
  rw [latest_toMemory]
  unfold staleBy outcomeBy latestHashChanged neverVerified
  cases hlatest : latestBy id (lib.history file) with
  | none =>
    have hempty : lib.history file = [] := Window.maxBy_eq_none.mp hlatest
    simp [hempty]
  | some r =>
    have hmem := latestBy_mem hlatest
    have hsome : (lib.history file).isEmpty = false := by
      cases hhistory : lib.history file with
      | nil =>
        rw [hhistory] at hmem
        cases hmem
      | cons _ _ => rfl
    simp only [hashChangedForLatest_toMemory, Option.any_some, hsome]
    generalize (decide (r.mode = .hash) && _) = changed
    by_cases hstale : r.verifiedAt < since
    · cases r.outcome <;> cases changed <;> simp [hstale]
    · cases r.outcome <;> cases changed <;> simp [hstale]

/-- The loop counts the files of each kind. -/
theorem foldl_tally (since : DateTime) (files : List MediaFile) (s : IntegritySummary) :
    files.foldl (lib.toMemory.tally env since) s =
      { totalFiles := s.totalFiles
        neverVerified := s.neverVerified + (files.filter lib.neverVerified).length
        stale := s.stale + (files.filter (lib.staleBy id since)).length
        withErrors := s.withErrors + (files.filter (lib.outcomeBy id .error)).length
        withWarnings := s.withWarnings + (files.filter (lib.outcomeBy id .warning)).length
        hashMismatches := s.hashMismatches + (files.filter lib.latestHashChanged).length } := by
  have hcons : ∀ (p : MediaFile → Bool) (file : MediaFile) (files : List MediaFile) (n : Nat),
      n + (p file).toNat + (files.filter p).length = n + ((file :: files).filter p).length := by
    intro p file files n
    cases hp : p file with
    | false => simp [hp]
    | true =>
      rw [List.filter_cons_of_pos hp, List.length_cons, Bool.toNat_true]
      omega
  induction files generalizing s with
  | nil => rfl
  | cons file files ih =>
    rw [List.foldl_cons, ih, tally_eq]
    simp only [hcons]

end

/-! ## Due files -/

section

variable {lib} {now : Time} {file : MediaFile}

/-- The bit rate is read as a signed number of 32 bits. -/
def Readable (file : MediaFile) : Prop := ∀ n ∈ file.bitrate, n < 2 ^ 31

/-- What a due file is read as, with the bit rate that was read. -/
def dueFile (file : MediaFile) (size : Int) (bitrate : Option Int) : MediaFile where
  id := file.id
  path := .ofText file.path.display
  size := size.toNat
  contentHash := (some (file.contentHash.getD "")).filter (· ≠ "")
  status := (parseStatus file.status.asStr).getD .active
  container := .fromExtension file.container.asStr
  duration := durationAsRead file.duration
  bitrate := (bitrate.filter (0 ≤ ·)).map Int.toNat
  introspectedAt := file.introspectedAt

theorem rowToDueFile_eq (henv : env.Faithful) :
    ∃ size, VerificationDb.rowToDueFile env ⟨VerificationDb.dueColumns, rowOf env now file⟩ =
      (asOption asI32 "bitrate" (Param.optional Param.nat file.bitrate)).map (dueFile file size) := by
  obtain ⟨size, hsize⟩ : ∃ size, Param.size file.size = .integer size := ⟨_, rfl⟩
  refine ⟨size, ?_⟩
  simp [VerificationDb.rowToDueFile, Selected.get, VerificationDb.dueColumns, rowOf, fileRow, row,
    List.lookup_cons, asString, hsize, asI64, asF64_some, henv.uuid, henv.datetime, Except.mapError, ok_bind]
  cases asOption asI32 "bitrate" (Param.optional Param.nat file.bitrate) with
  | error e => rfl
  | ok bitrate => simp [ok_bind, map_ok, dueFile, ← getD_filter_duration]

/-- The bit rate decides whether a row can be read. -/
theorem bitrate_readable :
    (Readable file → ∃ bitrate,
      asOption asI32 "bitrate" (Param.optional Param.nat file.bitrate) = .ok bitrate) ∧
    ∀ bitrate, asOption asI32 "bitrate" (Param.optional Param.nat file.bitrate) = .ok bitrate →
      Readable file := by
  unfold Readable
  cases file.bitrate with
  | none => exact ⟨fun _ => ⟨none, rfl⟩, fun _ _ => nofun⟩
  | some n =>
    simp only [Param.optional, Option.elim_some, asOption_some_nat, asI32_nat]
    refine ⟨fun hsmall => ?_, fun bitrate hread m hm => ?_⟩
    · rw [if_pos (hsmall n rfl)]
      exact ⟨_, rfl⟩
    · cases hm
      by_contra hbig
      rw [if_neg hbig] at hread
      cases hread

theorem rowToDueFile_ok (henv : env.Faithful) {m : MediaFile}
    (h : VerificationDb.rowToDueFile env ⟨VerificationDb.dueColumns, rowOf env now file⟩ = .ok m) :
    m.id = file.id ∧ Readable file := by
  obtain ⟨size, heq⟩ := @rowToDueFile_eq _ now file henv
  rw [heq] at h
  obtain ⟨bitrate, hread, rfl⟩ := map_eq_ok.mp h
  exact ⟨rfl, bitrate_readable.2 bitrate hread⟩

theorem rowToDueFile_of_readable (henv : env.Faithful) (h : Readable file) :
    ∃ m, VerificationDb.rowToDueFile env ⟨VerificationDb.dueColumns, rowOf env now file⟩ = .ok m := by
  obtain ⟨size, heq⟩ := @rowToDueFile_eq _ now file henv
  obtain ⟨bitrate, hread⟩ := bitrate_readable.1 h
  exact ⟨_, heq.trans (map_eq_ok.mpr ⟨bitrate, hread, rfl⟩)⟩

/-- The rows that the query for due files selects. -/
theorem dueRows_eq (since : DateTime) :
    ((lib.toDb now).files.filter fun f => VerificationDb.isActive f && f "path" ≠ .null &&
      ((lib.toDb now).lastAt f).all (· < formatIso since)) =
      ((lib.files.filter isActive).filter (lib.dueBy formatIso since)).map (rowOf env now) := by
  show (lib.files.map _).filter _ = _
  rw [List.filter_map, List.filter_filter]
  congr 1
  refine List.filter_congr fun file _ => ?_
  simp only [Function.comp_apply, isActive_rowOf, rowOf_path, all_lastAt]
  simp [Bool.and_comm]

/-- The rows of the due files are read one by one, in the order of their identifiers. -/
theorem listFilesDue_eq (since : DateTime) : ∃ due : List MediaFile,
    due.Perm ((lib.files.filter isActive).filter (lib.dueBy formatIso since)) ∧
      (lib.toDb now).listFilesDueForVerification env since =
        storageErr "failed to read files due for verification" (due.mapM fun file =>
          VerificationDb.rowToDueFile env ⟨VerificationDb.dueColumns, rowOf env now file⟩) := by
  unfold VerificationDb.listFilesDueForVerification
  dsimp only
  rw [dueRows_eq]
  generalize (lib.files.filter isActive).filter (lib.dueBy formatIso since) = due
  have hsort : (due.map (rowOf env now)).mergeSort VerificationDb.idLe =
      (due.mergeSort fun file file' =>
        VerificationDb.idLe (rowOf env now file) (rowOf env now file')).map (rowOf env now) := by
    refine (List.map_mergeSort (f := rowOf env now) fun file _ file' _ => ?_).symm
    exact Eq.refl (VerificationDb.idLe (rowOf env now file) (rowOf env now file'))
  rw [hsort, List.mapM_map]
  exact ⟨_, List.mergeSort_perm _ _, rfl⟩

theorem succeeds_listFilesDue (henv : env.Faithful) (since : DateTime) :
    Succeeds ((lib.toDb now).listFilesDueForVerification env since) ↔
      ∀ file ∈ (lib.files.filter isActive).filter (lib.dueBy formatIso since), Readable file := by
  obtain ⟨due, hperm, heq⟩ := @listFilesDue_eq _ lib now since
  unfold storageErr at heq
  rw [heq, Succeeds.mapError_iff, Succeeds.mapM_iff]
  constructor
  · intro h file hfile
    obtain ⟨m, hm⟩ := h file (hperm.mem_iff.mpr hfile)
    exact (rowToDueFile_ok henv hm).2
  · exact fun h file hfile => rowToDueFile_of_readable henv (h file (hperm.mem_iff.mp hfile))

theorem listFilesDue_ids (henv : env.Faithful) {since : DateTime} {due : List MediaFile}
    (h : (lib.toDb now).listFilesDueForVerification env since = .ok due) :
    (due.map (·.id)).Perm
      (((lib.files.filter isActive).filter (lib.dueBy formatIso since)).map (·.id)) := by
  obtain ⟨files, hperm, heq⟩ := @listFilesDue_eq _ lib now since
  unfold storageErr at heq
  rw [heq, mapError_eq_ok] at h
  have hids := mapM_follows h (g := fun file => (Except.ok file.id : Except RowError Uuid))
    (k := (·.id)) fun file _ m hm => congrArg Except.ok (rowToDueFile_ok henv hm).1.symm
  have hall : files.mapM (fun file => (Except.ok file.id : Except RowError Uuid)) =
      .ok (files.map (·.id)) := mapM_eq_ok_map fun _ _ => rfl
  rw [Except.ok.inj (hids.symm.trans hall)]
  exact hperm.map _

theorem listFilesDue_memory (since : DateTime) :
    (lib.toMemory.listFilesDueForVerification env since).Perm
      ((lib.files.filter isActive).filter (lib.dueBy id since)) := by
  unfold InMemoryStore.listFilesDueForVerification
  refine (List.mergeSort_perm _ _).trans ?_
  have hdue : (fun file => (lib.toMemory.latest env file).all (·.verifiedAt < since)) =
      lib.dueBy id since := by
    funext file
    rw [latest_toMemory]
    rfl
  rw [hdue]
  exact List.Perm.refl _

end

/-! ## The two reports -/

section

variable {lib} {now : Time} {since : DateTime}

theorem integritySummary_toDb (henv : env.Faithful) (since : DateTime) :
    (lib.toDb now).integritySummary since =
      { totalFiles := (lib.files.filter isActive).length
        neverVerified := ((lib.files.filter isActive).filter lib.neverVerified).length
        stale := ((lib.files.filter isActive).filter (lib.staleBy formatIso since)).length
        withErrors := ((lib.files.filter isActive).filter (lib.outcomeBy formatIso .error)).length
        withWarnings :=
          ((lib.files.filter isActive).filter (lib.outcomeBy formatIso .warning)).length
        hashMismatches := (lib.files.filter (lib.hashesChangedBy formatIso)).length } := by
  unfold VerificationDb.integritySummary
  rw [integrityFileAggregates_eq, integrityOutcomeAggregates_eq henv,
    integrityHashMismatches_eq henv]

theorem integritySummary_toMemory (since : DateTime) :
    lib.toMemory.integritySummary env since =
      { totalFiles := (lib.files.filter isActive).length
        neverVerified := ((lib.files.filter isActive).filter lib.neverVerified).length
        stale := ((lib.files.filter isActive).filter (lib.staleBy id since)).length
        withErrors := ((lib.files.filter isActive).filter (lib.outcomeBy id .error)).length
        withWarnings := ((lib.files.filter isActive).filter (lib.outcomeBy id .warning)).length
        hashMismatches := ((lib.files.filter isActive).filter lib.latestHashChanged).length } := by
  unfold InMemoryStore.integritySummary
  rw [foldl_tally]
  simp only [Nat.zero_add]
  rfl

/-- The summaries are equal, and so are the identifiers of the due files. -/
def ReportsEqual (lib : VerifiedLibrary env) (now : Time) (since : DateTime) : Prop :=
  (lib.toDb now).integritySummary since = lib.toMemory.integritySummary env since ∧
  ∃ due, (lib.toDb now).listFilesDueForVerification env since = .ok due ∧
    (due.map (·.id)).Perm ((lib.toMemory.listFilesDueForVerification env since).map (·.id))

/-- As many files have only the first property as have only the second. -/
def Balanced (files : List MediaFile) (p q : MediaFile → Bool) : Prop :=
  (files.filter fun file => p file && !q file).length =
    (files.filter fun file => q file && !p file).length

/-- What the two ways of judging a file must come to. -/
structure Agree (lib : VerifiedLibrary env) (since : DateTime) : Prop where
  /-- The latest text is before that of the cutoff where the latest time is before the cutoff. -/
  due : ∀ file ∈ lib.files.filter isActive,
    lib.dueBy formatIso since file = lib.dueBy id since file
  readable : ∀ file ∈ lib.files.filter isActive, lib.dueBy id since file = true → Readable file
  errors : Balanced (lib.files.filter isActive) (lib.outcomeBy formatIso .error)
    (lib.outcomeBy id .error)
  warnings : Balanced (lib.files.filter isActive) (lib.outcomeBy formatIso .warning)
    (lib.outcomeBy id .warning)
  hashes : Balanced lib.files (lib.hashesChangedBy formatIso) fun file =>
    isActive file && lib.latestHashChanged file

/-- A stale file is a due one with a record. -/
theorem staleBy_eq {κ : Type} [LinearOrder κ] (key : DateTime → κ) (file : MediaFile) :
    lib.staleBy key since file = (lib.dueBy key since file && !lib.neverVerified file) := by
  unfold staleBy dueBy neverVerified latestBy
  cases hhistory : lib.history file <;> simp [Window.maxBy]

/-- The due files are the same when each file is judged the same. -/
theorem due_perm_iff : (((lib.files.filter isActive).filter (lib.dueBy formatIso since)).map (·.id)).Perm
    (((lib.files.filter isActive).filter (lib.dueBy id since)).map (·.id)) ↔
    ∀ file ∈ lib.files.filter isActive,
      lib.dueBy formatIso since file = lib.dueBy id since file := by
  have hmem : ∀ (p : MediaFile → Bool), ∀ file ∈ lib.files.filter isActive,
      file.id ∈ ((lib.files.filter isActive).filter p).map (·.id) ↔ p file = true := by
    intro p file hfile
    have hkeyed : Table.Keyed MediaFile.id (lib.files.filter isActive) :=
      List.Nodup.sublist (List.filter_sublist.map _) lib.files_keyed
    exact hkeyed.mem_map_filter hfile
  constructor
  · intro hperm file hfile
    refine Bool.eq_iff_iff.mpr ?_
    rw [← hmem _ file hfile, ← hmem _ file hfile]
    exact hperm.mem_iff
  · intro h
    rw [List.filter_congr h]

/-- The reports are equal exactly when the judgements come to the same. -/
theorem reportsEqual_iff (henv : env.Faithful) : lib.ReportsEqual now since ↔ lib.Agree since := by
  have hfilter : ((lib.files.filter isActive).filter lib.latestHashChanged).length =
      (lib.files.filter fun file => isActive file && lib.latestHashChanged file).length := by
    rw [List.filter_filter]
    exact congrArg List.length (List.filter_congr fun _ _ => Bool.and_comm _ _)
  unfold ReportsEqual
  rw [integritySummary_toDb henv, integritySummary_toMemory, IntegritySummary.mk.injEq, hfilter]
  constructor
  · rintro ⟨⟨-, -, -, herrors, hwarnings, hhashes⟩, due, hok, hperm⟩
    have hdue := due_perm_iff.mp ((listFilesDue_ids henv hok).symm.trans
      (hperm.trans ((listFilesDue_memory since).map _)))
    have hreadable := (succeeds_listFilesDue henv since).mp ⟨due, hok⟩
    refine ⟨hdue, fun file hfile hlate => ?_, (Window.length_filter_eq_iff _ _ _).mp herrors,
      (Window.length_filter_eq_iff _ _ _).mp hwarnings,
      (Window.length_filter_eq_iff _ _ _).mp hhashes⟩
    exact hreadable file (List.mem_filter.mpr ⟨hfile, (hdue file hfile).trans hlate⟩)
  · intro h
    have hstale : ((lib.files.filter isActive).filter (lib.staleBy formatIso since)).length =
        ((lib.files.filter isActive).filter (lib.staleBy id since)).length := by
      refine congrArg List.length (List.filter_congr fun file hfile => ?_)
      rw [staleBy_eq, staleBy_eq, h.due file hfile]
    obtain ⟨due, hok⟩ := (@succeeds_listFilesDue _ _ now henv since).mpr fun file hfile => by
      obtain ⟨hfile, hlate⟩ := List.mem_filter.mp hfile
      exact h.readable file hfile ((h.due file hfile).symm.trans hlate)
    refine ⟨⟨rfl, rfl, hstale, (Window.length_filter_eq_iff _ _ _).mpr h.errors,
      (Window.length_filter_eq_iff _ _ _).mpr h.warnings,
      (Window.length_filter_eq_iff _ _ _).mpr h.hashes⟩, due, hok, ?_⟩
    exact (listFilesDue_ids henv hok).trans ((due_perm_iff.mpr h.due).trans
      ((listFilesDue_memory since).map _).symm)

/-! ## Years of four digits -/

/-- The years that stand in the texts without a sign. -/
def InYears (lib : VerifiedLibrary env) (since : DateTime) : Prop :=
  (0 ≤ since.year ∧ since.year ≤ 9999) ∧
    ∀ r ∈ lib.records, 0 ≤ r.verifiedAt.year ∧ r.verifiedAt.year ≤ 9999

/-- A hash mismatch for the database only. -/
def onlyDb (lib : VerifiedLibrary env) (file : MediaFile) : Bool :=
  lib.hashesChangedBy id file &&
    !(isActive file && (latestBy id (lib.history file)).any (·.mode = .hash))

/-- A hash mismatch for the in-memory store only: one of the two hashes is missing. -/
def onlyMemory (lib : VerifiedLibrary env) (file : MediaFile) : Bool :=
  isActive file && (latestBy id (lib.history file)).any fun r =>
    r.mode = .hash && (previousBy id (lib.hashHistory file) r).any fun p =>
      p.contentHash.isSome != r.contentHash.isSome

section Years

variable (hyears : lib.InYears since)

include hyears

theorem formatIso_le_iff_of_years {r r' : VerificationRecord} (hr : r ∈ lib.records)
    (hr' : r' ∈ lib.records) :
    formatIso r.verifiedAt ≤ formatIso r'.verifiedAt ↔ id r.verifiedAt ≤ id r'.verifiedAt := by
  rw [← not_lt, ← not_lt]
  exact not_congr (formatIso_lt_iff (hyears.2 r' hr') (hyears.2 r hr))

theorem latestBy_of_years {records : List VerificationRecord} (h : records ⊆ lib.records) :
    latestBy formatIso records = latestBy id records :=
  Window.maxBy_congr fun _ hr _ hr' => formatIso_le_iff_of_years hyears (h hr) (h hr')

theorem previousBy_of_years {records : List VerificationRecord} (h : records ⊆ lib.records)
    {r : VerificationRecord} (hr : r ∈ lib.records) :
    previousBy formatIso records r = previousBy id records r := by
  apply Window.previousBy_congr
  · exact fun p hp p' hp' => formatIso_le_iff_of_years hyears (h hp) (h hp')
  · exact fun p hp => formatIso_lt_iff (hyears.2 p (h hp)) (hyears.2 r hr)

/-- In these years the texts judge a file as the times do. -/
theorem judged_of_years (file : MediaFile) :
    lib.dueBy formatIso since file = lib.dueBy id since file ∧
      (∀ o, lib.outcomeBy formatIso o file = lib.outcomeBy id o file) ∧
      lib.hashesChangedBy formatIso file = lib.hashesChangedBy id file := by
  have hhistory : lib.history file ⊆ lib.records := fun _ hr => (mem_history.mp hr).1
  have hhashes : lib.hashHistory file ⊆ lib.records :=
    fun _ hr => hhistory (mem_hashHistory.mp hr).1
  refine ⟨?_, fun o => ?_, ?_⟩
  · unfold dueBy
    rw [latestBy_of_years hyears hhistory]
    cases hlatest : latestBy id (lib.history file) with
    | none => rfl
    | some r =>
      exact decide_eq_decide.mpr
        (formatIso_lt_iff (hyears.2 r (hhistory (latestBy_mem hlatest))) hyears.1)
  · unfold outcomeBy
    rw [latestBy_of_years hyears hhistory]
  · unfold hashesChangedBy
    rw [latestBy_of_years hyears hhashes]
    cases hlatest : latestBy id (lib.hashHistory file) with
    | none => rfl
    | some r =>
      rw [Option.any_some, Option.any_some, previousBy_of_years hyears hhashes
        (hhashes (latestBy_mem hlatest))]

end Years

/-- The latest record, if a hash check, is the latest of the hash checks. -/
theorem latestBy_hashHistory {file : MediaFile} {r : VerificationRecord}
    (h : latestBy id (lib.history file) = some r) (hmode : r.mode = .hash) :
    latestBy id (lib.hashHistory file) = some r := by
  obtain ⟨hmem, hmax⟩ := Window.isLatest_of_maxBy h
  apply (Window.maxBy_eq_some_iff (hashHistory_keyed Function.injective_id file)).mpr
  exact ⟨mem_hashHistory.mpr ⟨hmem, hmode⟩, fun r' hr' => hmax r' (mem_hashHistory.mp hr').1⟩

/-- What the two ways of looking for a changed hash find. -/
theorem hashes_differ_on (file : MediaFile) :
    (lib.hashesChangedBy id file && !(isActive file && lib.latestHashChanged file)) =
      lib.onlyDb file ∧
    ((isActive file && lib.latestHashChanged file) && !lib.hashesChangedBy id file) =
      lib.onlyMemory file := by
  unfold latestHashChanged onlyDb onlyMemory
  cases hlatest : latestBy id (lib.history file) with
  | none => simp
  | some r =>
    by_cases hmode : r.mode = .hash
    · -- The hash checks that are compared are the same.
      unfold hashesChangedBy
      rw [latestBy_hashHistory hlatest hmode]
      simp only [Option.any_some]
      cases previousBy id (lib.hashHistory file) r with
      | none => simp
      | some p =>
        cases hp : p.contentHash with
        | none => cases hr : r.contentHash <;> simp [hmode, hp, VerificationDb.hashesDiffer]
        | some a =>
          cases hr : r.contentHash with
          | none => simp [hmode, hp, VerificationDb.hashesDiffer]
          | some b =>
            -- Two hashes differ for the one exactly when they differ for the other.
            by_cases hab : a = b <;> simp [hmode, hp, hab, VerificationDb.hashesDiffer]
    · simp [hmode]

/-- The reports are equal exactly when the judgements come to the same. In years of four digits
this is so when the bit rates of the due files can be read and as many files have a hash mismatch
for the one store only as have one for the other only. -/
theorem integrityReports_agree_iff (henv : env.Faithful) (lib : VerifiedLibrary env) (now : Time)
    (since : DateTime) :
    (lib.ReportsEqual now since ↔ lib.Agree since) ∧
    (lib.InYears since → (lib.Agree since ↔
      (∀ file ∈ lib.files.filter isActive, lib.dueBy id since file = true → Readable file) ∧
        (lib.files.filter lib.onlyDb).length = (lib.files.filter lib.onlyMemory).length)) := by
  refine ⟨reportsEqual_iff henv, fun hyears => ?_⟩
  have hjudged := judged_of_years hyears
  have hhashes : Balanced lib.files (lib.hashesChangedBy formatIso)
      (fun file => isActive file && lib.latestHashChanged file) ↔
      (lib.files.filter lib.onlyDb).length = (lib.files.filter lib.onlyMemory).length := by
    unfold Balanced
    simp only [fun file => (hjudged file).2.2, fun file => (@hashes_differ_on _ lib file).1,
      fun file => (@hashes_differ_on _ lib file).2]
  constructor
  · exact fun h => ⟨h.readable, hhashes.mp h.hashes⟩
  · rintro ⟨hreadable, hcounts⟩
    have houtcome : ∀ o, Balanced (lib.files.filter isActive) (lib.outcomeBy formatIso o)
        (lib.outcomeBy id o) := by
      intro o
      unfold Balanced
      simp only [fun file => (hjudged file).2.1 o]
    exact ⟨fun file _ => (hjudged file).1, hreadable, houtcome .error, houtcome .warning,
      hhashes.mpr hcounts⟩

end

end VerifiedLibrary

namespace VerifiedLibrary

namespace Sample

open SampleStore

theorem firstDay : 1 ≤ 1 ∧ 1 ≤ Rfc3339.daysInMonth 2026 1 := by decide

def januaryFirst (hour : Nat) (hhour : hour < 24) : DateTime where
  year := 2026
  month := 1
  day := 1
  hour := hour
  minute := 0
  second := 0
  nanosecond := 0
  month_range := DateTime.month_first
  day_range := firstDay
  hour_lt := hhour
  minute_lt := DateTime.minute_first
  second_le := DateTime.second_first
  nanosecond_lt := DateTime.nanosecond_first

/-- A check of the film that finds nothing wrong. -/
def check (id : Uuid) (verifiedAt : DateTime) (mode : VerificationMode) (hash : Option Hash) :
    VerificationRecord :=
  { id, fileId := env.uuid film.id, verifiedAt, mode, outcome := .ok, errorCount := 0
    warningCount := 0, contentHash := hash, details := none }

/-- Another film, of an unknown bit rate. -/
def sequel : MediaFile := { film with id := 2, path := ⟨["films", "b.mkv"]⟩, bitrate := none }

/-- Of two films, one was checked: quickly, and then twice with different hashes. -/
def checkedTwice : VerifiedLibrary env where
  files := [film, sequel]
  records := [check 1 (januaryFirst 1 (by decide)) .quick none,
    check 2 (januaryFirst 2 (by decide)) .hash (some "a"),
    check 3 (januaryFirst 3 (by decide)) .hash (some "b")]
  files_keyed := by simp [Table.Keyed, film, sequel]
  paths_distinct := by decide
  records_keyed := by simp [Table.Keyed, check]
  records_known := by simp [check]
  times_distinct := by simp [check, januaryFirst]

/-- Two hash checks with different hashes, and a quick check after them. -/
def checkedAgain : VerifiedLibrary env where
  files := [film]
  records := [check 1 (januaryFirst 1 (by decide)) .hash (some "a"),
    check 2 (januaryFirst 2 (by decide)) .hash (some "b"),
    check 3 (januaryFirst 3 (by decide)) .quick none]
  files_keyed := List.nodup_singleton _
  paths_distinct := List.nodup_singleton _
  records_keyed := by simp [Table.Keyed, check]
  records_known := by simp [check]
  times_distinct := by simp [check, januaryFirst]

end Sample

/-- Both stores report the changed hash and the film that was never verified. -/
theorem integrityReports_agree_after_hash_checks :
    (Sample.checkedTwice.toMemory.integritySummary SampleStore.env
      (Sample.januaryFirst 5 (by decide))).hashMismatches = 1 ∧
    Sample.checkedTwice.ReportsEqual 0 (Sample.januaryFirst 5 (by decide)) := by
  obtain ⟨hequal, hyears⟩ := integrityReports_agree_iff SampleStore.env_faithful
    Sample.checkedTwice 0 (Sample.januaryFirst 5 (by decide))
  refine ⟨?_, hequal.mpr ((hyears ?_).mpr ⟨?_, ?_⟩)⟩
  · rw [integritySummary_toMemory]
    decide
  · simp [InYears, Sample.checkedTwice, Sample.check, Sample.januaryFirst]
  · simp [Sample.checkedTwice, Sample.sequel, Readable, SampleStore.film]
  · decide

/-- The quick check hides the changed hash from the in-memory store only. -/
theorem integrityReports_differ_after_quick_check :
    ((Sample.checkedAgain.toDb 0).integritySummary
      (Sample.januaryFirst 5 (by decide))).hashMismatches = 1 ∧
    (Sample.checkedAgain.toMemory.integritySummary SampleStore.env
      (Sample.januaryFirst 5 (by decide))).hashMismatches = 0 ∧
    ¬ Sample.checkedAgain.ReportsEqual 0 (Sample.januaryFirst 5 (by decide)) := by
  have hdb : ((Sample.checkedAgain.toDb 0).integritySummary
      (Sample.januaryFirst 5 (by decide))).hashMismatches = 1 := by
    rw [integritySummary_toDb SampleStore.env_faithful]
    decide
  have hmemory : (Sample.checkedAgain.toMemory.integritySummary SampleStore.env
      (Sample.januaryFirst 5 (by decide))).hashMismatches = 0 := by
    rw [integritySummary_toMemory]
    decide
  refine ⟨hdb, hmemory, fun hequal => ?_⟩
  rw [hequal.1, hmemory] at hdb
  exact absurd hdb (by decide)

end VerifiedLibrary

end Voom.Storage
