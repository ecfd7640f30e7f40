-- SUMMARY: The transition log: how transitions are written and read, and which of them the queries return as recorded.
import Voom.Domain.Transition
import Voom.Storage.Columns

/-!
# The transition log

A transition is written as one row of `file_transitions` and read back by three
queries that share a list of columns and a row mapper. The texts of
identifiers, times and snapshots are parameters of the model; `Faithful` says
which of them can be read back. The queries return exactly what was recorded,
in order, if and only if no recorded transition has an error message, a
session, or a 64-bit value whose top bit is set, and its texts keep their
values: a finite duration in the snapshot, and times whose texts are ordered
as the times are.
-/

namespace Voom.Storage.Sqlite

open Voom.Lib Voom.Lib.Sql Voom.Storage.Schema

/-! ## Transitions with all their fields -/

/-- A summary of a file's media state. -/
structure MetadataSnapshot where
  container : String
  videoTracks : Nat
  audioTracks : Nat
  subtitleTracks : Nat
  codecs : List String
  resolution : Option String
  durationSecs : F64
  deriving DecidableEq, Repr

/-- A `FileTransition` with the fields that only the log looks at. -/
structure TransitionRecord extends FileTransition where
  id : Uuid
  createdAt : Time
  durationMs : Option Nat := none
  actionsTaken : Option Nat := none
  tracksModified : Option Nat := none
  metadataSnapshot : Option MetadataSnapshot := none
  sessionId : Option Uuid := none
  deriving DecidableEq, Repr

/-- The fields are of their types: 64-bit sizes and durations, 32-bit counts
and real paths. -/
structure TransitionRecord.Typed (t : TransitionRecord) : Prop where
  path : t.path.Plain
  fromPath : ∀ p ∈ t.fromPath, p.Plain
  toSize : t.toSize < 2 ^ 64
  fromSize : ∀ n ∈ t.fromSize, n < 2 ^ 64
  durationMs : ∀ n ∈ t.durationMs, n < 2 ^ 64
  actionsTaken : ∀ n ∈ t.actionsTaken, n < 2 ^ 32
  tracksModified : ∀ n ∈ t.tracksModified, n < 2 ^ 32

def sourceStr : TransitionSource → String
  | .discovery => "discovery"
  | .voom => "voom"
  | .external => "external"
  | .unknown => "unknown"

/-- `TransitionSource::parse` -/
def parseSource : String → Option TransitionSource
  | "discovery" => some .discovery
  | "voom" => some .voom
  | "external" => some .external
  | "unknown" => some .unknown
  | _ => none

def outcomeStr : ProcessingOutcome → String
  | .success => "success"
  | .failure => "failure"
  | .skipped => "skipped"

/-- `ProcessingOutcome::parse` -/
def parseOutcome : String → Option ProcessingOutcome
  | "success" | "completed" => some .success
  | "failure" | "failed" => some .failure
  | "skipped" => some .skipped
  | _ => none

@[simp] theorem parseSource_sourceStr (s : TransitionSource) : parseSource (sourceStr s) = some s := by
  cases s <;> rfl

@[simp] theorem parseOutcome_outcomeStr (o : ProcessingOutcome) :
    parseOutcome (outcomeStr o) = some o := by
  cases o <;> rfl

theorem sourceStr_inj {s s' : TransitionSource} : sourceStr s = sourceStr s' ↔ s = s' := by
  refine ⟨fun h => ?_, congrArg sourceStr⟩
  have hparse := congrArg parseSource h
  rw [parseSource_sourceStr, parseSource_sourceStr] at hparse
  exact Option.some.inj hparse

/-- The texts that other crates write and parse. -/
structure TransitionEnv where
  uuid : Uuid → String
  parseUuid : String → Except String Uuid
  formatDatetime : Time → String
  parseDatetime : String → Except String Time
  snapshotJson : MetadataSnapshot → Option String
  parseSnapshot : String → Option MetadataSnapshot

/-- Identifiers and times can be read back. -/
structure TransitionEnv.Faithful (env : TransitionEnv) : Prop where
  uuid : ∀ u, env.parseUuid (env.uuid u) = .ok u
  uuid_ne : ∀ u, env.uuid u ≠ ""
  datetime : ∀ t, env.parseDatetime (env.formatDatetime t) = .ok t

/-- A snapshot whose duration JSON can express. -/
def MetadataSnapshot.Finite (s : MetadataSnapshot) : Prop := ∃ q, s.durationSecs = .finite q

/-- JSON keeps a snapshot, but has a `null` for a double that is not finite, and
that is no double when it is read. -/
structure TransitionEnv.Keeps (env : TransitionEnv) (s : MetadataSnapshot) : Prop where
  finite : s.Finite → (env.snapshotJson s).bind env.parseSnapshot = some s
  null : ¬s.Finite → (env.snapshotJson s).bind env.parseSnapshot = none

theorem TransitionEnv.Faithful.uuid_inj {env : TransitionEnv} (henv : env.Faithful) {u v : Uuid} :
    env.uuid u = env.uuid v ↔ u = v := by
  refine ⟨fun h => ?_, congrArg env.uuid⟩
  have hparse := congrArg env.parseUuid h
  rw [henv.uuid, henv.uuid] at hparse
  exact Except.ok.inj hparse

section

variable (env : TransitionEnv)

/-! ## Writing -/

/-- An empty text counts as absent. -/
def nonEmpty (o : Option String) : Option String := o.filter (· ≠ "")

/-- The row of `insert_full_transition_in_tx`. -/
def transitionRow (t : TransitionRecord) : Row :=
  row
    [ ("id", .text (env.uuid t.id)),
      ("file_id", .text (env.uuid t.fileId)),
      ("path", .text t.path.display),
      ("from_path", Param.optional (fun p => .text p.display) t.fromPath),
      ("from_hash", Param.optional .text (nonEmpty t.fromHash)),
      ("to_hash", .text t.toHash),
      ("from_size", Param.optional Param.size t.fromSize),
      ("to_size", Param.size t.toSize),
      ("source", .text (sourceStr t.source)),
      ("source_detail", Param.optional .text (nonEmpty t.sourceDetail)),
      ("plan_id", Param.optional (fun u => .text (env.uuid u)) t.planId),
      ("duration_ms", Param.optional Param.size t.durationMs),
      ("actions_taken", Param.optional Param.nat t.actionsTaken),
      ("tracks_modified", Param.optional Param.nat t.tracksModified),
      ("outcome", Param.optional (fun o => .text (outcomeStr o)) t.outcome),
      ("policy_name", Param.optional .text t.policyName),
      ("phase_name", Param.optional .text t.phaseName),
      ("metadata_snapshot", Param.optional .text (t.metadataSnapshot.bind env.snapshotJson)),
      ("error_message", Param.optional .text t.errorMessage),
      ("session_id", Param.optional (fun u => .text (env.uuid u)) t.sessionId),
      ("created_at", .text (env.formatDatetime t.createdAt)) ]

/-- `insert_full_transition_in_tx`, under the primary key: what
`record_transition` and a post-execution bundle run. -/
def insertFullTransition (t : TransitionRecord) (rows : List Row) : Except StoreError (List Row) :=
  if rows.any (Row.clashes ["id"] (transitionRow env t)) then
    .error (.sql (.uniqueConstraint "file_transitions.id"))
  else .ok (rows ++ [transitionRow env t])

/-- The log after recording some transitions, each alone or in the bundle that
it commits with. -/
def recordAll : List TransitionRecord → List Row → Except StoreError (List Row)
  | [], rows => .ok rows
  | t :: rest, rows =>
    match insertFullTransition env t rows with
    | .error e => .error e
    | .ok rows => recordAll rest rows

/-! ## Reading -/

def parseUuidForRow (s field : String) : Except RowError Uuid :=
  match env.parseUuid s with
  | .ok u => .ok u
  | .error e => .error (.conversion ("invalid UUID in " ++ field ++ ": " ++ s ++ ": " ++ e))

def parseSourceForRow (s : String) : Except RowError TransitionSource :=
  match parseSource s with
  | some source => .ok source
  | none => .error (.conversion ("unknown transition source in file_transitions.source: " ++ s))

def parsePlanIdForRow (s : Option String) : Except RowError (Option Uuid) :=
  match nonEmpty s with
  | none => .ok none
  | some s => (parseUuidForRow env s "file_transitions.plan_id").map some

def parseCreatedAtForRow (s : String) : Except RowError Time :=
  match env.parseDatetime s with
  | .ok t => .ok t
  | .error e =>
    .error (.conversion ("corrupt datetime in file_transitions.created_at: " ++ s ++ ": " ++ e))

/-- `row_to_transition`: what the mapper does not read has the value of
`FileTransition::new`. -/
def rowToTransition (r : Selected) : Except RowError TransitionRecord := do
  let idStr ← r.get asString "id"
  let fileIdStr ← r.get asString "file_id"
  let pathStr ← r.get asString "path"
  let fromPathStr ← r.get (asOption asString) "from_path"
  let fromHash ← r.get (asOption asString) "from_hash"
  let toHash ← r.get asString "to_hash"
  let fromSize ← r.get (asOption asI64) "from_size"
  let toSize ← r.get asI64 "to_size"
  let sourceStr ← r.get asString "source"
  let sourceDetail ← r.get (asOption asString) "source_detail"
  let planIdStr ← r.get (asOption asString) "plan_id"
  let createdAtStr ← r.get asString "created_at"
  let id ← parseUuidForRow env idStr "file_transitions.id"
  let fileId ← parseUuidForRow env fileIdStr "file_transitions.file_id"
  let source ← parseSourceForRow sourceStr
  let planId ← parsePlanIdForRow env planIdStr
  let createdAt ← parseCreatedAtForRow env createdAtStr
  let fromSize ← checkedOptional checkedI64ToU64 "file_transitions.from_size" fromSize
  let toSize ← checkedI64ToU64 toSize "file_transitions.to_size"
  let durationMs ← r.get (asOption asI64) "duration_ms"
  let durationMs ← checkedOptional checkedI64ToU64 "file_transitions.duration_ms" durationMs
  let actionsTaken ← r.get (asOption asI64) "actions_taken"
  let actionsTaken ← checkedOptional checkedI64ToU32 "file_transitions.actions_taken" actionsTaken
  let tracksModified ← r.get (asOption asI64) "tracks_modified"
  let tracksModified ←
    checkedOptional checkedI64ToU32 "file_transitions.tracks_modified" tracksModified
  let outcomeStr ← r.get (asOption asString) "outcome"
  let snapshotJson ← r.get (asOption asString) "metadata_snapshot"
  let policyName ← r.get (asOption asString) "policy_name"
  let phaseName ← r.get (asOption asString) "phase_name"
  return {
    id, fileId, path := .ofText pathStr, toHash, toSize, source, createdAt,
    fromPath := (nonEmpty fromPathStr).map .ofText
    fromHash := nonEmpty fromHash
    fromSize
    sourceDetail := nonEmpty sourceDetail
    planId, durationMs, actionsTaken, tracksModified,
    outcome := outcomeStr.bind parseOutcome
    policyName, phaseName,
    metadataSnapshot := snapshotJson.bind env.parseSnapshot }

/-- The columns of the three queries, in their order. -/
def transitionColumns : List String :=
  ["id", "file_id", "path", "from_path", "from_hash", "to_hash", "from_size", "to_size",
   "source", "source_detail", "plan_id", "duration_ms", "actions_taken", "tracks_modified",
   "outcome", "policy_name", "phase_name", "metadata_snapshot", "created_at"]

inductive TransitionQuery where
  | forFile (fileId : Uuid)
  | forPath (path : Path)
  | bySource (source : TransitionSource)

/-- The `WHERE` of a query. -/
def TransitionQuery.selects : TransitionQuery → Row → Bool
  | .forFile fileId, r => r "file_id" = .text (env.uuid fileId)
  | .forPath path, r => r "path" = .text path.display || r "from_path" = .text path.display
  | .bySource source, r => r "source" = .text (sourceStr source)

/-- The text by which a query orders. -/
def createdAtText (r : Row) : String :=
  match r "created_at" with
  | .text s => s
  | _ => ""

/-- `transitions_for_file`, `transitions_for_path` and `transitions_by_source`. -/
def TransitionQuery.run (q : TransitionQuery) (rows : List Row) :
    Except RowError (List TransitionRecord) :=
  ((rows.filter (q.selects env)).mergeSort fun r r' => createdAtText r ≤ createdAtText r').mapM
    fun r => rowToTransition env ⟨transitionColumns, r⟩

end

/-! ## One row -/

/-- No 64-bit value has its top bit set. -/
structure TransitionRecord.Sized (t : TransitionRecord) : Prop where
  toSize : t.toSize < 2 ^ 63
  fromSize : ∀ n ∈ t.fromSize, n < 2 ^ 63
  durationMs : ∀ n ∈ t.durationMs, n < 2 ^ 63

/-- What the mapper makes of a recorded transition. -/
def asRead (env : TransitionEnv) (t : TransitionRecord) : TransitionRecord :=
  { t with
    fromHash := nonEmpty t.fromHash
    sourceDetail := nonEmpty t.sourceDetail
    metadataSnapshot := (t.metadataSnapshot.bind env.snapshotJson).bind env.parseSnapshot
    errorMessage := none
    sessionId := none }

section

variable {env : TransitionEnv} (henv : env.Faithful) {t : TransitionRecord} (ht : t.Typed)

@[simp] theorem nonEmpty_nonEmpty (o : Option String) : nonEmpty (nonEmpty o) = nonEmpty o := by
  unfold nonEmpty
  rw [Option.filter_filter]
  simp

include henv in
theorem parseUuidForRow_uuid (u : Uuid) (field : String) :
    parseUuidForRow env (env.uuid u) field = .ok u := by
  unfold parseUuidForRow
  rw [henv.uuid]

include henv in
theorem parsePlanIdForRow_uuid (o : Option Uuid) :
    parsePlanIdForRow env (o.map env.uuid) = .ok o := by
  unfold parsePlanIdForRow nonEmpty
  cases o with
  | none => rfl
  | some u =>
    rw [Option.map_some, Option.filter_some_pos (by simpa using henv.uuid_ne u)]
    simp only [parseUuidForRow_uuid henv]
    rfl

include henv in
theorem parseCreatedAtForRow_formatDatetime (time : Time) :
    parseCreatedAtForRow env (env.formatDatetime time) = .ok time := by
  unfold parseCreatedAtForRow
  rw [henv.datetime]

theorem parseSourceForRow_sourceStr (s : TransitionSource) :
    parseSourceForRow (sourceStr s) = .ok s := by
  unfold parseSourceForRow
  rw [parseSource_sourceStr]

include ht in
theorem read_fromPath : (nonEmpty (t.fromPath.map Path.display)).map Path.ofText = t.fromPath := by
  cases hpath : t.fromPath with
  | none => rfl
  | some p =>
    have hplain : p.Plain := ht.fromPath p hpath
    simp [nonEmpty, p.display_ne_empty, Path.ofText_display hplain]

theorem bind_parseOutcome (o : Option ProcessingOutcome) :
    (o.map outcomeStr).bind parseOutcome = o := by
  cases o <;> simp

include henv ht in
/-- Only the checked sizes stand between a row and its transition. -/
theorem rowToTransition_transitionRow :
    rowToTransition env ⟨transitionColumns, transitionRow env t⟩ = (do
      let fromSize ←
        checkedOptional checkedI64ToU64 "file_transitions.from_size" (t.fromSize.map asStored)
      let toSize ← checkedI64ToU64 (asStored t.toSize) "file_transitions.to_size"
      let durationMs ←
        checkedOptional checkedI64ToU64 "file_transitions.duration_ms" (t.durationMs.map asStored)
      .ok { asRead env t with fromSize, toSize, durationMs }) := by
  -- each column is read as it was written; the checks of the sizes stay
  simp [rowToTransition, Selected.get, transitionColumns, transitionRow, row, List.lookup_cons, asString,
    ok_bind, asString_map, asOption_size ht.fromSize, asI64_size ht.toSize,
    asOption_size ht.durationMs, parseUuidForRow_uuid henv, parsePlanIdForRow_uuid henv,
    parseSourceForRow_sourceStr, parseCreatedAtForRow_formatDatetime henv, asOption_nat,
    checkedOptional_natCast ht.actionsTaken, checkedOptional_natCast ht.tracksModified,
    bind_parseOutcome, Path.ofText_display ht.path, read_fromPath ht, asRead]

include henv ht in
theorem rowToTransition_sized (hsized : t.Sized) :
    rowToTransition env ⟨transitionColumns, transitionRow env t⟩ = .ok (asRead env t) := by
  rw [rowToTransition_transitionRow henv ht,
    (checkedOptional_asStored ht.fromSize).1 hsized.fromSize, ok_bind,
    checkedI64ToU64_asStored ht.toSize, if_pos hsized.toSize, ok_bind,
    (checkedOptional_asStored ht.durationMs).1 hsized.durationMs, ok_bind]
  rfl

include henv ht in
theorem sized_of_rowToTransition {t' : TransitionRecord}
    (h : rowToTransition env ⟨transitionColumns, transitionRow env t⟩ = .ok t') : t.Sized := by
  rw [rowToTransition_transitionRow henv ht] at h
  obtain ⟨fromSize, hfrom, h⟩ := bind_eq_ok.mp h
  obtain ⟨toSize, hto, h⟩ := bind_eq_ok.mp h
  obtain ⟨durationMs, hduration, h⟩ := bind_eq_ok.mp h
  refine ⟨?_, (checkedOptional_asStored ht.fromSize).2 _ hfrom,
    (checkedOptional_asStored ht.durationMs).2 _ hduration⟩
  by_contra hbig
  rw [checkedI64ToU64_asStored ht.toSize, if_neg hbig] at hto
  cases hto

end

/-! ## What the mapper loses -/

/-- A transition with its empty texts absent. -/
def normalise (t : TransitionRecord) : TransitionRecord :=
  { t with
    fromHash := nonEmpty t.fromHash
    sourceDetail := nonEmpty t.sourceDetail
    policyName := nonEmpty t.policyName
    phaseName := nonEmpty t.phaseName
    errorMessage := nonEmpty t.errorMessage }

/-- Nothing is set that the mapper does not read, and the snapshot is one JSON
can express. -/
structure TransitionRecord.Kept (t : TransitionRecord) : Prop where
  errorMessage : nonEmpty t.errorMessage = none
  sessionId : t.sessionId = none
  snapshot : ∀ s ∈ t.metadataSnapshot, s.Finite

theorem read_snapshot_iff {env : TransitionEnv} {o : Option MetadataSnapshot}
    (hjson : ∀ s ∈ o, env.Keeps s) :
    (o.bind env.snapshotJson).bind env.parseSnapshot = o ↔ ∀ s ∈ o, s.Finite := by
  cases o with
  | none => simp
  | some s =>
    rw [Option.bind_some]
    refine ⟨fun h s' hs' => ?_, fun h => (hjson s rfl).finite (h s rfl)⟩
    cases hs'
    by_contra hnull
    rw [(hjson s rfl).null hnull] at h
    cases h

theorem normalise_asRead_iff {env : TransitionEnv} {t : TransitionRecord}
    (hjson : ∀ s ∈ t.metadataSnapshot, env.Keeps s) :
    normalise (asRead env t) = normalise t ↔ t.Kept := by
  have hread := read_snapshot_iff hjson
  constructor
  · intro h
    have herror := congrArg (·.errorMessage) h
    have hsession := congrArg (·.sessionId) h
    have hsnapshot := congrArg (·.metadataSnapshot) h
    exact ⟨herror.symm, hsession.symm, hread.mp hsnapshot⟩
  · intro h
    simp [normalise, asRead, hread.mpr h.snapshot, h.errorMessage, h.sessionId]
    rfl

/-! ## The log -/

/-- The transitions a query asks for. -/
def TransitionQuery.asks : TransitionQuery → TransitionRecord → Bool
  | .forFile fileId, t => t.fileId = fileId
  | .forPath path, t => t.path = path || t.fromPath = some path
  | .bySource source, t => t.source = source

/-- A query about a real path. -/
def TransitionQuery.Real : TransitionQuery → Prop
  | .forPath path => path.Plain
  | .forFile _ | .bySource _ => True

/-- The three queries return what was recorded, in order. -/
def RoundTrips (env : TransitionEnv) (ts : List TransitionRecord) (rows : List Row) : Prop :=
  ∀ q : TransitionQuery, q.Real → ∃ result, q.run env rows = .ok result ∧
    (result.map normalise).Perm ((ts.filter q.asks).map normalise) ∧
    result.Pairwise fun t t' => t.createdAt ≤ t'.createdAt

/-- Every transition can be read back as it is, and the texts of the times are in the order
of the times wherever a query orders by them. -/
structure Readable (env : TransitionEnv) (ts : List TransitionRecord) : Prop where
  sized : ∀ t ∈ ts, t.Sized
  kept : ∀ t ∈ ts, t.Kept
  ordered : ∀ q : TransitionQuery, q.Real → ∀ t ∈ ts, ∀ t' ∈ ts, q.asks t → q.asks t' →
    env.formatDatetime t.createdAt ≤ env.formatDatetime t'.createdAt → t.createdAt ≤ t'.createdAt

section

variable {env : TransitionEnv} (henv : env.Faithful) {ts : List TransitionRecord}
  (htyped : ∀ t ∈ ts, t.Typed) (hjson : ∀ t ∈ ts, ∀ s ∈ t.metadataSnapshot, env.Keeps s)

include henv in
/-- With distinct identifiers every insert succeeds. -/
theorem recordAll_eq (before : List TransitionRecord)
    (hids : ((before ++ ts).map (·.id)).Nodup) :
    recordAll env ts (before.map (transitionRow env)) = .ok ((before ++ ts).map (transitionRow env)) := by
  induction ts generalizing before with
  | nil => simp [recordAll]
  | cons t rest ih =>
    have hfree : (before.map (transitionRow env)).any
        (Row.clashes ["id"] (transitionRow env t)) = false := by
      rw [List.map_append, List.nodup_append] at hids
      refine List.any_eq_false.mpr fun r hr hclash => ?_
      obtain ⟨b, hb, rfl⟩ := List.mem_map.mp hr
      have hsame : env.uuid t.id = env.uuid b.id := by
        simpa [Row.clashes, transitionRow, row, List.lookup_cons] using hclash
      exact hids.2.2 b.id (List.mem_map_of_mem hb) t.id (by simp) (henv.uuid_inj.mp hsame).symm
    simp only [recordAll, insertFullTransition, hfree]
    have hrest := ih (before ++ [t]) (by simpa using hids)
    simpa using hrest

include henv in
theorem selects_transitionRow {q : TransitionQuery} (hq : q.Real) {t : TransitionRecord}
    (ht : t.Typed) : q.selects env (transitionRow env t) = q.asks t := by
  cases q with
  | forFile fileId =>
    simp [TransitionQuery.selects, TransitionQuery.asks, transitionRow, row, List.lookup_cons,
      henv.uuid_inj]
  | forPath path =>
    have hpath : t.path.display = path.display ↔ t.path = path :=
      ⟨Path.display_inj ht.path hq, congrArg Path.display⟩
    have hfrom : Param.optional (fun p : Path => .text p.display) t.fromPath = .text path.display ↔
        t.fromPath = some path := by
      cases hsome : t.fromPath with
      | none => simp [Param.optional]
      | some p =>
        have hp : p.display = path.display ↔ p = path :=
          ⟨Path.display_inj (ht.fromPath p hsome) hq, congrArg Path.display⟩
        simp [Param.optional, hp]
    simp [TransitionQuery.selects, TransitionQuery.asks, transitionRow, row, List.lookup_cons, hpath,
      hfrom]
  | bySource source =>
    simp [TransitionQuery.selects, TransitionQuery.asks, transitionRow, row, List.lookup_cons,
      sourceStr_inj]

/-- What a query asks for, in the order of its texts. -/
def TransitionQuery.ordered (q : TransitionQuery) (env : TransitionEnv)
    (ts : List TransitionRecord) : List TransitionRecord :=
  (ts.filter q.asks).mergeSort fun t t' =>
    env.formatDatetime t.createdAt ≤ env.formatDatetime t'.createdAt

theorem mem_ordered {q : TransitionQuery} {t : TransitionRecord} :
    t ∈ q.ordered env ts ↔ t ∈ ts ∧ q.asks t := by
  unfold TransitionQuery.ordered
  rw [(List.mergeSort_perm _ _).mem_iff, List.mem_filter]

theorem ordered_pairwise (q : TransitionQuery) :
    (q.ordered env ts).Pairwise fun t t' =>
      env.formatDatetime t.createdAt ≤ env.formatDatetime t'.createdAt := by
  have hsorted : (q.ordered env ts).Pairwise fun t t' =>
      decide (env.formatDatetime t.createdAt ≤ env.formatDatetime t'.createdAt) = true := by
    refine List.pairwise_mergeSort (fun a b c hab hbc => ?_) (fun a b => ?_) _
    · exact decide_eq_true (String.le_trans (of_decide_eq_true hab) (of_decide_eq_true hbc))
    · simpa using String.le_total _ _
  exact hsorted.imp of_decide_eq_true

include henv htyped in
/-- A query maps the rows of what it asks for. -/
theorem run_eq {q : TransitionQuery} (hq : q.Real) :
    q.run env (ts.map (transitionRow env)) =
      (q.ordered env ts).mapM fun t =>
        rowToTransition env ⟨transitionColumns, transitionRow env t⟩ := by
  have hfilter : (ts.map (transitionRow env)).filter (q.selects env) =
      (ts.filter q.asks).map (transitionRow env) := by
    rw [List.filter_map]
    congr 1
    exact List.filter_congr fun t ht => selects_transitionRow henv hq (htyped t ht)
  unfold TransitionQuery.run
  rw [hfilter, ← List.map_mergeSort, List.mapM_map]
  · rfl
  · intro t _ t' _
    simp [createdAtText, transitionRow, row, List.lookup_cons]

include henv htyped in
theorem run_sized {q : TransitionQuery} (hq : q.Real) (hsized : ∀ t ∈ q.ordered env ts, t.Sized) :
    q.run env (ts.map (transitionRow env)) = .ok ((q.ordered env ts).map (asRead env)) := by
  have hread : ∀ t ∈ q.ordered env ts,
      rowToTransition env ⟨transitionColumns, transitionRow env t⟩ = .ok (asRead env t) :=
    fun t ht => rowToTransition_sized henv (htyped t (mem_ordered.mp ht).1) (hsized t ht)
  obtain ⟨result, hresult⟩ := Succeeds.mapM_iff.mpr fun t ht => ⟨_, hread t ht⟩
  rw [run_eq henv htyped hq, hresult]
  congr 1
  refine mapM_eq_map hresult fun t ht t' ht' => ?_
  rw [hread t ht] at ht'
  exact (Except.ok.inj ht').symm

include henv htyped in
/-- A query that returns has read every row, so it returns what the mapper makes
of each. -/
theorem run_eq_ok {q : TransitionQuery} (hq : q.Real) {result : List TransitionRecord}
    (h : q.run env (ts.map (transitionRow env)) = .ok result) :
    (∀ t ∈ q.ordered env ts, t.Sized) ∧ result = (q.ordered env ts).map (asRead env) := by
  have hsized : ∀ t ∈ q.ordered env ts, t.Sized := by
    rw [run_eq henv htyped hq] at h
    intro t ht
    obtain ⟨t', ht'⟩ := Succeeds.mapM_iff.mp ⟨result, h⟩ t ht
    exact sized_of_rowToTransition henv (htyped t (mem_ordered.mp ht).1) ht'
  rw [run_sized henv htyped hq hsized] at h
  exact ⟨hsized, (Except.ok.inj h).symm⟩

include henv htyped hjson in
theorem roundTrips_of_readable (h : Readable env ts) :
    RoundTrips env ts (ts.map (transitionRow env)) := by
  intro q hq
  have hmem : ∀ t ∈ q.ordered env ts, t ∈ ts ∧ q.asks t := fun t ht => mem_ordered.mp ht
  refine ⟨_, run_sized henv htyped hq fun t ht => h.sized t (hmem t ht).1, ?_, ?_⟩
  · have hkept : ((q.ordered env ts).map (asRead env)).map normalise =
        (q.ordered env ts).map normalise := by
      rw [List.map_map]
      exact List.map_congr_left fun t ht =>
        (normalise_asRead_iff (hjson t (hmem t ht).1)).mpr (h.kept t (hmem t ht).1)
    rw [hkept]
    exact (List.mergeSort_perm _ _).map normalise
  · rw [List.pairwise_map]
    refine (ordered_pairwise q).imp_of_mem fun {t t'} ht ht' hle => ?_
    exact h.ordered q hq t (hmem t ht).1 t' (hmem t' ht').1 (hmem t ht).2 (hmem t' ht').2 hle

include henv htyped hjson in
theorem readable_of_roundTrips (hids : (ts.map (·.id)).Nodup)
    (h : RoundTrips env ts (ts.map (transitionRow env))) : Readable env ts := by
  -- each transition is asked for by its own source
  have hreal : ∀ source, (TransitionQuery.bySource source).Real := fun _ => trivial
  have hasked : ∀ t ∈ ts, t ∈ (TransitionQuery.bySource t.source).ordered env ts := fun t ht =>
    mem_ordered.mpr ⟨ht, by simp [TransitionQuery.asks]⟩
  refine ⟨fun t ht => ?_, fun t ht => ?_, fun q hq t ht t' ht' hasks hasks' hle => ?_⟩
  · obtain ⟨result, hrun, -⟩ := h (.bySource t.source) (hreal _)
    exact (run_eq_ok henv htyped (hreal _) hrun).1 t (hasked t ht)
  · obtain ⟨result, hrun, hperm, -⟩ := h (.bySource t.source) (hreal _)
    obtain ⟨-, rfl⟩ := run_eq_ok henv htyped (hreal _) hrun
    have hin : normalise t ∈
        (((TransitionQuery.bySource t.source).ordered env ts).map (asRead env)).map normalise :=
      hperm.mem_iff.mpr (List.mem_map_of_mem
        (List.mem_filter.mpr ⟨ht, by simp [TransitionQuery.asks]⟩))
    rw [List.map_map] at hin
    obtain ⟨u, hu, heq⟩ := List.mem_map.mp hin
    -- the identifier says which one was read as it
    have hid : u.id = t.id := congrArg (·.id) heq
    obtain rfl := List.inj_on_of_nodup_map hids (mem_ordered.mp hu).1 ht hid
    exact (normalise_asRead_iff (hjson u ht)).mp heq
  · obtain ⟨result, hrun, -, hpairs⟩ := h q hq
    obtain ⟨-, rfl⟩ := run_eq_ok henv htyped hq hrun
    rw [List.pairwise_map] at hpairs
    -- equal texts are equal times, so the order of the texts decides between two
    have hflip : (q.ordered env ts).Pairwise fun x y =>
        env.formatDatetime y.createdAt ≤ env.formatDatetime x.createdAt → y.createdAt ≤ x.createdAt := by
      refine (ordered_pairwise q).imp fun {x y} hxy hyx => ?_
      have htext := congrArg env.parseDatetime (String.le_antisymm hyx hxy)
      rw [henv.datetime, henv.datetime] at htext
      exact (Except.ok.inj htext).le
    have hpairs : (q.ordered env ts).Pairwise fun x y =>
        env.formatDatetime x.createdAt ≤ env.formatDatetime y.createdAt → x.createdAt ≤ y.createdAt :=
      hpairs.imp fun {x y} (hle : x.createdAt ≤ y.createdAt) _ => hle
    have hall := List.Pairwise.forall_of_forall_of_flip (fun x _ _ => le_rfl) hpairs hflip
    exact hall (mem_ordered.mpr ⟨ht, hasks⟩) (mem_ordered.mpr ⟨ht', hasks'⟩) hle

end

/-- The log round-trips exactly when what was recorded is readable. -/
theorem transition_log_round_trips {env : TransitionEnv} (henv : env.Faithful)
    {ts : List TransitionRecord} (htyped : ∀ t ∈ ts, t.Typed) (hids : (ts.map (·.id)).Nodup)
    (hjson : ∀ t ∈ ts, ∀ s ∈ t.metadataSnapshot, env.Keeps s) :
    ∃ rows, recordAll env ts [] = .ok rows ∧ (RoundTrips env ts rows ↔ Readable env ts) := by
  refine ⟨ts.map (transitionRow env), recordAll_eq henv [] hids, ?_⟩
  exact ⟨readable_of_roundTrips henv htyped hjson hids,
    roundTrips_of_readable henv htyped hjson⟩

namespace SampleLog

def snapshot : MetadataSnapshot :=
  { container := "mkv", videoTracks := 1, audioTracks := 2, subtitleTracks := 0,
    codecs := ["aac", "hevc"], resolution := some "1920x1080", durationSecs := .finite 90 }

def snapshotText : String :=
  "\x7b\"container\":\"mkv\",\"video_tracks\":1,\"audio_tracks\":2,\"subtitle_tracks\":0," ++
  "\"codecs\":[\"aac\",\"hevc\"],\"resolution\":\"1920x1080\",\"duration_secs\":90.0\x7d"

/-- The texts of identifier 1, of the first second of 1970 and of the snapshot
are the real ones; the others differ from them in length. -/
def env : TransitionEnv where
  uuid u := padded "00000000-0000-0000-0000-00000000000" u '1'
  parseUuid s := .ok (s.length - 35)
  formatDatetime t := padded "1970-01-01T00:00:00+00:00" t ' '
  parseDatetime s := .ok (s.length - 25)
  snapshotJson s := if s = snapshot then some snapshotText else none
  parseSnapshot s := if s = snapshotText then some snapshot else none

theorem env_faithful : env.Faithful where
  uuid u := by
    have hlength : (env.uuid u).length = 35 + u := length_padded _ u '1'
    change Except.ok ((env.uuid u).length - 35) = _
    rw [hlength, Nat.add_sub_cancel_left]
  uuid_ne u h := by
    have hlength : (env.uuid u).length = 35 + u := length_padded _ u '1'
    rw [h] at hlength
    exact absurd hlength (by simp; omega)
  datetime t := by
    have hlength : (env.formatDatetime t).length = 25 + t := length_padded _ t ' '
    change Except.ok ((env.formatDatetime t).length - 25) = _
    rw [hlength, Nat.add_sub_cancel_left]

theorem env_keeps : env.Keeps snapshot where
  finite _ := by simp only [env, ↓reduceIte, Option.bind_some]
  null h := absurd ⟨90, rfl⟩ h

def converted : TransitionRecord :=
  { id := 1, fileId := 1, path := ⟨["films", "a.mkv"]⟩, fromPath := some ⟨["films", "a.mp4"]⟩,
    fromHash := some "h", toHash := "k", fromSize := some 7, toSize := 5, source := .voom,
    sourceDetail := some "mkvtoolnix", planId := some 1, outcome := some .success,
    policyName := some "p", phaseName := some "containerize", createdAt := 0,
    durationMs := some 1200, actionsTaken := some 1, tracksModified := some 0,
    metadataSnapshot := some snapshot }

/-- The same conversion, failed in some session. -/
def failed : TransitionRecord :=
  { converted with
    fromPath := none, toSize := 7, outcome := some .failure,
    metadataSnapshot := none, errorMessage := some "mkvmerge exited with 2", sessionId := some 1 }

/-- The tags of the converted file are edited a second later. -/
def edited : TransitionRecord :=
  { converted with
    id := 2, path := ⟨["films", "a.mkv"]⟩, fromPath := none, fromHash := some "k", toHash := "l",
    fromSize := some 5, toSize := 6, phaseName := some "tag", createdAt := 1,
    durationMs := none, tracksModified := some 1, metadataSnapshot := none }

/-- The edit is recorded before the conversion: the log returns them by their times. -/
theorem edits_round_trip :
    ∃ rows, recordAll env [edited, converted] [] = .ok rows ∧
      RoundTrips env [edited, converted] rows := by
  have htyped : ∀ t ∈ [edited, converted], t.Typed := by
    simp only [List.forall_mem_cons, List.not_mem_nil, IsEmpty.forall_iff, implies_true, and_true]
    constructor <;> constructor <;> simp [edited, converted, Path.Plain]
  obtain ⟨rows, hrows, hiff⟩ := transition_log_round_trips env_faithful htyped
    (by simp [edited, converted]) (by simpa [edited, converted] using env_keeps)
  refine ⟨rows, hrows, hiff.mpr ⟨?_, ?_, ?_⟩⟩
  · simp only [List.forall_mem_cons, List.not_mem_nil, IsEmpty.forall_iff, implies_true, and_true]
    constructor <;> constructor <;> simp [edited, converted]
  · simp only [List.forall_mem_cons, List.not_mem_nil, IsEmpty.forall_iff, implies_true, and_true]
    exact ⟨⟨rfl, rfl, fun s hs => by cases hs⟩, rfl, rfl, fun s hs => by cases hs; exact ⟨90, rfl⟩⟩
  · -- the later time has the longer text
    have hlater : ¬env.formatDatetime edited.createdAt ≤ env.formatDatetime converted.createdAt := by
      decide
    intro q _ t ht t' ht' _ _ hle
    simp only [List.mem_cons, List.not_mem_nil, or_false] at ht ht'
    rcases ht with rfl | rfl <;> rcases ht' with rfl | rfl
    · exact le_rfl
    · exact absurd hle hlater
    · exact Nat.zero_le _
    · exact le_rfl

/-- A failed transition is returned without its message and its session. -/
theorem failed_loses_message :
    ∃ rows, recordAll env [failed] [] = .ok rows ∧ ¬RoundTrips env [failed] rows := by
  have htyped : ∀ t ∈ [failed], t.Typed := by
    simp only [List.forall_mem_singleton]
    constructor <;> simp [failed, converted, Path.Plain]
  have hjson : ∀ t ∈ [failed], ∀ s ∈ t.metadataSnapshot, env.Keeps s := by
    simp [failed]
  refine ⟨_, recordAll_eq env_faithful [] (by simp), fun h => ?_⟩
  have hkept := (readable_of_roundTrips env_faithful htyped hjson (by simp) h).kept
  exact absurd (hkept failed (by simp)).sessionId nofun

end SampleLog

end Voom.Storage.Sqlite
