-- SUMMARY: The database schema and its migrations as scripts.
import Voom.Lib.Sql

/-!
# Schema

`create_schema` runs the fresh schema and then the migrations, each a script over
the layout of the database. Column types and the constraints inside a table are
left out: no statement of the scripts inserts a row.
-/

namespace Voom.Storage.Schema

open Voom.Lib.Sql

/-- A row by its columns; the others are null. -/
def row (values : List (String × Value)) : Row := fun c => (values.lookup c).getD .null

def index (name table : String) (columns : List String) : Stmt :=
  .createIndex { name, table, columns }

/-- A unique index; the one with `WHERE superseded_by IS NOT NULL` ignores the same rows
as any other does. -/
def uniqueIndex (name table : String) (columns : List String) : Stmt :=
  .createIndex { name, table, columns, unique := true }

/-! ## The fresh schema

The tables that the migrations create as well come first. -/

def discoveredFiles : Stmt :=
  .createTable "discovered_files"
    ["id", "path", "size", "content_hash", "status", "discovered_at", "updated_at"]

def healthChecks : Stmt :=
  .createTable "health_checks"
    ["id", "check_name", "passed", "details", "checked_at"]

def eventLog : Stmt :=
  .createTable "event_log"
    ["rowid", "id", "event_type", "payload", "summary", "created_at"]

def subtitles : Stmt :=
  .createTable "subtitles"
    ["id", "file_path", "subtitle_path", "language", "forced", "title", "created_at"]

def librarySnapshots : Stmt :=
  .createTable "library_snapshots"
    ["id", "captured_at", "trigger", "total_files", "total_size_bytes", "total_duration_secs",
     "snapshot_json"]

def pendingOperations : Stmt :=
  .createTable "pending_operations"
    ["id", "file_path", "phase_name", "started_at"]

def verifications : Stmt :=
  .createTable "verifications"
    ["id", "file_id", "verified_at", "mode", "outcome", "error_count", "warning_count",
     "content_hash", "details"]

def transcodeOutcomes : Stmt :=
  .createTable "transcode_outcomes"
    ["id", "file_id", "target_vmaf", "achieved_vmaf", "crf_used", "bitrate_used", "iterations",
     "sample_strategy", "fallback_used", "completed_at"]

def estimateRuns : Stmt :=
  .createTable "estimate_runs"
    ["id", "estimated_at", "file_count", "bytes_in", "bytes_out", "bytes_saved",
     "compute_time_ms", "wall_time_ms", "high_uncertainty_files", "net_loss_files"]

def estimateFiles : Stmt :=
  .createTable "estimate_files"
    ["id", "run_id", "file_index", "file_json"]

def costModelSamples : Stmt :=
  .createTable "cost_model_samples"
    ["id", "phase_name", "codec", "preset", "backend", "pixels_per_second",
     "output_size_ratio", "fixed_overhead_ms", "completed_at"]

def scanSessionMutations : Stmt :=
  .createTable "scan_session_mutations"
    ["session_id", "path", "kind", "recorded_at"]

/-- The statements of `SCHEMA_SQL`. -/
def schemaSql : List Stmt :=
  [ .createTable "files"
      ["id", "path", "filename", "size", "content_hash", "expected_hash", "status",
       "missing_since", "superseded_by", "container", "duration", "bitrate", "crop_left",
       "crop_top", "crop_right", "crop_bottom", "crop_detected_at",
       "crop_settings_fingerprint", "tags", "plugin_metadata", "introspected_at",
       "last_seen_session_id", "created_at", "updated_at"],
    .createTable "tracks"
      ["id", "file_id", "stream_index", "track_type", "codec", "language", "title",
       "is_default", "is_forced", "channels", "channel_layout", "sample_rate", "bit_depth",
       "loudness_integrated_lufs", "loudness_true_peak_db", "loudness_range_lu",
       "loudness_measured_at", "width", "height", "frame_rate", "is_vfr", "is_hdr",
       "hdr_format", "pixel_format", "color_primaries", "color_transfer", "color_matrix",
       "max_cll", "max_fall", "master_display", "dolby_vision_profile", "is_animation"],
    .createTable "jobs"
      ["id", "job_type", "status", "priority", "payload", "progress", "progress_message",
       "output", "error", "worker_id", "created_at", "started_at", "completed_at"],
    .createTable "plans"
      ["id", "file_id", "policy_name", "phase_name", "status", "actions", "warnings",
       "skip_reason", "policy_hash", "evaluated_at", "created_at", "executed_at", "result",
       "session_id"],
    .createTable "file_transitions"
      ["id", "file_id", "path", "from_path", "from_hash", "to_hash", "from_size", "to_size",
       "source", "source_detail", "plan_id", "duration_ms", "actions_taken", "tracks_modified",
       "outcome", "policy_name", "phase_name", "metadata_snapshot", "error_message",
       "session_id", "created_at"],
    index "idx_transitions_file" "file_transitions" ["file_id"],
    index "idx_transitions_source" "file_transitions" ["source"],
    index "idx_transitions_path" "file_transitions" ["path"],
    index "idx_transitions_from_path" "file_transitions" ["from_path"],
    .createTable "plugin_data"
      ["plugin_name", "key", "value", "updated_at"],
    .createTable "bad_files"
      ["id", "path", "size", "content_hash", "error", "error_source", "attempt_count",
       "first_seen_at", "last_seen_at"],
    discoveredFiles,
    index "idx_discovered_status" "discovered_files" ["status"],
    .createTable "scan_sessions"
      ["id", "roots_json", "status", "started_at", "finished_at", "last_heartbeat_at"],
    index "idx_scan_sessions_status" "scan_sessions" ["status"],
    healthChecks,
    index "idx_health_checks_name" "health_checks" ["check_name"],
    index "idx_health_checks_time" "health_checks" ["checked_at"],
    eventLog,
    index "idx_event_log_type" "event_log" ["event_type"],
    index "idx_files_path" "files" ["path"],
    index "idx_files_hash" "files" ["content_hash"],
    index "idx_files_expected_hash_status" "files" ["expected_hash", "status"],
    index "idx_files_superseded_by" "files" ["superseded_by"],
    uniqueIndex "idx_files_superseded_by_unique" "files" ["superseded_by"],
    index "idx_files_last_seen_session" "files" ["last_seen_session_id"],
    index "idx_tracks_file" "tracks" ["file_id"],
    index "idx_jobs_status" "jobs" ["status", "priority"],
    index "idx_plans_file" "plans" ["file_id"],
    index "idx_bad_files_path" "bad_files" ["path"],
    subtitles,
    index "idx_subtitles_file" "subtitles" ["file_path"],
    librarySnapshots,
    index "idx_snapshots_captured" "library_snapshots" ["captured_at"],
    index "idx_tracks_type" "tracks" ["track_type"],
    pendingOperations,
    verifications,
    index "idx_verifications_file" "verifications" ["file_id"],
    index "idx_verifications_outcome" "verifications" ["outcome"],
    index "idx_verifications_time" "verifications" ["verified_at"],
    index "idx_verifications_file_verified_at" "verifications" ["file_id", "verified_at"],
    transcodeOutcomes,
    index "idx_transcode_outcomes_file_completed" "transcode_outcomes" ["file_id", "completed_at"],
    estimateRuns,
    estimateFiles,
    index "idx_estimate_files_run" "estimate_files" ["run_id", "file_index"],
    costModelSamples,
    index "idx_cost_model_samples_key_completed" "cost_model_samples" ["phase_name", "codec", "preset", "backend", "completed_at"],
    scanSessionMutations,
    index "idx_scan_session_mutations_session" "scan_session_mutations" ["session_id"],
    .createTable "plugin_stats"
      ["rowid", "plugin_id", "event_type", "started_at", "duration_ms", "outcome",
       "error_category"],
    index "idx_plugin_stats_started" "plugin_stats" ["started_at"],
    index "idx_plugin_stats_plugin_started" "plugin_stats" ["plugin_id", "started_at"] ]

/-! ## Migrations -/

/-- `ALTER TABLE .. ADD COLUMN` unless `has_column` finds the column. -/
def addMissing (table column : String) (default : Value := .null) : Step :=
  { guards := [.columnMissing table column], body := [.addColumn table column default] }

/-- The same, for a table that may be missing. -/
def addMissingIfTable (table column : String) : Step :=
  { guards := [.tableExists table, .columnMissing table column],
    body := [.addColumn table column .null] }

def migrateTracksColumns : List Step :=
  ["is_animation", "loudness_integrated_lufs", "loudness_true_peak_db", "loudness_range_lu",
   "loudness_measured_at", "color_primaries", "color_transfer", "color_matrix", "max_cll",
   "max_fall", "master_display", "dolby_vision_profile"].map (addMissingIfTable "tracks")

def migratePlansColumns : List Step :=
  ["skip_reason", "policy_hash", "evaluated_at"].map (addMissingIfTable "plans")

def migrateFilesColumns : List Step :=
  [ addMissing "files" "expected_hash",
    addMissing "files" "status" (.text "active"),
    addMissing "files" "missing_since",
    addMissing "files" "superseded_by",
    addMissing "files" "crop_left",
    addMissing "files" "crop_top",
    addMissing "files" "crop_right",
    addMissing "files" "crop_bottom",
    addMissing "files" "crop_detected_at",
    addMissing "files" "crop_settings_fingerprint" ]

def migrateScanSessions : List Step :=
  [ { guards := [.columnMissing "files" "last_seen_session_id"],
      body :=
        [ .addColumn "files" "last_seen_session_id" .null,
          index "idx_files_last_seen_session" "files" ["last_seen_session_id"] ] },
    { guards := [.someTableMissing ["scan_sessions"]],
      body :=
        [ .createTable "scan_sessions" ["id", "roots_json", "status", "started_at", "finished_at"],
          index "idx_scan_sessions_status" "scan_sessions" ["status"] ] },
    { guards := [.tableExists "scan_sessions", .columnMissing "scan_sessions" "last_heartbeat_at"],
      body := [.addColumn "scan_sessions" "last_heartbeat_at" (.text "1970-01-01T00:00:00Z")] } ]

/-- A table without `original_path` is left as it is, whether it was just created or not. -/
def migrateScanSessionMutations : List Step :=
  [ { guards := [.someTableMissing ["scan_session_mutations"]],
      body :=
        [ scanSessionMutations,
          index "idx_scan_session_mutations_session" "scan_session_mutations" ["session_id"] ] },
    { guards := [.columnPresent "scan_session_mutations" "original_path"],
      body :=
        [ .dropTable "scan_session_mutations",
          scanSessionMutations,
          index "idx_scan_session_mutations_session" "scan_session_mutations" ["session_id"] ] } ]

def migrateTransitionsTable : List Step :=
  [ { guards := [.tableExists "file_history"], body := [.dropTable "file_history"] },
    { guards := [.someTableMissing ["file_transitions"]],
      body :=
        [ .createTable "file_transitions"
            ["id", "file_id", "path", "from_hash", "to_hash", "from_size", "to_size", "source",
             "source_detail", "plan_id", "created_at"],
          index "idx_transitions_file" "file_transitions" ["file_id"],
          index "idx_transitions_source" "file_transitions" ["source"] ] } ]

def migrateMissingTables : List Step :=
  [ { guards := [.someTableMissing ["discovered_files"]],
      body := [discoveredFiles, index "idx_discovered_status" "discovered_files" ["status"]] },
    { guards := [.someTableMissing ["health_checks"]],
      body :=
        [ healthChecks,
          index "idx_health_checks_name" "health_checks" ["check_name"],
          index "idx_health_checks_time" "health_checks" ["checked_at"] ] },
    { guards := [.someTableMissing ["event_log"]],
      body := [eventLog, index "idx_event_log_type" "event_log" ["event_type"]] },
    { guards := [.someTableMissing ["subtitles"]],
      body := [subtitles, index "idx_subtitles_file" "subtitles" ["file_path"]] },
    { guards := [.someTableMissing ["library_snapshots"]],
      body :=
        [librarySnapshots, index "idx_snapshots_captured" "library_snapshots" ["captured_at"]] },
    { guards := [.someTableMissing ["pending_operations"]],
      body := [pendingOperations] },
    { guards := [.someTableMissing ["verifications"]],
      body :=
        [ verifications,
          index "idx_verifications_file" "verifications" ["file_id"],
          index "idx_verifications_outcome" "verifications" ["outcome"],
          index "idx_verifications_time" "verifications" ["verified_at"],
          index "idx_verifications_file_verified_at" "verifications" ["file_id", "verified_at"] ] },
    { guards := [.someTableMissing ["transcode_outcomes"]],
      body :=
        [ transcodeOutcomes,
          index "idx_transcode_outcomes_file_completed" "transcode_outcomes"
            ["file_id", "completed_at"] ] },
    { guards := [.someTableMissing ["estimate_runs", "estimate_files"]],
      body :=
        [ estimateRuns, estimateFiles,
          index "idx_estimate_files_run" "estimate_files" ["run_id", "file_index"] ] },
    { guards := [.someTableMissing ["cost_model_samples"]],
      body :=
        [ costModelSamples,
          index "idx_cost_model_samples_key_completed" "cost_model_samples"
            ["phase_name", "codec", "preset", "backend", "completed_at"] ] } ]

/-- Create an index unless `has_index` finds it. -/
def addMissingIndex (guards : List Guard) (name table : String) (columns : List String) : Step :=
  { guards := guards ++ [.indexMissing name], body := [index name table columns] }

/-! ### Duplicate subtitles -/

def sameSubtitle (r r' : Row) : Bool :=
  r "file_path" = r' "file_path" && r "subtitle_path" = r' "subtitle_path"

/-- `SELECT MIN(id)` of the rows; `id` is an integer primary key. -/
def minId (rows : List Row) : Option Int :=
  (rows.filterMap fun r => match r "id" with | .integer n => some n | _ => none).min?

/-- The rows that `DELETE .. WHERE id NOT IN (SELECT MIN(id) .. GROUP BY ..)` leaves. -/
def isFirstSubtitle (rows : List Row) (r : Row) : Bool :=
  rows.any fun r' => (minId (rows.filter (sameSubtitle r'))).map .integer = some (r "id")

def dedupSubtitles : Step :=
  { guards := [.tableExists "subtitles", .indexMissing "idx_subtitles_unique"],
    body :=
      [ .delete "subtitles" isFirstSubtitle,
        uniqueIndex "idx_subtitles_unique" "subtitles" ["file_path", "subtitle_path"] ] }

def indexesBeforeSubtitles : List Step :=
  [ addMissingIndex [.tableExists "tracks"] "idx_tracks_type" "tracks" ["track_type"],
    addMissingIndex [.tableExists "transcode_outcomes"] "idx_transcode_outcomes_file_completed"
      "transcode_outcomes" ["file_id", "completed_at"],
    addMissingIndex [.tableExists "estimate_files"] "idx_estimate_files_run"
      "estimate_files" ["run_id", "file_index"],
    addMissingIndex [.tableExists "cost_model_samples"] "idx_cost_model_samples_key_completed"
      "cost_model_samples" ["phase_name", "codec", "preset", "backend", "completed_at"],
    addMissingIndex [] "idx_files_superseded_by" "files" ["superseded_by"],
    { guards := [.indexMissing "idx_files_superseded_by_unique"],
      body := [uniqueIndex "idx_files_superseded_by_unique" "files" ["superseded_by"]] } ]

def indexesAfterSubtitles : List Step :=
  [ addMissingIndex [.tableExists "jobs"] "idx_jobs_completed_at" "jobs" ["completed_at"],
    addMissingIndex [.tableExists "event_log"] "idx_event_log_created_at"
      "event_log" ["created_at"],
    addMissingIndex [.tableExists "file_transitions"] "idx_transitions_created_at"
      "file_transitions" ["created_at"],
    addMissingIndex [.tableExists "verifications"] "idx_verifications_file_verified_at"
      "verifications" ["file_id", "verified_at"],
    addMissingIndex [] "idx_files_expected_hash_status" "files" ["expected_hash", "status"] ]

def migrateIndexesAndConstraints : List Step :=
  indexesBeforeSubtitles ++ [dedupSubtitles] ++ indexesAfterSubtitles

/-! ### Transitions -/

def migrateProcessingStatsIntoTransitions : List Step :=
  ["duration_ms", "actions_taken", "tracks_modified", "outcome", "policy_name", "phase_name"].map
      (fun c => addMissing "file_transitions" c) ++
    [{ body := [.dropTable "processing_stats"] }]

def migrateMetadataSnapshotColumn : List Step :=
  [addMissing "file_transitions" "metadata_snapshot"]

def migrateExecutionCaptureColumns : List Step :=
  [ addMissingIfTable "file_transitions" "error_message",
    addMissingIfTable "file_transitions" "session_id",
    { guards := [.tableExists "file_transitions"],
      body := [index "idx_transitions_session" "file_transitions" ["session_id"]] },
    addMissingIfTable "plans" "session_id",
    { guards := [.tableExists "plans"],
      body := [index "idx_plans_session" "plans" ["session_id"]] } ]

def migrateFromPathColumn : List Step :=
  [ addMissing "file_transitions" "from_path",
    { body :=
        [ index "idx_transitions_path" "file_transitions" ["path"],
          index "idx_transitions_from_path" "file_transitions" ["from_path"] ] } ]

/-! ### Cover art -/

def isVideo (r : Row) : Bool := r "track_type" = .text "video"

def imageCodecs : List String := ["png", "bmp", "gif", "webp"]

def hasCodec (codecs : List String) (r : Row) : Bool := codecs.any fun c => r "codec" = .text c

def coverArtCandidate (r : Row) : Bool := isVideo r && hasCodec (imageCodecs ++ ["mjpeg"]) r

def toAttachment (r : Row) : Row := Function.update r "track_type" (.text "attachment")

/-- More than one video track in the file of the row. -/
def hasSiblingVideo (rows : List Row) (r : Row) : Bool :=
  r "file_id" ≠ .null &&
    1 < (rows.filter fun r' => isVideo r' && r' "file_id" = r "file_id").length

def reclassifyImages (_ : List Row) (r : Row) : Row :=
  if isVideo r && hasCodec imageCodecs r then toAttachment r else r

def reclassifyMjpeg (rows : List Row) (r : Row) : Row :=
  if isVideo r && hasCodec ["mjpeg"] r && hasSiblingVideo rows r then toAttachment r else r

def migrateCoverArtTrackTypes : List Step :=
  [ { guards := [.tableExists "tracks", .someRow "tracks" coverArtCandidate],
      body := [.update "tracks" reclassifyImages, .update "tracks" reclassifyMjpeg] } ]

/-! ## The whole script -/

def migrate : List Step :=
  migrateMissingTables ++ migrateTransitionsTable ++ migratePlansColumns ++ migrateFilesColumns ++
    migrateScanSessions ++ migrateTracksColumns ++ migrateIndexesAndConstraints ++
    migrateProcessingStatsIntoTransitions ++ migrateMetadataSnapshotColumn ++
    migrateExecutionCaptureColumns ++ migrateFromPathColumn ++ migrateCoverArtTrackTypes ++
    migrateScanSessionMutations

def createSchema (db : Database) : Except SqlError Database :=
  run ({ body := schemaSql } :: migrate) db

end Voom.Storage.Schema
