-- SUMMARY: Track filters and conditions of compiled policies, evaluated on a media file.
import Voom.Domain.Codecs
import Voom.Domain.Text
import Voom.Dsl.Compiled

namespace Voom.Evaluator

open Dsl

/-- What evaluation leaves to libraries: Unicode lower case, the regex engine, the text of a
JSON document, and the arithmetic and printing of doubles. -/
structure EvalEnv where
  toLowercase : String → String
  isMatch : CompiledRegex → String → Bool
  jsonToString : Json → String
  sub : F64 → F64 → F64
  ofInt : Int → F64
  formatTenths : F64 → String

/-! ## Capabilities -/

/-- `normalize_hwaccel`. -/
def normalizeHwaccel (raw : String) : String :=
  match toAsciiLowercase raw with
  | "cuda" | "nvdec" | "nvenc" => "nvenc"
  | "qsv" => "qsv"
  | "vaapi" => "vaapi"
  | "videotoolbox" => "videotoolbox"
  | _ => "unknown"

/-- What the executors reported at start, each under its plugin's name. The program keeps
them in a hash map; the list is its order of iteration. -/
structure CapabilityMap where
  executors : List (String × List String) := []
  deriving DecidableEq, Repr

namespace CapabilityMap

/-- The acceleration backends of all executors, each once. -/
def hwAccels (caps : CapabilityMap) : List String :=
  (caps.executors.flatMap (fun e => e.2.map normalizeHwaccel)).eraseDups

def hasHwaccel (caps : CapabilityMap) (backend : String) : Bool :=
  caps.hwAccels.contains backend

def bestHwaccel (caps : CapabilityMap) : String :=
  (["nvenc", "qsv", "vaapi", "videotoolbox"].find? caps.hwAccels.contains).getD "none"

end CapabilityMap

/-- What a phase left for later phases to ask about. -/
structure PhaseOutput where
  completed : Bool := false
  modified : Bool := false
  outcome : Option String := none
  errorCount : Nat := 0
  warningCount : Nat := 0
  deriving DecidableEq, Repr

structure EvalContext where
  capabilities : Option CapabilityMap := none
  phaseOutputLookup : Option (String → Option PhaseOutput) := none

/-! ## Fields -/

def resolvePhaseField (ctx : EvalContext) (phase : String) (path : List String) :
    Option Json :=
  match path with
  | [field] => do
    let lookup ← ctx.phaseOutputLookup
    let out ← lookup phase
    match field with
    | "outcome" => out.outcome.map .string
    | "completed" => some (.bool out.completed)
    | "modified" => some (.bool out.modified)
    | "error_count" => some (.ofNat out.errorCount)
    | "warning_count" => some (.ofNat out.warningCount)
    | _ => none
  | _ => none

def resolveSystemField (path : List String) (ctx : EvalContext) : Option Json :=
  match path with
  | [] => none
  | field :: _ => do
    let caps ← ctx.capabilities
    match field with
    | "hwaccel" => some (.string caps.bestHwaccel)
    | "has_hwaccel" => some (.bool (caps.bestHwaccel != "none"))
    | "hwaccels" => some (.array (caps.hwAccels.map .string))
    | _ => none

def resolveTrackField (track : Track) (path : List String) : Option Json :=
  match path with
  | [] => none
  | field :: _ =>
    match field with
    | "codec" => some (.string track.codec)
    | "language" | "lang" => some (.string track.language)
    | "title" => some (.string track.title)
    | "channels" => track.channels.map .ofNat
    | "width" => track.width.map .ofNat
    | "height" => track.height.map .ofNat
    | "frame_rate" => track.frameRate.map .ofF64
    | "is_default" => some (.bool track.isDefault)
    | "is_forced" => some (.bool track.isForced)
    | "is_hdr" => some (.bool track.isHdr)
    | "is_vfr" => some (.bool track.isVfr)
    | "hdr_format" => track.hdrFormat.map .string
    | _ => none

def resolveVideoField (file : MediaFile) (path : List String) : Option Json :=
  file.videoTracks.head?.bind (resolveTrackField · path)

def resolveAudioField (file : MediaFile) (path : List String) : Option Json :=
  file.audioTracks.head?.bind (resolveTrackField · path)

def resolvePluginField (file : MediaFile) (path : List String) : Option Json :=
  match path with
  | [] => none
  | plugin :: keys =>
    keys.foldl (fun current key => current.bind (Json.get key))
      (file.pluginMetadata.lookup plugin)

def resolveFileField (file : MediaFile) (path : List String) : Option Json :=
  match path with
  | [] => none
  | field :: _ =>
    match field with
    | "container" => some (.string file.container.asStr)
    | "size" => some (.ofNat file.size)
    | "duration" => some (.ofF64 file.duration)
    | "path" => some (.string file.path.display)
    | "filename" => file.path.fileName.map .string
    | tag => (file.tags.lookup tag).map .string

/-- Resolve a field path. A leading name that is no root is taken for a phase. -/
def resolveField (file : MediaFile) (path : List String) (ctx : EvalContext) : Option Json :=
  match path with
  | [] => none
  | "video" :: rest => resolveVideoField file rest
  | "audio" :: rest => resolveAudioField file rest
  | "plugin" :: rest => resolvePluginField file rest
  | "file" :: rest => resolveFileField file rest
  | "system" :: rest => resolveSystemField rest ctx
  | phase :: rest => resolvePhaseField ctx phase rest

/-! ## Comparisons -/

/-- Texts are only compared for equality here. -/
def compareString (left : String) (op : CompiledCompareOp) (right : String) : Bool :=
  match op with
  | .eq => left = right
  | .ne => left ≠ right
  | _ => false

def compareF64 (env : EvalEnv) (left : F64) (op : CompiledCompareOp) (right : F64) : Bool :=
  match op with
  | .eq => F64.lt (env.sub left right).abs F64.epsilon
  | .ne => F64.le F64.epsilon (env.sub left right).abs
  | .lt => F64.lt left right
  | .le => F64.le left right
  | .gt => F64.lt right left
  | .ge => F64.le right left
  | .in => false

/-- `Number::as_f64`. -/
def numberAsF64 (env : EvalEnv) : JsonNumber → F64
  | .int n => env.ofInt n
  | .float value => .finite value

def compareJson (env : EvalEnv) (left : Json) (op : CompiledCompareOp) (right : Json) : Bool :=
  match left, right with
  | .number l, .number r => compareF64 env (numberAsF64 env l) op (numberAsF64 env r)
  | .string l, .string r =>
    match op with
    | .eq => l = r
    | .ne => l ≠ r
    | .lt => l < r
    | .le => !decide (r < l)
    | .gt => r < l
    | .ge => !decide (l < r)
    | .in => false
  | .bool l, .bool r =>
    match op with
    | .eq => l = r
    | .ne => l ≠ r
    | _ => false
  | _, _ => false

/-- Equality of JSON values, numbers compared as doubles. -/
def jsonValuesEqual (env : EvalEnv) (a b : Json) : Bool :=
  match a, b with
  | .number l, .number r => numberAsF64 env l = numberAsF64 env r
  | _, _ => a = b

/-! ## Filters -/

def isCommentaryTrack (track : Track) : Bool :=
  track.trackType = .audioCommentary ∨ track.trackType = .subtitleCommentary

def isFontAttachment (env : EvalEnv) (track : Track) : Bool :=
  let codec := env.toLowercase track.codec
  let title := env.toLowercase track.title
  track.trackType = .attachment &&
    (containsText codec "font" || containsText codec "ttf" || containsText codec "otf" ||
      endsWith title ".ttf" || endsWith title ".otf" || endsWith title ".woff")

/-- The text a field resolves to. -/
def resolveFieldStr (file : MediaFile) (ctx : EvalContext) (path : List String) :
    Option String :=
  match resolveField file path ctx with
  | some (.string s) => some s
  | _ => none

def tracksForTarget (file : MediaFile) : TrackTarget → List Track
  | .video => file.videoTracks
  | .audio => file.audioTracks
  | .subtitle => file.subtitleTracks
  | .attachment => file.tracksOfType .attachment
  | .any => file.tracks

section

variable (env : EvalEnv) (file : MediaFile) (ctx : EvalContext)

mutual

/-- `track_matches_with_context`. -/
def trackMatches (track : Track) : CompiledFilter → Bool
  | .langIn languages => languages.contains track.language
  | .langCompare op language => compareString track.language op language
  | .langField op path =>
    (resolveFieldStr file ctx path).any (compareString track.language op)
  | .codecIn codecs => codecs.contains track.codec
  | .codecCompare op codec => compareString track.codec op codec
  | .codecField op path => (resolveFieldStr file ctx path).any (compareString track.codec op)
  | .channels op n => track.channels.any (fun ch => compareF64 env (.finite ch) op n)
  | .commentary => isCommentaryTrack track
  | .forced => track.isForced
  | .default => track.isDefault
  | .font => isFontAttachment env track
  | .titleContains text => containsText (env.toLowercase track.title) (env.toLowercase text)
  | .titleMatches regex => env.isMatch regex track.title
  | .and items => trackMatchesAll track items
  | .or items => trackMatchesAny track items
  | .not inner => !trackMatches track inner

def trackMatchesAll (track : Track) : List CompiledFilter → Bool
  | [] => true
  | item :: rest => trackMatches track item && trackMatchesAll track rest

def trackMatchesAny (track : Track) : List CompiledFilter → Bool
  | [] => false
  | item :: rest => trackMatches track item || trackMatchesAny track rest

end

/-! ## Conditions -/

/-- The number of audio languages, `und` not counted. -/
def audioLangCount : Nat :=
  ((file.audioTracks.map (·.language)).filter (· ≠ "und")).eraseDups.length

def evaluateFieldCompare (path : List String) (op : CompiledCompareOp) (value : Json) : Bool :=
  match resolveField file path ctx with
  | none => false
  | some resolved =>
    match op, value with
    | .in, .array items => items.any (jsonValuesEqual env resolved)
    | .in, _ => false
    | op, value => compareJson env resolved op value

mutual

def evaluateCondition : CompiledCondition → Bool
  | .exists target none => !(tracksForTarget file target).isEmpty
  | .exists target (some f) => (tracksForTarget file target).any (trackMatches env file ctx · f)
  | .count target none op value =>
    compareF64 env (env.ofInt (tracksForTarget file target).length) op value
  | .count target (some f) op value =>
    compareF64 env
      (env.ofInt ((tracksForTarget file target).countP (trackMatches env file ctx · f))) op value
  | .fieldCompare path op value => evaluateFieldCompare env file ctx path op value
  | .fieldExists path => (resolveField file path ctx).isSome
  | .audioIsMultiLanguage => decide (audioLangCount file > 1)
  | .isDubbed => decide (audioLangCount file > 1) && !file.subtitleTracks.isEmpty
  | .isOriginal => decide (audioLangCount file ≤ 1)
  | .and items => evaluateAll items
  | .or items => evaluateAny items
  | .not inner => !evaluateCondition inner

def evaluateAll : List CompiledCondition → Bool
  | [] => true
  | item :: rest => evaluateCondition item && evaluateAll rest

def evaluateAny : List CompiledCondition → Bool
  | [] => false
  | item :: rest => evaluateCondition item || evaluateAny rest

end

/-- The text a value or a field stands for. -/
def resolveValueOrField : CompiledValueOrField → Option String
  | .value (.string s) => some s
  | .value other => some (env.jsonToString other)
  | .field path =>
    (resolveField file path ctx).map fun
      | .string s => s
      | other => env.jsonToString other

end

end Voom.Evaluator
