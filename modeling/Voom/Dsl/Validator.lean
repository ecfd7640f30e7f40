-- SUMMARY: The semantic checks of the validator, with the errors they report.
import Voom.Dsl.Compiler

/-!
# Validator

Each check gives the list of its errors, in the order the program pushes them; warnings are
left out, since `validate` drops them.
-/

namespace Voom.Dsl

/-- `DslError::validation_with_suggestion` at a span. -/
def validationSuggesting (span : Span) (message suggestion : String) : DslError :=
  .validation span.line span.col message (some suggestion)

def quoted (text : String) : String := "\"" ++ text ++ "\""

def commaSeparated (items : List String) : String := ", ".intercalate items

/-- One error unless a condition holds. -/
def errorUnless (condition : Bool) (span : Span) (message : String) : List DslError :=
  if condition then [] else [validationAt span message]

/-! ## Names and numbers -/

def suggestFrom (input : String) (known : List String) : Option String :=
  suggestNearest (fun candidate => editDistance input.toList candidate.toList)
    (known.map fun k => (k, k))

def validateIdentAgainst (input kind : String) (known : List String) (span : Span) :
    List DslError :=
  if input ∈ known then []
  else
    let message := "unknown " ++ kind ++ " " ++ quoted input ++ ", expected one of: " ++
      commaSeparated known
    match suggestFrom input known with
    | some suggestion =>
      [validationSuggesting span message ("did you mean " ++ quoted suggestion ++ "?")]
    | none => [validationAt span message]

def validateTrackTarget (target : String) (span : Span) : List DslError :=
  errorUnless
    (["video", "audio", "subtitle", "subtitles", "attachment", "attachments", "track"].contains
      target)
    span ("unknown track target " ++ quoted target)

def validateCodec (codec : String) (span : Span) : List DslError :=
  if (normalizeCodec codec).isSome then []
  else
    let message := "unknown codec " ++ quoted codec
    match suggestCodec codec with
    | some suggestion =>
      [validationSuggesting span message ("did you mean " ++ quoted suggestion ++ "?")]
    | none => [validationAt span message]

def hasNumberSuffix (raw : String) : Bool :=
  match raw.toList.getLast? with
  | none => false
  | some c => !c.isDigit && c ≠ '.'

def validNumberSuffixes : List String := ["k", "K", "p", "m", "M", "g", "G"]

def validateNumberSuffix (raw : String) (span : Span) : List DslError :=
  let suffix := String.ofList (raw.toList.dropWhile fun c => c.isDigit || c = '.' || c = '-')
  errorUnless (suffix = "" || validNumberSuffixes.contains suffix) span
    ("unknown number suffix " ++ quoted suffix ++ " in " ++ quoted raw ++ ", expected one of: " ++
      commaSeparated validNumberSuffixes)

def validateValue (value : Value) (span : Span) : List DslError :=
  match value with
  | .number _ raw => validateNumberSuffix raw span
  | _ => []

def validateNamedOrNumeric (value : Value) (kind : String) (knownNames : List String)
    (numberCheck : F64 → String → Option String) (span : Span) : List DslError :=
  match value with
  | .number n raw => ((numberCheck n raw).map (validationAt span)).toList
  | .ident name => validateIdentAgainst name (kind ++ " value") knownNames span
  | _ =>
    [validationAt span ("invalid " ++ kind ++ " value, expected a number or one of: " ++
      commaSeparated knownNames)]

/-! ## Field paths -/

def knownFieldRoots : List String := ["plugin", "file", "video", "audio", "system"]

def phaseOutputFields : List String :=
  ["completed", "modified", "outcome", "error_count", "warning_count"]

/-- A `<phase>.<field>` reference. -/
def validatePhaseOutputPath (phase : String) (rest : List String) (span : Span) :
    List DslError :=
  match rest with
  | [] =>
    [validationAt span ("phase reference " ++ quoted phase ++
      " requires a field; expected one of: " ++ commaSeparated phaseOutputFields)]
  | [field] =>
    errorUnless (phaseOutputFields.contains field) span ("unknown phase output field " ++
      quoted (phase ++ "." ++ field) ++ "; expected one of: " ++
      commaSeparated phaseOutputFields)
  | field :: _ :: _ =>
    [validationAt span ("phase output " ++ quoted (phase ++ "." ++ field) ++
      " does not support nested fields")]

def validateFieldPath (phaseNames : List String) (path : List String) (span : Span) :
    List DslError :=
  match path with
  | [] => [validationAt span "empty field path in filter"]
  | head :: rest =>
    if head ∈ knownFieldRoots then []
    else if head ∈ phaseNames then validatePhaseOutputPath head rest span
    else
      [validationAt span ("unknown field root " ++ quoted head ++
        " in filter; expected one of: " ++ commaSeparated knownFieldRoots ++
        " or a declared phase name")]

/-! ## Filters and conditions -/

section
variable (env : CompileEnv) (phaseNames : List String)

def validateFilterLanguage (span : Span) (language : String) : List DslError :=
  errorUnless (isValidLanguage language) span
    ("unknown language code " ++ quoted language ++ " in filter")

def validateRegex (pattern : String) (span : Span) : List DslError :=
  errorUnless (env.regexNew pattern).isOk span
    ("invalid regex pattern in title matches: " ++ quoted pattern)

mutual

def validateFilter (span : Span) : FilterNode → List DslError
  | .langIn languages => languages.flatMap (validateFilterLanguage span)
  | .langCompare _ language => validateFilterLanguage span language
  | .langField _ path => validateFieldPath phaseNames path span
  | .codecField _ path => validateFieldPath phaseNames path span
  | .codecIn codecs => codecs.flatMap fun codec => validateCodec codec span
  | .codecCompare _ codec => validateCodec codec span
  | .and items => validateFilters span items
  | .or items => validateFilters span items
  | .titleMatches pattern => validateRegex env pattern span
  | .not inner => validateFilter span inner
  | .channels _ _ | .commentary | .forced | .default | .font | .titleContains _ => []

def validateFilters (span : Span) : List FilterNode → List DslError
  | [] => []
  | item :: rest => validateFilter span item ++ validateFilters span rest

end

def validateOptionalFilter (span : Span) : Option FilterNode → List DslError
  | none => []
  | some filter => validateFilter env phaseNames span filter

/-- A track target with its filter, the same check for queries, references and operations. -/
def validateTracks (span : Span) (target : String) (filter : Option FilterNode) :
    List DslError :=
  validateTrackTarget target span ++ validateOptionalFilter env phaseNames span filter

mutual

def validateCondition (span : Span) : ConditionNode → List DslError
  | .exists query => validateTracks env phaseNames span query.target query.filter
  | .count query _ _ => validateTracks env phaseNames span query.target query.filter
  | .fieldCompare path _ value => validateFieldPath phaseNames path span ++ validateValue value span
  | .fieldExists path => validateFieldPath phaseNames path span
  | .and items => validateConditions span items
  | .or items => validateConditions span items
  | .not inner => validateCondition span inner
  | .audioIsMultiLanguage | .isDubbed | .isOriginal => []

def validateConditions (span : Span) : List ConditionNode → List DslError
  | [] => []
  | item :: rest => validateCondition span item ++ validateConditions span rest

end

def validateSetLanguageValue (span : Span) : ValueOrField → List DslError
  | .value (.string s) =>
    errorUnless (isValidLanguage s) span
      ("unknown language code " ++ quoted s ++ " in set_language action")
  | .field path => validateFieldPath phaseNames path span
  | .value _ => []

def validateAction (span : Span) : ActionNode → List DslError
  | .keep target filter => validateTracks env phaseNames span target filter
  | .remove target filter => validateTracks env phaseNames span target filter
  | .setDefault track => validateTracks env phaseNames span track.target track.filter
  | .setForced track => validateTracks env phaseNames span track.target track.filter
  | .setLanguage track value =>
    validateTracks env phaseNames span track.target track.filter ++
      validateSetLanguageValue phaseNames span value
  | .setTag _ (.field path) => validateFieldPath phaseNames path span
  | .setTag _ (.value _) => []
  | .skip _ | .warn _ | .fail _ => []

def validateWhen (node : WhenNode) : List DslError :=
  validateCondition env phaseNames node.span node.condition ++
    node.thenActions.flatMap (validateAction env phaseNames node.span) ++
    node.elseActions.flatMap (validateAction env phaseNames node.span)

end

/-! ## Synthesize and normalize -/

def knownChannelNames : List String := ["mono", "stereo", "5.1", "surround", "7.1", "preserve"]

def knownPositionNames : List String := ["after_source", "last", "beginning"]

/-- Doubles beyond `u32::MAX`, and infinities. -/
def exceedsU32 (n : F64) : Bool := F64.lt (.finite 4294967295) n

/-- The number check of `channels` and `position`: no suffix, and an integer in range. `n.fract()`
of a NaN or an infinity is not zero. -/
def checkIndexNumber (kind wanted : String) (knownNames : List String) (tooSmall : F64 → Bool)
    (n : F64) (raw : String) : Option String :=
  if hasNumberSuffix raw then
    some ("invalid " ++ kind ++ " value " ++ quoted raw ++
      ", suffixed numbers are not valid here; expected a " ++ wanted ++ " integer or one of: " ++
      commaSeparated knownNames)
  else if !n.isIntegral || tooSmall n || exceedsU32 n then
    some ("invalid " ++ kind ++ " value " ++ quoted raw ++ ", expected a " ++ wanted ++
      " integer or one of: " ++ commaSeparated knownNames)
  else none

def checkChannelsNumber (n : F64) (raw : String) : Option String :=
  if raw = "5.1" ∨ raw = "7.1" then none
  else checkIndexNumber "channels" "positive" knownChannelNames (·.le (.finite 0)) n raw

def checkPositionNumber (n : F64) (raw : String) : Option String :=
  checkIndexNumber "position" "non-negative" knownPositionNames (·.lt (.finite 0)) n raw

def validateSynthChannels (value : Value) (span : Span) : List DslError :=
  validateNamedOrNumeric value "channels" knownChannelNames checkChannelsNumber span

def validateSynthPosition (value : Value) (span : Span) : List DslError :=
  validateNamedOrNumeric value "position" knownPositionNames checkPositionNumber span

def isNumberValue : Value → Bool
  | .number _ _ => true
  | _ => false

def validateNormalizeEntry (span : Span) (entry : String × Value) : List DslError :=
  if ["target_lufs", "true_peak_db", "lra_max", "tolerance_lufs"].contains entry.1 then
    errorUnless (isNumberValue entry.2) span (entry.1 ++ " must be a number")
  else [validationAt span ("unknown normalize setting " ++ quoted entry.1)]

def validateNormalizeSetting (setting : NormalizeSetting) (span : Span) : List DslError :=
  errorUnless (LoudnessPreset.parse setting.preset).isSome span
      ("unknown loudness preset " ++ quoted setting.preset) ++
    setting.settings.flatMap (validateNormalizeEntry span)

def validateSynthSetting (env : CompileEnv) (phaseNames : List String) (span : Span) :
    SynthSetting → List DslError
  | .codec name => validateCodec name span
  | .language text =>
    errorUnless (text = "inherit" || isValidLanguage text) span
      ("unknown language code " ++ quoted text)
  | .source filter => validateFilter env phaseNames span filter
  | .skipIfExists filter => validateFilter env phaseNames span filter
  | .channels value => validateSynthChannels value span
  | .position value => validateSynthPosition value span
  | .normalize setting => validateNormalizeSetting setting span
  -- the condition of `create_if` is not looked at
  | .bitrate _ | .title _ | .createIf _ => []

def validateSynthesizeOperation (env : CompileEnv) (phaseNames : List String)
    (settings : List SynthSetting) (span : Span) : List DslError :=
  settings.flatMap (validateSynthSetting env phaseNames span)

/-! ## Transcode settings -/

def knownTranscodeKeys : List String :=
  ["preserve", "crf", "preset", "bitrate", "target_vmaf", "max_bitrate", "min_bitrate",
    "sample_strategy", "fallback", "channels", "hw", "hw_fallback", "max_resolution",
    "scale_algorithm", "hdr_mode", "preserve_hdr", "tonemap", "hdr_color_metadata",
    "dolby_vision", "tune", "crop", "crop_sample_duration", "crop_sample_count",
    "crop_threshold", "crop_minimum", "crop_preserve_bottom_pixels", "crop_aspect_lock",
    "normalize"]

def isVmafOverrideKey (key : String) : Bool := (stripStart "target_vmaf_when " key).isSome

def validateTranscodeKeys (settings : List (String × Value)) (span : Span) : List DslError :=
  settings.flatMap fun entry =>
    if entry.1.utf8ByteSize > 64 then
      [validationAt span ("transcode setting key too long: " ++ quoted entry.1)]
    else if isVmafOverrideKey entry.1 then []
    else validateIdentAgainst entry.1 "transcode setting" knownTranscodeKeys span

/-- The codec type of a name for messages, with its article. -/
def describedCodecType : CodecType → String
  | .video => "a video"
  | .audio => "an audio"
  | .subtitle => "a subtitle"

def validateCodecTrackType (target codec : String) (span : Span) : List DslError :=
  let expected? : Option CodecType :=
    match target with
    | "video" => some .video
    | "audio" => some .audio
    | _ => none
  match expected?, codecType codec with
  | some expected, some actual =>
    errorUnless (actual = expected) span ("codec " ++ quoted codec ++ " is " ++
      describedCodecType actual ++ " codec but target is " ++ target)
  | _, _ => []

def describedKind : Value → String
  | .number _ _ => "number"
  | .bool _ => "boolean"
  | .list _ => "list"
  | .object _ => "object"
  | .call _ _ => "call"
  | _ => "unknown"

def validateIdentSetting (value : Value) (key : String) (valid : List String) (span : Span) :
    List DslError :=
  match valueAsName value with
  | some name => validateIdentAgainst name (key ++ " value") valid span
  | none =>
    [validationAt span (key ++ " must be a string or identifier, got " ++ describedKind value)]

def validateBoolSetting (value : Value) (key : String) (span : Span) : List DslError :=
  errorUnless (valueAsBool value).isSome span (key ++ " requires a boolean value")

def validHwValues : List String := ["auto", "nvenc", "qsv", "vaapi", "videotoolbox", "none"]

def validateHwSettings (settings : List (String × Value)) (span : Span) : List DslError :=
  (settings.flatMap fun entry =>
    if entry.1 = "hw" then validateIdentSetting entry.2 "hw" validHwValues span else []) ++
  errorUnless (!(settings.any (·.1 = "hw_fallback") && !settings.any (·.1 = "hw"))) span
    "hw_fallback has no effect without hw"

def videoOnlyKeys : List String :=
  ["hdr_mode", "preserve_hdr", "tonemap", "hdr_color_metadata", "dolby_vision", "tune",
    "scale_algorithm", "max_resolution", "target_vmaf", "max_bitrate", "min_bitrate",
    "sample_strategy", "fallback", "crop", "crop_sample_duration", "crop_sample_count",
    "crop_threshold", "crop_minimum", "crop_preserve_bottom_pixels", "crop_aspect_lock"]

def rejectVideoOnlyKeys (settings : List (String × Value)) (target : String) (span : Span) :
    List DslError :=
  settings.flatMap fun entry =>
    errorUnless (!(videoOnlyKeys.contains entry.1 || isVmafOverrideKey entry.1)) span
      (entry.1 ++ " is only valid for video transcodes, not " ++ target)

/-! ### Crop -/

def validateCropEnabled (cropEnabled : Bool) (key : String) (span : Span) : List DslError :=
  errorUnless cropEnabled span (key ++ " has no effect without crop: auto")

def validateCropMode (value : Value) (span : Span) : List DslError :=
  errorUnless (valueAsName value = some "auto") span "crop must be auto"

def validateCropPositiveInteger (value : Value) (key : String) (span : Span) : List DslError :=
  match valueAsU32 value with
  | none => [validationAt span (key ++ " must be a positive integer")]
  | some n => errorUnless (n ≠ 0) span (key ++ " must be greater than 0")

def validateCropIntegerBounds (value : Value) (key : String) (low high : Nat) (span : Span) :
    List DslError :=
  match valueAsU32 value with
  | none => [validationAt span (key ++ " must be an integer")]
  | some n =>
    errorUnless (low ≤ n && n ≤ high) span
      (key ++ " must be from " ++ toString low ++ " to " ++ toString high)

/-- `str::parse` of an unsigned integer below a bound: digits, with at most a plus before. -/
def parseUnsigned (bound : Nat) (text : String) : Option Nat :=
  let digits :=
    match text.toList with
    | '+' :: rest => rest
    | chars => chars
  if digits ≠ [] ∧ digits.all Char.isDigit then
    let n := digits.foldl (fun n c => n * 10 + (c.toNat - '0'.toNat)) 0
    if n < bound then some n else none
  else none

def isCropRatio (text : String) : Bool :=
  let width := text.toList.takeWhile (· ≠ '/')
  match text.toList.drop width.length with
  | [] => false
  | _ :: height =>
    match parseUnsigned (2 ^ 32) (String.ofList width),
        parseUnsigned (2 ^ 32) (String.ofList height) with
    | some w, some h => 0 < w && 0 < h
    | _, _ => false

def validateCropAspectLock (value : Value) (span : Span) : List DslError :=
  match value with
  | .list items =>
    items.flatMap fun item =>
      match valueAsString item with
      | none => [validationAt span "crop_aspect_lock entries must be ratios like 16/9"]
      | some ratio =>
        errorUnless (isCropRatio ratio) span
          ("invalid crop_aspect_lock ratio " ++ quoted ratio ++ ", expected WIDTH/HEIGHT")
  | _ => [validationAt span "crop_aspect_lock must be a list of ratios like [16/9, 4/3]"]

/-! ### Video settings -/

def validResolutions : List String := ["480p", "720p", "1080p", "1440p", "2160p", "4k", "8k"]

def validateMaxResolution (value : Value) (span : Span) : List DslError :=
  match valueAsString value with
  | some text =>
    errorUnless (validResolutions.contains text) span
      ("invalid max_resolution " ++ quoted text ++ ", expected one of: " ++
        commaSeparated validResolutions)
  | none =>
    [validationAt span
      "max_resolution must be a resolution value (e.g. 1080p, 720p, 4k, 2160p)"]

def validateVideoTranscodeSetting (cropEnabled : Bool) (span : Span) (entry : String × Value) :
    List DslError :=
  let value := entry.2
  match entry.1 with
  | "hdr_mode" => validateIdentSetting value "hdr_mode" ["preserve", "tonemap"] span
  | "preserve_hdr" => validateBoolSetting value "preserve_hdr" span
  | "tonemap" =>
    validateIdentSetting value "tonemap" ["bt2390", "hable", "mobius", "reinhard", "clip"] span
  | "hdr_color_metadata" => validateIdentSetting value "hdr_color_metadata" ["copy"] span
  | "dolby_vision" => validateIdentSetting value "dolby_vision" ["copy_rpu"] span
  | "tune" =>
    validateIdentSetting value "tune"
      ["film", "animation", "grain", "stillimage", "fastdecode", "zerolatency", "psnr", "ssim"]
      span
  | "scale_algorithm" =>
    validateIdentSetting value "scale_algorithm"
      ["lanczos", "bicubic", "bilinear", "neighbor", "area", "spline", "sinc"] span
  | "max_resolution" => validateMaxResolution value span
  | "crop" => validateCropMode value span
  | "crop_sample_duration" =>
    validateCropEnabled cropEnabled "crop_sample_duration" span ++
      validateCropPositiveInteger value "crop_sample_duration" span
  | "crop_sample_count" =>
    validateCropEnabled cropEnabled "crop_sample_count" span ++
      validateCropPositiveInteger value "crop_sample_count" span
  | "crop_threshold" =>
    validateCropEnabled cropEnabled "crop_threshold" span ++
      validateCropIntegerBounds value "crop_threshold" 0 255 span
  | "crop_minimum" =>
    validateCropEnabled cropEnabled "crop_minimum" span ++
      validateCropIntegerBounds value "crop_minimum" 0 4294967295 span
  | "crop_preserve_bottom_pixels" =>
    validateCropEnabled cropEnabled "crop_preserve_bottom_pixels" span ++
      validateCropIntegerBounds value "crop_preserve_bottom_pixels" 0 4294967295 span
  | "crop_aspect_lock" =>
    validateCropEnabled cropEnabled "crop_aspect_lock" span ++ validateCropAspectLock value span
  | _ => []

def validateVideoTranscodeSettings (settings : List (String × Value)) (span : Span) :
    List DslError :=
  let cropEnabled := settings.any fun entry =>
    entry.1 = "crop" ∧ valueAsName entry.2 = some "auto"
  settings.flatMap (validateVideoTranscodeSetting cropEnabled span)

/-! ### VMAF settings -/

def validateVmafTarget (value : Value) (key : String) (span : Span) : List DslError :=
  match valueAsU32 value with
  | none => [validationAt span (key ++ " must be an integer from 60 to 100")]
  | some target => errorUnless (60 ≤ target && target ≤ 100) span (key ++ " must be from 60 to 100")

def validateVmafOverride (path : String) (value : Value) (span : Span) : List DslError :=
  errorUnless (stripStart "content." path).isSome span
      "target_vmaf_when requires a content.<type> path" ++
    validateVmafTarget value "target_vmaf_when" span

/-- `parse_bitrate`; an amount that does not fit 64 bits is none. -/
def parseBitrate (raw : String) : Option Nat := do
  let digits := raw.toList.takeWhile Char.isDigit
  let value ← parseUnsigned (2 ^ 64) (String.ofList digits)
  let multiplier ←
    match String.ofList (raw.toList.drop digits.length) with
    | "k" | "K" => some 1000
    | "m" | "M" => some 1000000
    | "g" | "G" => some 1000000000
    | "" => some 1
    | _ => none
  if value * multiplier < 2 ^ 64 then some (value * multiplier) else none

/-- The bitrate of a setting, or the error. -/
def validateBitrateValue (value : Value) (key : String) (span : Span) : Except DslError Nat :=
  match valueAsString value with
  | none =>
    .error (validationAt span (key ++ " must be a bitrate string such as \"8M\" or \"500k\""))
  | some raw =>
    match parseBitrate raw with
    | none => .error (validationAt span (key ++ " has invalid bitrate " ++ quoted raw))
    | some rate => .ok rate

def validateSampleStrategy (value : Value) (span : Span) : List DslError :=
  let wrong := [validationAt span
    "sample_strategy must be full, scenes(count: N, duration: Ts), or uniform(count: N, duration: Ts)"]
  match value with
  | .ident name => if name = "full" then [] else wrong
  | .call name args =>
    if name = "scenes" ∨ name = "uniform" then
      errorUnless ((getSetting args "count").bind valueAsU32).isSome span
          (name ++ " sample_strategy requires integer count") ++
        errorUnless ((getSetting args "duration").bind valueAsString).isSome span
          (name ++ " sample_strategy requires duration")
    else wrong
  | _ => wrong

def validateTranscodeFallback (value : Value) (span : Span) : List DslError :=
  match value with
  | .object items =>
    (match (getSetting items "crf").bind valueAsU32 with
      | some crf => errorUnless (crf ≤ 51) span "fallback.crf must be from 0 to 51"
      | none => [validationAt span "fallback requires crf"]) ++
    errorUnless ((getSetting items "preset").bind valueAsString).isSome span
      "fallback requires preset"
  | _ => [validationAt span "fallback must be a nested block"]

/-- What the loop of `validate_vmaf_transcode_settings` carries. -/
structure VmafCheck where
  minBitrate : Option Nat := none
  maxBitrate : Option Nat := none
  errors : List DslError := []

def validateVmafSetting (span : Span) (check : VmafCheck) (entry : String × Value) : VmafCheck :=
  let reported (errors : List DslError) := { check with errors := check.errors ++ errors }
  match entry.1 with
  | "target_vmaf" => reported (validateVmafTarget entry.2 "target_vmaf" span)
  | "min_bitrate" =>
    match validateBitrateValue entry.2 "min_bitrate" span with
    | .ok rate => { check with minBitrate := some rate }
    | .error e => { reported [e] with minBitrate := none }
  | "max_bitrate" =>
    match validateBitrateValue entry.2 "max_bitrate" span with
    | .ok rate => { check with maxBitrate := some rate }
    | .error e => { reported [e] with maxBitrate := none }
  | "sample_strategy" => reported (validateSampleStrategy entry.2 span)
  | "fallback" => reported (validateTranscodeFallback entry.2 span)
  | key =>
    match stripStart "target_vmaf_when " key with
    | some path => reported (validateVmafOverride path entry.2 span)
    | none => check

def validateVmafTranscodeSettings (settings : List (String × Value)) (span : Span) :
    List DslError :=
  let check := settings.foldl (validateVmafSetting span) {}
  check.errors ++
    match check.minBitrate, check.maxBitrate with
    | some low, some high =>
      errorUnless (low ≤ high) span "min_bitrate must be less than or equal to max_bitrate"
    | _, _ => []

def validateTranscodeOperation (target codec : String) (settings : List (String × Value))
    (span : Span) : List DslError :=
  validateTrackTarget target span ++ validateCodec codec span ++
    validateCodecTrackType target codec span ++
    (settings.flatMap fun entry => validateValue entry.2 span) ++
    validateTranscodeKeys settings span ++ validateHwSettings settings span ++
    if target = "video" then
      validateVideoTranscodeSettings settings span ++ validateVmafTranscodeSettings settings span
    else rejectVideoOnlyKeys settings target span

/-! ## Operations and phases -/

def knownActionsKeys : List String := ["clear_all_default", "clear_all_forced", "clear_all_titles"]

def validateActionsSettings (settings : List (String × Value)) (span : Span) : List DslError :=
  settings.flatMap fun entry =>
    if entry.1 ∈ knownActionsKeys then
      errorUnless (valueAsBool entry.2).isSome span
        ("actions setting " ++ quoted entry.1 ++ " requires a boolean value")
    else validateIdentAgainst entry.1 "actions setting" knownActionsKeys span

def validOrderItems : List String :=
  ["video", "audio", "audio_main", "audio_alternate", "audio_commentary", "subtitle",
    "subtitles", "subtitle_main", "subtitle_forced", "subtitle_commentary", "attachment"]

def validateDefault (span : Span) (item : String × String) : List DslError :=
  errorUnless (["audio", "subtitle"].contains item.1) span
      ("invalid defaults kind " ++ quoted item.1) ++
    errorUnless (parseDefaultStrategy item.2).isSome span ("invalid defaults value " ++
      quoted item.2 ++ ", expected one of: first_per_language, none, first, all")

section
variable (env : CompileEnv) (phaseNames : List String)

def validateOperation (op : OperationNode) (span : Span) : List DslError :=
  match op with
  | .container name =>
    errorUnless (Container.fromExtension name ≠ .other) span (unknownContainer name)
  -- a normalize block of `keep` is not looked at
  | .keep target filter _ => validateTracks env phaseNames span target filter
  | .remove target filter => validateTracks env phaseNames span target filter
  | .transcode target codec settings => validateTranscodeOperation target codec settings span
  | .synthesize _ settings => validateSynthesizeOperation env phaseNames settings span
  | .when node => validateWhen env phaseNames node
  | .rules mode rules =>
    errorUnless (["first", "all"].contains mode) span
        ("invalid rules mode " ++ quoted mode ++ ", expected \"first\" or \"all\"") ++
      rules.flatMap fun rule => validateWhen env phaseNames rule.when
  | .order items =>
    items.flatMap fun item =>
      errorUnless (validOrderItems.contains item) span
        ("unknown track order item " ++ quoted item)
  | .defaults items => items.flatMap (validateDefault span)
  | .actions target settings =>
    validateTrackTarget target span ++ validateActionsSettings settings span
  | .clearTags => []
  | .setTag tag _ => errorUnless (tag ≠ "") span "set_tag requires a non-empty tag name"
  | .deleteTag tag => errorUnless (tag ≠ "") span "delete_tag requires a non-empty tag name"
  | .verify _ => []

def OperationNode.setTagKey? : OperationNode → Option String
  | .setTag tag _ => some tag
  | _ => none

def OperationNode.deleteTagKey? : OperationNode → Option String
  | .deleteTag tag => some tag
  | _ => none

def OperationNode.isClearTags : OperationNode → Bool
  | .clearTags => true
  | _ => false

/-- The `set_tag`s that stand before the last `clear_tags`. -/
def setBeforeClear : List SpannedOperation → List (Span × String)
  | [] => []
  | op :: rest =>
    (if rest.any (·.node.isClearTags) then (op.node.setTagKey?.map (op.span, ·)).toList else []) ++
      setBeforeClear rest

/-- `check_tag_conflicts`. The program reports the keys in the order of a hash set. -/
def checkTagConflicts (phase : PhaseNode) : List DslError :=
  let setKeys := (phase.operations.filterMap (·.node.setTagKey?)).eraseDups
  let deleteKeys := phase.operations.filterMap (·.node.deleteTagKey?)
  (setKeys.flatMap fun key =>
    errorUnless (!deleteKeys.contains key) phase.span
      ("tag " ++ quoted key ++ " is both set and deleted in phase " ++ quoted phase.name)) ++
  (setBeforeClear phase.operations).map fun entry =>
    validationAt entry.1 ("set_tag " ++ quoted entry.2 ++
      " appears before clear_tags and will be overwritten")

def broadTrackCategory (target : String) : String :=
  match target with
  | "video" => "video"
  | "audio" | "audio_main" | "audio_alternate" | "audio_commentary" => "audio"
  | "subtitle" | "subtitles" | "subtitle_main" | "subtitle_forced" | "subtitle_commentary" =>
    "subtitle"
  | "attachment" | "attachments" => "attachment"
  | other => other

/-- The target of a `keep`, and whether it has a filter. -/
def OperationNode.kept? : OperationNode → Option (String × Bool)
  | .keep target filter _ => some (target, filter.isSome)
  | _ => none

def OperationNode.removed? : OperationNode → Option (String × Bool)
  | .remove target filter => some (target, filter.isSome)
  | _ => none

def checkTrackConflicts (phase : PhaseNode) : List DslError :=
  let kept := phase.operations.filterMap (·.node.kept?)
  let removed := phase.operations.filterMap (·.node.removed?)
  kept.flatMap fun keep => removed.flatMap fun remove =>
    errorUnless
      (!(broadTrackCategory remove.1 = broadTrackCategory keep.1 && !keep.2 && !remove.2))
      phase.span ("conflicting keep and remove on " ++ quoted (broadTrackCategory keep.1) ++
        " in phase " ++ quoted phase.name)

def validateSkipWhen (phase : PhaseNode) : List DslError :=
  match phase.skipWhen with
  | none => []
  | some condition => validateCondition env phaseNames phase.span condition

def validatePhase (phase : PhaseNode) : List DslError :=
  errorUnless (!phase.extend) phase.span ("phase " ++ quoted phase.name ++
      " uses extend but policy composition was not resolved") ++
    validateSkipWhen env phaseNames phase ++
    (phase.operations.flatMap fun op => validateOperation env phaseNames op.node op.span) ++
    checkTagConflicts phase ++ checkTrackConflicts phase

end

/-! ## Policies -/

def validateConfig (ast : PolicyAst) : List DslError :=
  match ast.config with
  | none => []
  | some config =>
    (config.audioLanguages.flatMap fun language =>
      errorUnless (isValidLanguage language) config.span
        ("unknown audio language code " ++ quoted language)) ++
    config.subtitleLanguages.flatMap fun language =>
      errorUnless (isValidLanguage language) config.span
        ("unknown subtitle language code " ++ quoted language)

/-- An error for each phase whose name stands before it. -/
def duplicateNames (seen : List String) : List PhaseNode → List DslError
  | [] => []
  | phase :: rest =>
    errorUnless (!seen.contains phase.name) phase.span
        ("duplicate phase name " ++ quoted phase.name) ++
      duplicateNames (phase.name :: seen) rest

def validatePhaseNames (ast : PolicyAst) : List DslError := duplicateNames [] ast.phases

def validationErrors (env : CompileEnv) (ast : PolicyAst) : List DslError :=
  validateConfig ast ++ validatePhaseNames ast ++ validatePhaseReferences ast ++
    validateCycleDetection ast ++ validateReachability ast ++
    ast.phases.flatMap (validatePhase env ast.phaseNames)

def validate (env : CompileEnv) (ast : PolicyAst) : Except (List DslError) Unit :=
  let errors := validationErrors env ast
  if errors = [] then .ok () else .error errors

end Voom.Dsl
