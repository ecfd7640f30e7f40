-- SUMMARY: Compilation of syntax trees to compiled policies.
import Voom.Domain.Codecs
import Voom.Dsl.Compiled
import Voom.Dsl.Composition

/-!
# Compiler

A compilation ends in a policy, in an error, or in one of the compiler's `unreachable!`s,
which count on the validator. What the regex engine says of a pattern is a parameter.
-/

namespace Voom.Dsl

inductive CompileFailure where
  | error (error : DslError)
  | unreachable (message : String)
  deriving DecidableEq, Repr

/-- What the compiler leaves to libraries: the verdict on a pattern and the debug text of a
value. -/
structure CompileEnv where
  regexNew : String → Except String Unit
  debugValue : Value → String

/-- `safe_u32`: a double that is a 32-bit integer. -/
def safeU32 : F64 → Option Nat
  | .finite value =>
    if 0 ≤ value ∧ value ≤ 4294967295 ∧ value.den = 1 then some value.num.toNat else none
  | _ => none

/-! ## Parts that cannot fail -/

def compileCompareOp : CompareOp → CompiledCompareOp
  | .eq => .eq
  | .ne => .ne
  | .lt => .lt
  | .le => .le
  | .gt => .gt
  | .ge => .ge
  | .in => .in

def compileErrorStrategy : ErrorStrategyNode → ErrorStrategy
  | .continue => .continue
  | .skip => .skip
  | .abort => .abort
  | .quarantine => .quarantine

def compileRunIfTrigger : RunIfTriggerNode → RunIfTrigger
  | .modified => .modified
  | .completed => .completed

def parseDefaultStrategy : String → Option DefaultStrategy
  | "first_per_language" => some .firstPerLanguage
  | "none" => some .none
  | "first" => some .first
  | "all" => some .all
  | _ => none

/-- The canonical name of a codec, or the name itself. -/
def canonicalCodec (codec : String) : String := (normalizeCodec codec).getD codec

/-- Insertion into a JSON object, whose keys are sorted. -/
def insertField (key : String) (value : Json) : List (String × Json) → List (String × Json)
  | [] => [(key, value)]
  | (k, v) :: rest =>
    if key = k then (key, value) :: rest
    else if key < k then (key, value) :: (k, v) :: rest
    else (k, v) :: insertField key value rest

mutual

def valueToJson : Value → Json
  | .string s => .string s
  | .ident name => .string name
  | .number n _ => .ofF64 n
  | .bool b => .bool b
  | .list items => .array (valuesToJson items)
  | .object items => .object (fieldsToJson items [])
  | .call name args =>
    .object [("args", .object (fieldsToJson args [])), ("name", .string name)]

def valuesToJson : List Value → List Json
  | [] => []
  | item :: rest => valueToJson item :: valuesToJson rest

def fieldsToJson : List (String × Value) → List (String × Json) → List (String × Json)
  | [], fields => fields
  | (key, value) :: rest, fields => fieldsToJson rest (insertField key (valueToJson value) fields)

end

def compileValueOrField : ValueOrField → CompiledValueOrField
  | .value v => .value (valueToJson v)
  | .field path => .field path

/-- The text of a string, an identifier or a number. -/
def valueAsString : Value → Option String
  | .string s | .ident s | .number _ s => some s
  | _ => none

/-- The text of a string or an identifier. -/
def valueAsName : Value → Option String
  | .string s | .ident s => some s
  | _ => none

def valueAsU32 : Value → Option Nat
  | .number n _ => safeU32 n
  | _ => none

def valueAsBool : Value → Option Bool
  | .bool b => some b
  | _ => none

/-- The first setting under a key. -/
def getSetting (settings : List (String × Value)) (key : String) : Option Value :=
  (settings.find? (·.1 = key)).map (·.2)

def parseSampleStrategy : Option Value → Option SampleStrategy
  | some (.ident "full") => some .full
  | some (.call name args) => do
    if name = "scenes" ∨ name = "uniform" then
      let count ← (getSetting args "count").bind valueAsU32
      let duration ← (getSetting args "duration").bind valueAsString
      if name = "scenes" then some (.scenes count duration) else some (.uniform count duration)
    else none
  | _ => none

def parseTranscodeFallback : Option Value → Option TranscodeFallback
  | some (.object items) => do
    let crf ← (getSetting items "crf").bind valueAsU32
    let preset ← (getSetting items "preset").bind valueAsName
    return { crf, preset }
  | _ => none

/-- The text after a given beginning. -/
def stripStart (start text : String) : Option String :=
  if start.toList <+: text.toList then some (String.ofList (text.toList.drop start.length))
  else none

/-- Insertion into a map kept as a list of its entries. -/
def insertOverride (key : String) (target : Nat) : List (String × Nat) → List (String × Nat)
  | [] => [(key, target)]
  | (k, v) :: rest =>
    if key = k then (key, target) :: rest else (k, v) :: insertOverride key target rest

/-- The content type and score of a `target_vmaf_when` setting. -/
def vmafOverride (setting : String × Value) : Option (String × Nat) := do
  let path ← stripStart "target_vmaf_when " setting.1
  let contentType ← stripStart "content." path
  let target ← valueAsU32 setting.2
  return (contentType, target)

def parseVmafOverrides (settings : List (String × Value)) : Option (List (String × Nat)) :=
  let overrides := (settings.filterMap vmafOverride).foldl
    (fun overrides entry => insertOverride entry.1 entry.2 overrides) []
  if overrides = [] then none else some overrides

def compileCropSettings (settings : List (String × Value)) : Option CropSettings :=
  let getU32 (key : String) := (getSetting settings key).bind valueAsU32
  if (getSetting settings "crop").bind valueAsName = some "auto" then
    some {
      sampleDurationSecs := getU32 "crop_sample_duration"
      sampleCount := getU32 "crop_sample_count"
      threshold := (getU32 "crop_threshold").filter (· < 256)
      minimumCrop := getU32 "crop_minimum"
      preserveBottomPixels := getU32 "crop_preserve_bottom_pixels"
      aspectLock :=
        match getSetting settings "crop_aspect_lock" with
        | some (.list items) => items.filterMap valueAsString
        | _ => [] }
  else none

def normalizeFromPreset (name : String) : Option LoudnessNormalization :=
  (LoudnessPreset.parse name).map LoudnessPreset.defaults

def compileChannels : Value → Option TranscodeChannels
  | .number n _ => (safeU32 n).map .count
  | .ident s | .string s => some (.named s)
  | _ => none

def compileTranscodeSettings (settings : List (String × Value)) : CompiledTranscodeSettings :=
  let get := getSetting settings
  let getStr (key : String) := (get key).bind valueAsName
  let getText (key : String) := (get key).bind valueAsString
  { preserve :=
      match get "preserve" with
      | some (.list items) => items.filterMap valueAsString
      | _ => []
    crf := (get "crf").bind valueAsU32
    preset := getStr "preset"
    bitrate := getText "bitrate"
    targetVmaf := (get "target_vmaf").bind valueAsU32
    maxBitrate := getText "max_bitrate"
    minBitrate := getText "min_bitrate"
    sampleStrategy := parseSampleStrategy (get "sample_strategy")
    fallback := parseTranscodeFallback (get "fallback")
    vmafOverrides := parseVmafOverrides settings
    channels := (get "channels").bind compileChannels
    hw := getStr "hw"
    hwFallback := (get "hw_fallback").bind valueAsBool
    maxResolution := getText "max_resolution"
    scaleAlgorithm := getStr "scale_algorithm"
    hdrMode := getStr "hdr_mode"
    preserveHdr := (get "preserve_hdr").bind valueAsBool
    tonemap := getStr "tonemap"
    hdrColorMetadata := getStr "hdr_color_metadata"
    dolbyVision := getStr "dolby_vision"
    tune := getStr "tune"
    crop := compileCropSettings settings
    loudness := (getStr "normalize").bind normalizeFromPreset }

def compileMetadata (metadata : Option MetadataNode) (extendsChain : List String) :
    CompiledMetadata :=
  match metadata with
  | none => { extendsChain }
  | some metadata =>
    { version := metadata.version
      author := metadata.author
      description := metadata.description
      requiresVoom := metadata.requiresVoom
      requiresTools := metadata.requiresTools.getD []
      testFixtures := metadata.testFixtures.getD []
      extendsChain }

def compileConfig : Option ConfigNode → CompiledConfig
  | none => {}
  | some c =>
    { audioLanguages := c.audioLanguages
      subtitleLanguages := c.subtitleLanguages
      onError := (c.onError.map compileErrorStrategy).getD .abort
      commentaryPatterns := c.commentaryPatterns
      keepBackups := c.keepBackups.getD false }

def compilePhaseComposition : Option PhaseComposition → CompiledPhaseComposition
  | none | some .local => { kind := .local }
  | some (.inherited source) => { kind := .inherited, source := some source }
  | some (.extended source addedOperations) =>
    { kind := .extended, source := some source, addedOperations }
  | some (.overridden source) => { kind := .overridden, source := some source }

/-! ## Parts that can fail -/

section
variable (env : CompileEnv)

def parseTrackTarget : String → Except CompileFailure TrackTarget
  | "video" => .ok .video
  | "audio" => .ok .audio
  | "subtitle" | "subtitles" => .ok .subtitle
  | "attachment" | "attachments" => .ok .attachment
  | "track" => .ok .any
  | _ => .error (.unreachable "validator rejects unknown track targets")

def compileRegex (pattern : String) : Except CompileFailure CompiledRegex :=
  match env.regexNew pattern with
  | .ok () => .ok ⟨pattern⟩
  | .error e =>
    .error (.error (.compile ("invalid regex pattern '" ++ pattern ++ "': " ++ e)))

mutual

def compileFilter : FilterNode → Except CompileFailure CompiledFilter
  | .langIn languages => .ok (.langIn languages)
  | .langCompare op language => .ok (.langCompare (compileCompareOp op) language)
  | .langField op path => .ok (.langField (compileCompareOp op) path)
  | .codecCompare op codec => .ok (.codecCompare (compileCompareOp op) (canonicalCodec codec))
  | .codecField op path => .ok (.codecField (compileCompareOp op) path)
  | .codecIn codecs => .ok (.codecIn (codecs.map canonicalCodec))
  | .channels op n => .ok (.channels (compileCompareOp op) n)
  | .commentary => .ok .commentary
  | .forced => .ok .forced
  | .default => .ok .default
  | .font => .ok .font
  | .titleContains text => .ok (.titleContains text)
  | .titleMatches pattern => do
    let regex ← compileRegex env pattern
    return .titleMatches regex
  | .and items => do
    let compiled ← compileFilters items
    return .and compiled
  | .or items => do
    let compiled ← compileFilters items
    return .or compiled
  | .not inner => do
    let compiled ← compileFilter inner
    return .not compiled

def compileFilters : List FilterNode → Except CompileFailure (List CompiledFilter)
  | [] => .ok []
  | item :: rest => do
    let compiled ← compileFilter item
    let others ← compileFilters rest
    return compiled :: others

end

def compileOptionalFilter : Option FilterNode → Except CompileFailure (Option CompiledFilter)
  | none => .ok none
  | some filter => (compileFilter env filter).map some

mutual

def compileCondition : ConditionNode → Except CompileFailure CompiledCondition
  | .exists query => do
    let target ← parseTrackTarget query.target
    let filter ← compileOptionalFilter env query.filter
    return .exists target filter
  | .count query op n => do
    let target ← parseTrackTarget query.target
    let filter ← compileOptionalFilter env query.filter
    return .count target filter (compileCompareOp op) n
  | .fieldCompare path op value =>
    .ok (.fieldCompare path (compileCompareOp op) (valueToJson value))
  | .fieldExists path => .ok (.fieldExists path)
  | .audioIsMultiLanguage => .ok .audioIsMultiLanguage
  | .isDubbed => .ok .isDubbed
  | .isOriginal => .ok .isOriginal
  | .and items => do
    let compiled ← compileConditions items
    return .and compiled
  | .or items => do
    let compiled ← compileConditions items
    return .or compiled
  | .not inner => do
    let compiled ← compileCondition inner
    return .not compiled

def compileConditions : List ConditionNode → Except CompileFailure (List CompiledCondition)
  | [] => .ok []
  | item :: rest => do
    let compiled ← compileCondition item
    let others ← compileConditions rest
    return compiled :: others

end

def compileAction : ActionNode → Except CompileFailure CompiledAction
  | .keep target filter => do
    let target ← parseTrackTarget target
    let filter ← compileOptionalFilter env filter
    return .keep target filter
  | .remove target filter => do
    let target ← parseTrackTarget target
    let filter ← compileOptionalFilter env filter
    return .remove target filter
  | .skip phase => .ok (.skip phase)
  | .warn message => .ok (.warn message)
  | .fail message => .ok (.fail message)
  | .setDefault track => do
    let target ← parseTrackTarget track.target
    let filter ← compileOptionalFilter env track.filter
    return .setDefault target filter
  | .setForced track => do
    let target ← parseTrackTarget track.target
    let filter ← compileOptionalFilter env track.filter
    return .setForced target filter
  | .setLanguage track value => do
    let target ← parseTrackTarget track.target
    let filter ← compileOptionalFilter env track.filter
    return .setLanguage target filter (compileValueOrField value)
  | .setTag tag value => .ok (.setTag tag (compileValueOrField value))

def compileConditional (node : WhenNode) : Except CompileFailure CompiledConditional := do
  let condition ← compileCondition env node.condition
  let thenActions ← node.thenActions.mapM (compileAction env)
  let elseActions ← node.elseActions.mapM (compileAction env)
  return { condition, thenActions, elseActions }

def compileNormalize (setting : NormalizeSetting) :
    Except CompileFailure LoudnessNormalization :=
  match LoudnessPreset.parse setting.preset with
  | none =>
    .error (.error (.compile ("unknown loudness preset '" ++ setting.preset ++ "'")))
  | some preset =>
    .ok (setting.settings.foldl
      (fun loudness entry =>
        match entry with
        | ("target_lufs", .number n _) => { loudness with targetLufs := n }
        | ("true_peak_db", .number n _) => { loudness with truePeakDb := n }
        | ("lra_max", .number n _) => { loudness with lraMax := some n }
        | ("tolerance_lufs", .number n _) => { loudness with toleranceLufs := n }
        | _ => loudness)
      preset.defaults)

/-- One setting of a `synthesize` block. -/
def compileSynthSetting (synth : CompiledSynthesize) :
    SynthSetting → Except CompileFailure CompiledSynthesize
  | .codec name => .ok { synth with codec := some (canonicalCodec name) }
  | .channels value => .ok { synth with channels := compileChannels value }
  | .source filter => do
    let source ← compileFilter env filter
    return { synth with source := some source }
  | .bitrate text => .ok { synth with bitrate := some text }
  | .skipIfExists filter => do
    let skipIfExists ← compileFilter env filter
    return { synth with skipIfExists := some skipIfExists }
  | .createIf condition => do
    let createIf ← compileCondition env condition
    return { synth with createIf := some createIf }
  | .title text => .ok { synth with title := some text }
  | .language text =>
    .ok { synth with language := some (if text = "inherit" then .inherit else .fixed text) }
  | .position value =>
    .ok { synth with
      position := some (
        match value with
        | .number n _ => .index ((safeU32 n).getD 0)
        | .ident name => .named name
        | other => .named (env.debugValue other)) }
  | .normalize setting => do
    let loudness ← compileNormalize setting
    return { synth with loudness := some loudness }

def compileSynthesize (name : String) (settings : List SynthSetting) :
    Except CompileFailure CompiledSynthesize :=
  settings.foldlM (compileSynthSetting env) { name }

def compileRule (rule : RuleNode) : Except CompileFailure CompiledRule := do
  let conditional ← compileConditional env rule.when
  return { name := rule.name, conditional }

def compileDefault (item : String × String) : Except CompileFailure CompiledDefault := do
  let target ← parseTrackTarget item.1
  return { target, strategy := (parseDefaultStrategy item.2).getD .none }

def compileRulesMode : String → Except CompileFailure RulesMode
  | "first" => .ok .first
  | "all" => .ok .all
  | _ => .error (.unreachable "validator rejects unknown rules modes")

def unknownContainer (name : String) : String :=
  "unknown container '" ++ name ++ "'; expected one of: " ++
    ", ".intercalate Container.knownExtensions

def compileVerifyMode : VerifyMode → VerificationMode
  | .quick => .quick
  | .thorough => .thorough
  | .hash => .hash

def compileOperation : OperationNode → Except CompileFailure CompiledOperation
  | .container name =>
    let container := Container.fromExtension name
    if container = .other then .error (.error (.compile (unknownContainer name)))
    else .ok (.setContainer container)
  | .keep target filter normalize => do
    let target ← parseTrackTarget target
    let filter ← compileOptionalFilter env filter
    match normalize with
    | none => return .keep target filter
    | some setting =>
      let settings ← compileNormalize setting
      return .normalizeAudio target filter settings
  | .remove target filter => do
    let target ← parseTrackTarget target
    let filter ← compileOptionalFilter env filter
    return .remove target filter
  | .order items => .ok (.reorderTracks items)
  | .defaults items => do
    let defaults ← items.mapM compileDefault
    return .setDefaults defaults
  | .actions target settings => do
    let boolSetting (key : String) := ((getSetting settings key).bind valueAsBool).getD false
    let target ← parseTrackTarget target
    return .clearActions target {
      clearAllDefault := boolSetting "clear_all_default"
      clearAllForced := boolSetting "clear_all_forced"
      clearAllTitles := boolSetting "clear_all_titles" }
  | .transcode target codec settings => do
    let target ← parseTrackTarget target
    return .transcode target (canonicalCodec codec) (compileTranscodeSettings settings)
  | .synthesize name settings => do
    let synth ← compileSynthesize env name settings
    return .synthesize synth
  | .clearTags => .ok .clearTags
  | .setTag tag value => .ok (.setTag tag (compileValueOrField value))
  | .deleteTag tag => .ok (.deleteTag tag)
  | .when node => do
    let conditional ← compileConditional env node
    return .conditional conditional
  | .rules mode rules => do
    let compiled ← rules.mapM (compileRule env)
    let mode ← compileRulesMode mode
    return .rules mode compiled
  | .verify mode => .ok (.verify (compileVerifyMode mode))

def compileOptionalCondition :
    Option ConditionNode → Except CompileFailure (Option CompiledCondition)
  | none => .ok none
  | some condition => (compileCondition env condition).map some

def compilePhase (phase : PhaseNode) (composition : Option PhaseComposition) :
    Except CompileFailure CompiledPhase :=
  if phase.extend then
    .error (.error (.compile ("phase \"" ++ phase.name ++
      "\" uses extend but policy composition was not resolved")))
  else do
    let skipWhen ← compileOptionalCondition env phase.skipWhen
    let operations ← phase.operations.mapM fun spanned => compileOperation env spanned.node
    return {
      name := phase.name
      dependsOn := phase.deps
      skipWhen
      runIf := phase.runIf.map fun r => ⟨r.phase, compileRunIfTrigger r.trigger⟩
      onError := (phase.onError.map compileErrorStrategy).getD .abort
      composition := compilePhaseComposition composition
      operations }

variable (partition : PartitionPoint)

def compileAstWithComposition (ast : PolicyAst) (extendsChain : List String)
    (phaseSources : String → Option PhaseComposition) : Except CompileFailure CompiledPolicy := do
  let phases ← ast.phases.mapM fun phase => compilePhase env phase (phaseSources phase.name)
  let phaseOrder ← (topologicalSort partition ast).mapError .error
  return {
    name := ast.name
    metadata := compileMetadata ast.metadata extendsChain
    config := compileConfig ast.config
    phases
    phaseOrder }

def compileAst (ast : PolicyAst) : Except CompileFailure CompiledPolicy :=
  compileAstWithComposition env partition ast [] (fun _ => none)

def compileResolvedAst (resolved : ResolvedPolicyAst) : Except CompileFailure CompiledPolicy :=
  compileAstWithComposition env partition resolved.ast resolved.extendsChain
    resolved.phaseSources

end

end Voom.Dsl
