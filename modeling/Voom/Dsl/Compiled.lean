-- SUMMARY: Compiled policies, the form the evaluator works on.
import Voom.Domain.Plan

namespace Voom.Dsl

inductive TrackTarget where
  | video | audio | subtitle | attachment | any
  deriving DecidableEq, Repr, Inhabited

inductive CompiledCompareOp where
  | eq | ne | lt | le | gt | ge | in
  deriving DecidableEq, Repr, Inhabited

/-- A pattern the regex engine has accepted. -/
structure CompiledRegex where
  pattern : String
  deriving DecidableEq, Repr, Inhabited

inductive CompiledFilter where
  | langIn (languages : List String)
  | langCompare (op : CompiledCompareOp) (language : String)
  | langField (op : CompiledCompareOp) (path : List String)
  | codecIn (codecs : List String)
  | codecCompare (op : CompiledCompareOp) (codec : String)
  | codecField (op : CompiledCompareOp) (path : List String)
  | channels (op : CompiledCompareOp) (n : F64)
  | commentary
  | forced
  | default
  | font
  | titleContains (text : String)
  | titleMatches (regex : CompiledRegex)
  | and (items : List CompiledFilter)
  | or (items : List CompiledFilter)
  | not (inner : CompiledFilter)

inductive CompiledCondition where
  | exists (target : TrackTarget) (filter : Option CompiledFilter)
  | count (target : TrackTarget) (filter : Option CompiledFilter) (op : CompiledCompareOp)
      (value : F64)
  | fieldCompare (path : List String) (op : CompiledCompareOp) (value : Json)
  | fieldExists (path : List String)
  | audioIsMultiLanguage
  | isDubbed
  | isOriginal
  | and (items : List CompiledCondition)
  | or (items : List CompiledCondition)
  | not (inner : CompiledCondition)

inductive CompiledValueOrField where
  | value (json : Json)
  | field (path : List String)

inductive CompiledAction where
  | keep (target : TrackTarget) (filter : Option CompiledFilter)
  | remove (target : TrackTarget) (filter : Option CompiledFilter)
  | skip (phase : Option String)
  | warn (message : String)
  | fail (message : String)
  | setDefault (target : TrackTarget) (filter : Option CompiledFilter)
  | setForced (target : TrackTarget) (filter : Option CompiledFilter)
  | setLanguage (target : TrackTarget) (filter : Option CompiledFilter)
      (value : CompiledValueOrField)
  | setTag (tag : String) (value : CompiledValueOrField)

structure CompiledConditional where
  condition : CompiledCondition
  thenActions : List CompiledAction
  elseActions : List CompiledAction

structure CompiledRule where
  name : String
  conditional : CompiledConditional

inductive RulesMode where
  | first | all
  deriving DecidableEq, Repr, Inhabited

inductive DefaultStrategy where
  | firstPerLanguage | none | first | all
  deriving DecidableEq, Repr, Inhabited

structure CompiledDefault where
  target : TrackTarget
  strategy : DefaultStrategy
  deriving DecidableEq, Repr

structure ClearActionsSettings where
  clearAllDefault : Bool
  clearAllForced : Bool
  clearAllTitles : Bool
  deriving DecidableEq, Repr

structure CompiledTranscodeSettings where
  preserve : List String := []
  crf : Option Nat := none
  preset : Option String := none
  bitrate : Option String := none
  targetVmaf : Option Nat := none
  maxBitrate : Option String := none
  minBitrate : Option String := none
  sampleStrategy : Option SampleStrategy := none
  fallback : Option TranscodeFallback := none
  vmafOverrides : Option (List (String × Nat)) := none
  channels : Option TranscodeChannels := none
  hw : Option String := none
  hwFallback : Option Bool := none
  maxResolution : Option String := none
  scaleAlgorithm : Option String := none
  hdrMode : Option String := none
  preserveHdr : Option Bool := none
  tonemap : Option String := none
  hdrColorMetadata : Option String := none
  dolbyVision : Option String := none
  tune : Option String := none
  crop : Option CropSettings := none
  loudness : Option LoudnessNormalization := none
  deriving DecidableEq, Repr

inductive SynthPosition where
  | named (name : String)
  | index (n : Nat)
  deriving DecidableEq, Repr

inductive SynthLanguage where
  | inherit
  | fixed (language : String)
  deriving DecidableEq, Repr

structure CompiledSynthesize where
  name : String
  codec : Option String := none
  channels : Option TranscodeChannels := none
  source : Option CompiledFilter := none
  bitrate : Option String := none
  skipIfExists : Option CompiledFilter := none
  createIf : Option CompiledCondition := none
  title : Option String := none
  language : Option SynthLanguage := none
  position : Option SynthPosition := none
  loudness : Option LoudnessNormalization := none

inductive CompiledOperation where
  | setContainer (container : Container)
  | keep (target : TrackTarget) (filter : Option CompiledFilter)
  | remove (target : TrackTarget) (filter : Option CompiledFilter)
  | reorderTracks (order : List String)
  | setDefaults (defaults : List CompiledDefault)
  | clearActions (target : TrackTarget) (settings : ClearActionsSettings)
  | transcode (target : TrackTarget) (codec : String) (settings : CompiledTranscodeSettings)
  | normalizeAudio (target : TrackTarget) (filter : Option CompiledFilter)
      (settings : LoudnessNormalization)
  | synthesize (synth : CompiledSynthesize)
  | clearTags
  | setTag (tag : String) (value : CompiledValueOrField)
  | deleteTag (tag : String)
  | conditional (conditional : CompiledConditional)
  | rules (mode : RulesMode) (rules : List CompiledRule)
  | verify (mode : VerificationMode)

inductive ErrorStrategy where
  | continue | abort | skip | quarantine
  deriving DecidableEq, Repr, Inhabited

inductive RunIfTrigger where
  | modified | completed
  deriving DecidableEq, Repr, Inhabited

structure CompiledRunIf where
  phase : String
  trigger : RunIfTrigger
  deriving DecidableEq, Repr

inductive PhaseCompositionKind where
  | local | inherited | extended | overridden
  deriving DecidableEq, Repr, Inhabited

structure CompiledPhaseComposition where
  kind : PhaseCompositionKind := .local
  source : Option String := none
  addedOperations : Nat := 0
  deriving DecidableEq, Repr

structure CompiledPhase where
  name : String
  dependsOn : List String := []
  skipWhen : Option CompiledCondition := none
  runIf : Option CompiledRunIf := none
  onError : ErrorStrategy := .abort
  composition : CompiledPhaseComposition := {}
  operations : List CompiledOperation := []

structure CompiledMetadata where
  version : Option String := none
  author : Option String := none
  description : Option String := none
  requiresVoom : Option String := none
  requiresTools : List String := []
  testFixtures : List String := []
  extendsChain : List String := []
  deriving DecidableEq, Repr

structure CompiledConfig where
  audioLanguages : List String := []
  subtitleLanguages : List String := []
  onError : ErrorStrategy := .abort
  commentaryPatterns : List String := []
  keepBackups : Bool := false
  deriving DecidableEq, Repr

structure CompiledPolicy where
  name : String
  metadata : CompiledMetadata := {}
  config : CompiledConfig := {}
  phases : List CompiledPhase
  phaseOrder : List String
  sourceHash : String := ""

end Voom.Dsl
