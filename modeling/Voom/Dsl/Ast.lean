-- SUMMARY: The syntax tree of the policy language, as the parser builds it.
import Voom.Domain.Json

namespace Voom.Dsl

/-- Where a node stands in the source, for error messages. -/
structure Span where
  start : Nat
  stop : Nat
  line : Nat
  col : Nat
  deriving DecidableEq, Repr, Inhabited

inductive CompareOp where
  | eq | ne | lt | le | gt | ge | in
  deriving DecidableEq, Repr, Inhabited

/-- A value; a number comes with its text. -/
inductive Value where
  | string (s : String)
  | number (n : F64) (raw : String)
  | bool (b : Bool)
  | ident (name : String)
  | list (items : List Value)
  | object (items : List (String × Value))
  | call (name : String) (args : List (String × Value))

inductive ValueOrField where
  | value (v : Value)
  | field (path : List String)

/-- Filters of `where` clauses. -/
inductive FilterNode where
  | langIn (languages : List String)
  | langCompare (op : CompareOp) (language : String)
  | langField (op : CompareOp) (path : List String)
  | codecIn (codecs : List String)
  | codecCompare (op : CompareOp) (codec : String)
  | codecField (op : CompareOp) (path : List String)
  | channels (op : CompareOp) (n : F64)
  | commentary
  | forced
  | default
  | font
  | titleContains (pattern : String)
  | titleMatches (pattern : String)
  | and (items : List FilterNode)
  | or (items : List FilterNode)
  | not (inner : FilterNode)

structure TrackQueryNode where
  target : String
  filter : Option FilterNode

structure TrackRefNode where
  target : String
  filter : Option FilterNode

/-- Conditions of `when` and `skip when`. -/
inductive ConditionNode where
  | exists (query : TrackQueryNode)
  | count (query : TrackQueryNode) (op : CompareOp) (n : F64)
  | fieldCompare (path : List String) (op : CompareOp) (value : Value)
  | fieldExists (path : List String)
  | audioIsMultiLanguage
  | isDubbed
  | isOriginal
  | and (items : List ConditionNode)
  | or (items : List ConditionNode)
  | not (inner : ConditionNode)

/-- Actions of a `when` block. -/
inductive ActionNode where
  | keep (target : String) (filter : Option FilterNode)
  | remove (target : String) (filter : Option FilterNode)
  | skip (phase : Option String)
  | warn (message : String)
  | fail (message : String)
  | setDefault (track : TrackRefNode)
  | setForced (track : TrackRefNode)
  | setLanguage (track : TrackRefNode) (value : ValueOrField)
  | setTag (tag : String) (value : ValueOrField)

structure WhenNode where
  condition : ConditionNode
  thenActions : List ActionNode
  elseActions : List ActionNode
  span : Span

structure RuleNode where
  name : String
  when : WhenNode

structure NormalizeSetting where
  preset : String
  settings : List (String × Value)

inductive SynthSetting where
  | codec (name : String)
  | channels (value : Value)
  | source (filter : FilterNode)
  | bitrate (text : String)
  | skipIfExists (filter : FilterNode)
  | createIf (condition : ConditionNode)
  | title (text : String)
  | language (text : String)
  | position (value : Value)
  | normalize (setting : NormalizeSetting)

inductive VerifyMode where
  | quick | thorough | hash
  deriving DecidableEq, Repr, Inhabited

inductive OperationNode where
  | container (name : String)
  | keep (target : String) (filter : Option FilterNode) (normalize : Option NormalizeSetting)
  | remove (target : String) (filter : Option FilterNode)
  | order (items : List String)
  | defaults (items : List (String × String))
  | actions (target : String) (settings : List (String × Value))
  | transcode (target codec : String) (settings : List (String × Value))
  | synthesize (name : String) (settings : List SynthSetting)
  | clearTags
  | setTag (tag : String) (value : ValueOrField)
  | deleteTag (tag : String)
  | when (node : WhenNode)
  | rules (mode : String) (rules : List RuleNode)
  | verify (mode : VerifyMode)

structure SpannedOperation where
  node : OperationNode
  span : Span

inductive ErrorStrategyNode where
  | continue | skip | abort | quarantine
  deriving DecidableEq, Repr, Inhabited

namespace ErrorStrategyNode

def fromToken : String → Option ErrorStrategyNode
  | "continue" => some .continue
  | "skip" => some .skip
  | "abort" => some .abort
  | "quarantine" => some .quarantine
  | _ => none

end ErrorStrategyNode

inductive RunIfTriggerNode where
  | modified | completed
  deriving DecidableEq, Repr, Inhabited

namespace RunIfTriggerNode

def fromToken : String → Option RunIfTriggerNode
  | "modified" => some .modified
  | "completed" => some .completed
  | _ => none

end RunIfTriggerNode

structure RunIfNode where
  phase : String
  trigger : RunIfTriggerNode
  deriving DecidableEq, Repr

structure PhaseNode where
  name : String
  extend : Bool := false
  skipWhen : Option ConditionNode := none
  dependsOn : Option (List String) := none
  runIf : Option RunIfNode := none
  onError : Option ErrorStrategyNode := none
  operations : List SpannedOperation := []
  span : Span := default

structure MetadataNode where
  version : Option String := none
  author : Option String := none
  description : Option String := none
  requiresVoom : Option String := none
  requiresTools : Option (List String) := none
  testFixtures : Option (List String) := none
  span : Span := default
  deriving DecidableEq, Repr

structure ConfigNode where
  audioLanguages : List String := []
  subtitleLanguages : List String := []
  onError : Option ErrorStrategyNode := none
  commentaryPatterns : List String := []
  keepBackups : Option Bool := none
  span : Span := default
  deriving DecidableEq, Repr

/-- The parent a policy extends. -/
inductive ExtendsSource where
  | bundled (name : String)
  | file (uri : String)
  deriving DecidableEq, Repr

/-- A whole policy file. -/
structure PolicyAst where
  name : String
  extendsSource : Option ExtendsSource := none
  metadata : Option MetadataNode := none
  config : Option ConfigNode := none
  phases : List PhaseNode := []
  span : Span := default

/-! ## Errors -/

inductive DslError where
  | parse (line col : Nat) (message : String) (suggestion : Option String)
  | build (line col : Nat) (message : String)
  | validation (line col : Nat) (message : String) (suggestion : Option String)
  | compile (message : String)
  deriving DecidableEq, Repr

/-- `DslError::validation` at a span. -/
def validationAt (span : Span) (message : String) : DslError :=
  .validation span.line span.col message none

namespace PhaseNode

/-- The phases a phase is declared to run after. -/
def deps (phase : PhaseNode) : List String := phase.dependsOn.getD []

end PhaseNode

end Voom.Dsl
