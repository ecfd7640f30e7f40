-- SUMMARY: From the parse trees of the grammar to syntax trees.
import Voom.Domain.Text
import Voom.Dsl.Ast

/-!
# Parser

What the grammar makes of a text is a parameter; the functions below turn any tree of rules into
a syntax tree, an error, or a failed `unwrap`, which counts on the grammar.
-/

namespace Voom.Dsl

/-! ## Parse trees -/

/-- The rules of the grammar that leave a node in the tree. -/
inductive Rule where
  | policy | extendsClause | metadata | metadataItem | config | configItem | langTarget
  | phase | phaseExtend | phaseItem | skipWhen | dependsOn | runIf | runIfTrigger | onError
  | clearTagsOp | setTagOp | deleteTagOp | containerOp | keepOp | removeOp | trackTarget
  | whereClause | keepBlock | normalizeBlock | loudnessPreset | orderOp | defaultsOp | defaultItem
  | actionsOp | actionSetting | transcodeOp | transcodeBlock | transcodeKvPair | transcodeValue
  | sampleStrategy | sampleStrategyKind | sampleStrategyArg | transcodeFallback
  | transcodeVmafOverride | verifyOp | verifyMode | block | kvPair | synthesizeOp | synthItem
  | sourcePref | whenBlock | elseBlock | rulesBlock | matchMode | ruleItem | condition
  | conditionOr | conditionAnd | conditionNot | conditionAtom | fieldAccess | trackQuery
  | filterExpr | filterOr | filterAnd | filterNot | filterAtom | action | trackRef | compareOp
  | list | value | boolean | string | escapeSeq | number | ident | eoi
  deriving DecidableEq, Repr

/-- The name of a rule in messages. -/
def Rule.debug : Rule → String
  | .policy => "policy" | .extendsClause => "extends_clause" | .metadata => "metadata"
  | .metadataItem => "metadata_item" | .config => "config" | .configItem => "config_item"
  | .langTarget => "lang_target" | .phase => "phase" | .phaseExtend => "phase_extend"
  | .phaseItem => "phase_item" | .skipWhen => "skip_when" | .dependsOn => "depends_on"
  | .runIf => "run_if" | .runIfTrigger => "run_if_trigger" | .onError => "on_error"
  | .clearTagsOp => "clear_tags_op" | .setTagOp => "set_tag_op" | .deleteTagOp => "delete_tag_op"
  | .containerOp => "container_op" | .keepOp => "keep_op" | .removeOp => "remove_op"
  | .trackTarget => "track_target" | .whereClause => "where_clause" | .keepBlock => "keep_block"
  | .normalizeBlock => "normalize_block" | .loudnessPreset => "loudness_preset"
  | .orderOp => "order_op" | .defaultsOp => "defaults_op" | .defaultItem => "default_item"
  | .actionsOp => "actions_op" | .actionSetting => "action_setting"
  | .transcodeOp => "transcode_op" | .transcodeBlock => "transcode_block"
  | .transcodeKvPair => "transcode_kv_pair" | .transcodeValue => "transcode_value"
  | .sampleStrategy => "sample_strategy" | .sampleStrategyKind => "sample_strategy_kind"
  | .sampleStrategyArg => "sample_strategy_arg" | .transcodeFallback => "transcode_fallback"
  | .transcodeVmafOverride => "transcode_vmaf_override" | .verifyOp => "verify_op"
  | .verifyMode => "verify_mode" | .block => "block" | .kvPair => "kv_pair"
  | .synthesizeOp => "synthesize_op" | .synthItem => "synth_item" | .sourcePref => "source_pref"
  | .whenBlock => "when_block" | .elseBlock => "else_block" | .rulesBlock => "rules_block"
  | .matchMode => "match_mode" | .ruleItem => "rule_item" | .condition => "condition"
  | .conditionOr => "condition_or" | .conditionAnd => "condition_and"
  | .conditionNot => "condition_not" | .conditionAtom => "condition_atom"
  | .fieldAccess => "field_access" | .trackQuery => "track_query" | .filterExpr => "filter_expr"
  | .filterOr => "filter_or" | .filterAnd => "filter_and" | .filterNot => "filter_not"
  | .filterAtom => "filter_atom" | .action => "action" | .trackRef => "track_ref"
  | .compareOp => "compare_op" | .list => "list" | .value => "value" | .boolean => "boolean"
  | .string => "string" | .escapeSeq => "escape_seq" | .number => "number" | .ident => "ident"
  | .eoi => "EOI"

/-- A rule with the text it matched, where it stands and the pairs inside. -/
inductive Pair where
  | mk (rule : Rule) (text : String) (span : Span) (inner : List Pair)

namespace Pair

def rule : Pair → Rule
  | mk rule _ _ _ => rule

/-- `as_str` -/
def text : Pair → String
  | mk _ text _ _ => text

def span : Pair → Span
  | mk _ _ span _ => span

def inner : Pair → List Pair
  | mk _ _ _ inner => inner

end Pair

inductive ParseFailure where
  | error (error : DslError)
  | unwrap

/-- What the parser leaves to libraries: the tree of a text or where and how it does not fit the
grammar, and the double that a text stands for. -/
structure ParseEnv where
  parse : String → Except (Nat × Nat × String) Pair
  parseF64 : String → Option F64

def unwrap {α : Type} : Option α → Except ParseFailure α
  | some a => .ok a
  | none => .error .unwrap

/-- `DslError::build` where a pair starts. -/
def buildError (span : Span) (message : String) : ParseFailure :=
  .error (.build span.line span.col message)

/-- The text before the first whitespace, colon or parenthesis. -/
def leadingKeyword (text : String) : String :=
  String.ofList (text.toList.takeWhile fun c => !(isWhitespace c || c = ':' || c = '('))

def maxPolicySize : Nat := 1024 * 1024

def maxNestingDepth : Nat := 100

/-! ## Values -/

/-- The escapes of a string; a backslash before another character stays. -/
def unescape : List Char → List Char
  | [] => []
  | ['\\'] => ['\\']
  | '\\' :: '"' :: rest => '"' :: unescape rest
  | '\\' :: '\\' :: rest => '\\' :: unescape rest
  | c :: rest => c :: unescape rest

def parseStringValue (pair : Pair) : String :=
  match pair.text.toList with
  | '"' :: rest =>
    if rest.getLast? = some '"' then String.ofList (unescape rest.dropLast) else pair.text
  | _ => pair.text

section

variable (env : ParseEnv)

/-- A number without the unit behind it. -/
def parseNumberF64 (pair : Pair) : F64 :=
  (env.parseF64 (String.ofList
    (pair.text.toList.takeWhile fun c => c.isDigit || c = '.' || c = '-'))).getD (.finite 0)

def buildFieldAccess (pair : Pair) : List String :=
  (pair.text.splitOn ".").map trim

def buildCompareOp (pair : Pair) : Except ParseFailure CompareOp :=
  match pair.text with
  | "==" => .ok .eq
  | "!=" => .ok .ne
  | "<" => .ok .lt
  | "<=" => .ok .le
  | ">" => .ok .gt
  | ">=" => .ok .ge
  | "in" => .ok .in
  | _ => .error .unwrap

def CompareOp.debug : CompareOp → String
  | .eq => "Eq"
  | .ne => "Ne"
  | .lt => "Lt"
  | .le => "Le"
  | .gt => "Gt"
  | .ge => "Ge"
  | .in => "In"

mutual

def buildValue : Pair → Except ParseFailure Value
  | .mk .value _ _ (inner :: _) => buildValue inner
  | .mk .value _ _ [] => .error .unwrap
  | .mk .string text span inner => .ok (.string (parseStringValue (.mk .string text span inner)))
  | .mk .number text span inner =>
    .ok (.number (parseNumberF64 env (.mk .number text span inner)) text)
  | .mk .boolean text _ _ => .ok (.bool (text = "true"))
  | .mk .list _ _ inner => do
    let items ← buildListValues inner
    return .list items
  | .mk _ text _ _ => .ok (.ident text)

def buildListValues : List Pair → Except ParseFailure (List Value)
  | [] => .ok []
  | pair :: rest => do
    let value ← buildValue pair
    let others ← buildListValues rest
    return value :: others

end

/-- The texts of a list. -/
def buildList (pair : Pair) : Except ParseFailure (List String) :=
  pair.inner.mapM fun v => do
    let inner ← unwrap v.inner.head?
    return if inner.rule = .string then parseStringValue inner else inner.text

/-- A key and its value. -/
def buildKeyValue (pair : Pair) : Except ParseFailure (String × Value) := do
  let key ← unwrap pair.inner[0]?
  let val ← unwrap pair.inner[1]?
  let val ← buildValue env val
  return (key.text, val)

def buildObject (pairs : List Pair) : Except ParseFailure (List (String × Value)) :=
  (pairs.filter (·.rule = .kvPair)).mapM (buildKeyValue env)

def buildValueOrField (pair : Pair) : Except ParseFailure ValueOrField :=
  if pair.rule = .fieldAccess then .ok (.field (buildFieldAccess pair))
  else do
    let val ← buildValue env pair
    return .value val

/-! ## Filters -/

/-- A filter on a language or a codec. -/
inductive ListOrCompare where
  | inList (items : List String)
  | compare (op : CompareOp) (text : String)
  | field (op : CompareOp) (path : List String)

/-- The error for an operator that does not compare texts. -/
def textOperatorError (span : Span) (op : CompareOp) (kind what : String) : ParseFailure :=
  buildError span ("operator " ++ op.debug ++ " is not valid for " ++ kind ++ " " ++ what ++
    "comparisons; use == or !=")

/-- The text of the right side of a comparison. -/
def comparedText (val : Pair) : Except ParseFailure String :=
  if val.rule = .value then (unwrap val.inner.head?).map Pair.text else .ok val.text

def buildListOrCompareFilter (inner : List Pair) (span : Span) (kind : String) :
    Except ParseFailure ListOrCompare := do
  let next ← unwrap inner[0]?
  if next.rule = .list then
    let items ← buildList next
    return .inList items
  else
    let op ← buildCompareOp next
    let val ← unwrap inner[1]?
    if val.rule = .fieldAccess then
      match op with
      | .eq | .ne => return .field op (buildFieldAccess val)
      | _ => throw (textOperatorError span op kind "field ")
    else
      let text ← comparedText val
      match op with
      | .eq | .in => return .inList [text]
      | .ne => return .compare .ne text
      | _ => throw (textOperatorError span op kind "")

/-- A filter on the languages. -/
def ListOrCompare.lang : ListOrCompare → FilterNode
  | .inList items => .langIn items
  | .compare op text => .langCompare op text
  | .field op path => .langField op path

def ListOrCompare.codec : ListOrCompare → FilterNode
  | .inList items => .codecIn items
  | .compare op text => .codecCompare op text
  | .field op path => .codecField op path

/-- A filter that starts with a keyword. -/
def buildFilterKeyword (text : String) (span : Span) (inner : List Pair) :
    Option (Except ParseFailure FilterNode) :=
  match leadingKeyword text with
  | "lang" => some ((buildListOrCompareFilter inner span "lang").map ListOrCompare.lang)
  | "codec" => some ((buildListOrCompareFilter inner span "codec").map ListOrCompare.codec)
  | "channels" => some do
    let op ← unwrap inner[0]?
    let op ← buildCompareOp op
    let num ← unwrap inner[1]?
    return .channels op (parseNumberF64 env num)
  | "commentary" => some (.ok .commentary)
  | "forced" => some (.ok .forced)
  | "default" => some (.ok .default)
  | "font" => some (.ok .font)
  | "title" | "title_contains" => some do
    let pattern ← unwrap inner[0]?
    -- the word may also stand in the pattern
    return if containsText text "contains" then .titleContains (parseStringValue pattern)
      else .titleMatches (parseStringValue pattern)
  | _ => none

def nestingError (span : Span) (kind : String) : ParseFailure :=
  .error (.parse span.line span.col (kind ++ " nesting depth exceeds maximum of " ++
    toString maxNestingDepth) none)

/-- One filter: by its keyword, or the one in parentheses unless that lies too deep. -/
def filterAtom (text : String) (span : Span) (inner : List Pair) (depth : Nat)
    (parenthesized : Except ParseFailure FilterNode) : Except ParseFailure FilterNode :=
  match buildFilterKeyword env text span inner with
  | some built => built
  | none =>
    if text.toList.head? = some '(' then
      if depth + 1 > maxNestingDepth then .error (nestingError span "filter") else parenthesized
    else .error (buildError span ("unexpected filter: " ++ text))

mutual

/-- `build_filter_depth`. -/
def buildFilter : Pair → Nat → Except ParseFailure FilterNode
  | .mk _ _ _ (inner :: _), depth => buildFilterOr inner depth
  | .mk _ _ _ [], _ => .error .unwrap

def buildFilterOr : Pair → Nat → Except ParseFailure FilterNode
  | .mk _ _ _ [part], depth => buildFilterAnd part depth
  | .mk _ _ _ parts, depth => do
    let nodes ← buildFilterAnds parts depth
    return .or nodes

def buildFilterAnds : List Pair → Nat → Except ParseFailure (List FilterNode)
  | [], _ => .ok []
  | part :: rest, depth => do
    let node ← buildFilterAnd part depth
    let others ← buildFilterAnds rest depth
    return node :: others

def buildFilterAnd : Pair → Nat → Except ParseFailure FilterNode
  | .mk _ _ _ [part], depth => buildFilterNot part depth
  | .mk _ _ _ parts, depth => do
    let nodes ← buildFilterNots parts depth
    return .and nodes

def buildFilterNots : List Pair → Nat → Except ParseFailure (List FilterNode)
  | [], _ => .ok []
  | part :: rest, depth => do
    let node ← buildFilterNot part depth
    let others ← buildFilterNots rest depth
    return node :: others

def buildFilterNot : Pair → Nat → Except ParseFailure FilterNode
  | .mk _ text _ (inner :: _), depth =>
    if leadingKeyword (trim text) = "not" then do
      let atom ← buildFilterAtom inner depth
      return .not atom
    else buildFilterAtom inner depth
  | .mk _ _ _ [], _ => .error .unwrap

def buildFilterAtom : Pair → Nat → Except ParseFailure FilterNode
  | .mk _ text span (filter :: rest), depth =>
    filterAtom env (trim text) span (filter :: rest) depth (buildFilter filter (depth + 1))
  | .mk _ text span [], depth => filterAtom env (trim text) span [] depth (.error .unwrap)

end

/-! ## Conditions -/

/-- The target of a query and what comes after it; the literal `track` leaves no pair. -/
def queryTarget (pair : Pair) : Except ParseFailure (String × Option Pair) :=
  let text := trim pair.text
  if text = "track" ∨ "track ".toList <+: text.toList then .ok ("track", pair.inner[0]?)
  else (unwrap pair.inner[0]?).map fun target => (target.text, pair.inner[1]?)

def buildTrackQuery (pair : Pair) : Except ParseFailure TrackQueryNode := do
  let (target, child) ← queryTarget pair
  match child with
  | none => return { target, filter := none }
  | some child =>
    if child.rule = .filterExpr then
      let filter ← buildFilter env child 0
      return { target, filter := some filter }
    else return { target, filter := none }

/-- A condition that starts with a keyword. -/
def buildConditionKeyword (text : String) (inner : List Pair) :
    Option (Except ParseFailure ConditionNode) :=
  match leadingKeyword text with
  | "audio_is_multi_language" => some (.ok .audioIsMultiLanguage)
  | "is_dubbed" => some (.ok .isDubbed)
  | "is_original" => some (.ok .isOriginal)
  | "exists" => some do
    let query ← unwrap inner[0]?
    let query ← buildTrackQuery env query
    return .exists query
  | "count" => some do
    let query ← unwrap inner[0]?
    let op ← unwrap inner[1]?
    let op ← buildCompareOp op
    let num ← unwrap inner[2]?
    let query ← buildTrackQuery env query
    return .count query op (parseNumberF64 env num)
  | _ => none

/-- A condition that starts with the path of a field. -/
def buildFieldCondition (text : String) (inner : List Pair) :
    Except ParseFailure ConditionNode := do
  let first ← unwrap inner[0]?
  if first.rule = .fieldAccess then
    match inner[1]? with
    | none => return .fieldExists (buildFieldAccess first)
    | some second =>
      if second.rule = .compareOp then
        let op ← buildCompareOp second
        let val ← unwrap inner[2]?
        let val ← buildValue env val
        return .fieldCompare (buildFieldAccess first) op val
      else return .fieldExists (buildFieldAccess first)
  else throw (buildError first.span ("unexpected condition: " ++ text))

/-- One condition: by its keyword, the one in parentheses unless that lies too deep, or about a
field. -/
def conditionAtom (text : String) (span : Span) (inner : List Pair) (depth : Nat)
    (parenthesized : Except ParseFailure ConditionNode) : Except ParseFailure ConditionNode :=
  match buildConditionKeyword env text inner with
  | some built => built
  | none =>
    if text.toList.head? = some '(' then
      if depth + 1 > maxNestingDepth then .error (nestingError span "condition")
      else parenthesized
    else buildFieldCondition env text inner

mutual

/-- `build_condition_depth`. -/
def buildCondition : Pair → Nat → Except ParseFailure ConditionNode
  | .mk _ _ _ (inner :: _), depth => buildConditionOr inner depth
  | .mk _ _ _ [], _ => .error .unwrap

def buildConditionOr : Pair → Nat → Except ParseFailure ConditionNode
  | .mk _ _ _ [part], depth => buildConditionAnd part depth
  | .mk _ _ _ parts, depth => do
    let nodes ← buildConditionAnds parts depth
    return .or nodes

def buildConditionAnds : List Pair → Nat → Except ParseFailure (List ConditionNode)
  | [], _ => .ok []
  | part :: rest, depth => do
    let node ← buildConditionAnd part depth
    let others ← buildConditionAnds rest depth
    return node :: others

def buildConditionAnd : Pair → Nat → Except ParseFailure ConditionNode
  | .mk _ _ _ [part], depth => buildConditionNot part depth
  | .mk _ _ _ parts, depth => do
    let nodes ← buildConditionNots parts depth
    return .and nodes

def buildConditionNots : List Pair → Nat → Except ParseFailure (List ConditionNode)
  | [], _ => .ok []
  | part :: rest, depth => do
    let node ← buildConditionNot part depth
    let others ← buildConditionNots rest depth
    return node :: others

def buildConditionNot : Pair → Nat → Except ParseFailure ConditionNode
  | .mk _ text _ (inner :: _), depth =>
    if leadingKeyword (trim text) = "not" then do
      let atom ← buildConditionAtom inner depth
      return .not atom
    else buildConditionAtom inner depth
  | .mk _ _ _ [], _ => .error .unwrap

def buildConditionAtom : Pair → Nat → Except ParseFailure ConditionNode
  | .mk _ text span (condition :: rest), depth =>
    conditionAtom env (trim text) span (condition :: rest) depth
      (buildCondition condition (depth + 1))
  | .mk _ text span [], depth => conditionAtom env (trim text) span [] depth (.error .unwrap)

end

/-! ## Operations -/

/-- The texts between whitespace. -/
def splitWhitespace (text : String) : List String :=
  ((text.toList.splitOnP isWhitespace).filter (· ≠ [])).map String.ofList

def buildNormalize (parts : List Pair) : Except ParseFailure NormalizeSetting := do
  let preset ← unwrap parts[0]?
  let settings ← buildObject env ((parts[1]?.map Pair.inner).getD [])
  return { preset := preset.text, settings }

/-- The loudness of a keep block. -/
def buildKeepBlock (_ : Option NormalizeSetting) (item : Pair) :
    Except ParseFailure (Option NormalizeSetting) := do
  let setting ← buildNormalize env item.inner
  return some setting

/-- One child of a keep or remove operation after its target. -/
def buildKeepRemovePart (parts : Option FilterNode × Option NormalizeSetting) (child : Pair) :
    Except ParseFailure (Option FilterNode × Option NormalizeSetting) :=
  if child.rule = .whereClause then do
    let filterPair ← unwrap child.inner.head?
    let filter ← buildFilter env filterPair 0
    return (some filter, parts.2)
  else if child.rule = .keepBlock then do
    let normalize ← (child.inner.filter (·.rule = .normalizeBlock)).foldlM (buildKeepBlock env)
      parts.2
    return (parts.1, normalize)
  else .ok parts

/-- The target, the filter and the loudness of a keep or remove operation; of several filters the
last one stays. -/
def buildKeepRemoveParts (pair : Pair) :
    Except ParseFailure (String × Option FilterNode × Option NormalizeSetting) := do
  let target ← unwrap pair.inner.head?
  let parts ← pair.inner.tail.foldlM (buildKeepRemovePart env) (none, none)
  return (target.text, parts)

def buildKeepRemove (pair : Pair) (isKeep : Bool) : Except ParseFailure OperationNode := do
  let (target, filter, normalize) ← buildKeepRemoveParts env pair
  return if isKeep then .keep target filter normalize else .remove target filter

def buildTrackRef (pair : Pair) : Except ParseFailure TrackRefNode := do
  let target ← unwrap pair.inner[0]?
  match pair.inner[1]? with
  | none => return { target := target.text, filter := none }
  | some filterPair =>
    let filter ← buildFilter env filterPair 0
    return { target := target.text, filter := some filter }

/-- An action that starts with a keyword. -/
def buildKeywordAction (pair : Pair) : Except ParseFailure ActionNode :=
  let text := trim pair.text
  match leadingKeyword text with
  | "skip" => .ok (.skip (pair.inner[0]?.map Pair.text))
  | "warn" => do
    let message ← unwrap pair.inner[0]?
    return .warn (parseStringValue message)
  | "fail" => do
    let message ← unwrap pair.inner[0]?
    return .fail (parseStringValue message)
  | "set_default" => do
    let track ← unwrap pair.inner[0]?
    let track ← buildTrackRef env track
    return .setDefault track
  | "set_forced" => do
    let track ← unwrap pair.inner[0]?
    let track ← buildTrackRef env track
    return .setForced track
  | "set_language" => do
    let track ← unwrap pair.inner[0]?
    let track ← buildTrackRef env track
    let val ← unwrap pair.inner[1]?
    return .setLanguage track
      (if val.rule = .fieldAccess then .field (buildFieldAccess val)
        else .value (.string (parseStringValue val)))
  | "set_tag" => do
    let tag ← unwrap pair.inner[0]?
    let val ← unwrap pair.inner[1]?
    let val ← buildValueOrField env val
    return .setTag (parseStringValue tag) val
  | _ => .error (buildError pair.span ("unexpected action: " ++ text))

def buildAction (pair : Pair) : Except ParseFailure ActionNode :=
  match pair.inner.head? with
  | none => buildKeywordAction env pair
  | some first =>
    if first.rule = .keepOp then do
      let (target, filter, _) ← buildKeepRemoveParts env first
      return .keep target filter
    else if first.rule = .removeOp then do
      let (target, filter, _) ← buildKeepRemoveParts env first
      return .remove target filter
    else buildKeywordAction env pair

/-- One child of a when block after its condition. -/
def buildWhenChild (node : WhenNode) (child : Pair) : Except ParseFailure WhenNode :=
  if child.rule = .action then do
    let action ← buildAction env child
    return { node with thenActions := node.thenActions ++ [action] }
  else if child.rule = .elseBlock then do
    let actions ← (child.inner.filter (·.rule = .action)).mapM (buildAction env)
    return { node with elseActions := node.elseActions ++ actions }
  else .error (buildError child.span ("unexpected rule in when block: " ++ child.rule.debug))

def buildWhen (pair : Pair) : Except ParseFailure WhenNode := do
  let cond ← unwrap pair.inner.head?
  let condition ← buildCondition env cond 0
  pair.inner.tail.foldlM (buildWhenChild env)
    { condition, thenActions := [], elseActions := [], span := pair.span }

def buildRule (pair : Pair) : Except ParseFailure RuleNode := do
  let name ← unwrap pair.inner[0]?
  let when ← unwrap pair.inner[1]?
  let when ← buildWhen env when
  return { name := parseStringValue name, when }

def buildRules (pair : Pair) : Except ParseFailure OperationNode := do
  let mode ← unwrap pair.inner.head?
  let rules ← (pair.inner.tail.filter (·.rule = .ruleItem)).mapM (buildRule env)
  return .rules mode.text rules

/-- The kind of a default, or the error. -/
def defaultKind (pair : Pair) : Except ParseFailure String :=
  match leadingKeyword (trim pair.text) with
  | "audio" => .ok "audio"
  | "subtitle" | "subtitles" => .ok "subtitle"
  | other => .error (buildError pair.span ("unknown defaults kind: " ++ other))

def buildDefault (pair : Pair) : Except ParseFailure (String × String) := do
  let kind ← defaultKind pair
  let value ← unwrap pair.inner.head?
  return (kind, value.text)

def buildDefaults (pair : Pair) : Except ParseFailure OperationNode := do
  let items ← (pair.inner.filter (·.rule = .defaultItem)).mapM buildDefault
  return .defaults items

def buildActions (pair : Pair) : Except ParseFailure OperationNode := do
  let target ← unwrap (splitWhitespace pair.text).head?
  let settings ← (pair.inner.filter (·.rule = .actionSetting)).mapM (buildKeyValue env)
  return .actions target settings

def buildSampleStrategy (pair : Pair) : Except ParseFailure Value :=
  if pair.text = "full" then .ok (.ident "full")
  else do
    let name ← unwrap pair.inner.head?
    let args ← (pair.inner.tail.filter (·.rule = .sampleStrategyArg)).mapM (buildKeyValue env)
    return .call name.text args

def buildTranscodeValue : Pair → Except ParseFailure Value
  | .mk .transcodeValue _ _ (inner :: _) => buildTranscodeValue inner
  | .mk .transcodeValue _ _ [] => .error .unwrap
  | .mk .sampleStrategy text span inner =>
    buildSampleStrategy env (.mk .sampleStrategy text span inner)
  | .mk rule text span inner => buildValue env (.mk rule text span inner)

/-- One item of a transcode block; other rules are passed over. -/
def buildTranscodeItem (child : Pair) : Except ParseFailure (Option (String × Value)) :=
  if child.rule = .transcodeKvPair then do
    let key ← unwrap child.inner[0]?
    let val ← unwrap child.inner[1]?
    let val ← buildTranscodeValue env val
    return some (key.text, val)
  else if child.rule = .transcodeFallback then do
    let items ← buildObject env child.inner
    return some ("fallback", .object items)
  else if child.rule = .transcodeVmafOverride then do
    let path ← unwrap child.inner[0]?
    let val ← unwrap child.inner[1]?
    let val ← buildValue env val
    return some ("target_vmaf_when " ++ path.text, val)
  else .ok none

def buildTranscode (pair : Pair) : Except ParseFailure OperationNode := do
  let target := (splitWhitespace pair.text)[1]?.getD "audio"
  let codec ← unwrap pair.inner[0]?
  let settings ← ((pair.inner[1]?.map Pair.inner).getD []).mapM (buildTranscodeItem env)
  return .transcode target codec.text (settings.filterMap id)

def buildSynthItem (child : Pair) : Except ParseFailure SynthSetting :=
  match leadingKeyword (trim child.text) with
  | "codec" => do
    let val ← unwrap child.inner[0]?
    return .codec val.text
  | "channels" => do
    let val ← unwrap child.inner[0]?
    let val ← buildValue env val
    return .channels val
  | "source" => do
    let source ← unwrap child.inner[0]?
    let filter ← unwrap source.inner.head?
    let filter ← buildFilter env filter 0
    return .source filter
  | "bitrate" => do
    let val ← unwrap child.inner[0]?
    return .bitrate (parseStringValue val)
  | "skip_if_exists" => do
    let filter ← unwrap child.inner[0]?
    let filter ← buildFilter env filter 0
    return .skipIfExists filter
  | "create_if" => do
    let cond ← unwrap child.inner[0]?
    let cond ← buildCondition env cond 0
    return .createIf cond
  | "title" => do
    let val ← unwrap child.inner[0]?
    return .title (parseStringValue val)
  | "language" => do
    let val ← unwrap child.inner[0]?
    return .language val.text
  | "position" => do
    let val ← unwrap child.inner[0]?
    let val ← buildValue env val
    return .position val
  | "normalize" => do
    let setting ← buildNormalize env child.inner
    return .normalize setting
  | other => .error (buildError child.span ("unexpected synth keyword: " ++ other))

def buildSynthesize (pair : Pair) : Except ParseFailure OperationNode := do
  let name ← unwrap pair.inner.head?
  let settings ← (pair.inner.tail.filter (·.rule = .synthItem)).mapM (buildSynthItem env)
  return .synthesize (parseStringValue name) settings

def buildVerify (pair : Pair) : Except ParseFailure OperationNode := do
  let mode ← unwrap pair.inner.head?
  match mode.text with
  | "quick" => return .verify .quick
  | "thorough" => return .verify .thorough
  | "hash" => return .verify .hash
  | other => throw (buildError mode.span ("unknown verify mode: " ++ other))

/-- The operation of a phase item, where it is one. -/
def buildOperation (child : Pair) : Except ParseFailure OperationNode :=
  match child.rule with
  | .containerOp => do
    let ident ← unwrap child.inner.head?
    return .container ident.text
  | .keepOp => buildKeepRemove env child true
  | .removeOp => buildKeepRemove env child false
  | .orderOp => do
    let list ← unwrap child.inner.head?
    let items ← buildList list
    return .order items
  | .defaultsOp => buildDefaults child
  | .actionsOp => buildActions env child
  | .transcodeOp => buildTranscode env child
  | .synthesizeOp => buildSynthesize env child
  | .clearTagsOp => .ok .clearTags
  | .setTagOp => do
    let tag ← unwrap child.inner[0]?
    let val ← unwrap child.inner[1]?
    let val ← buildValueOrField env val
    return .setTag (parseStringValue tag) val
  | .deleteTagOp => do
    let tag ← unwrap child.inner.head?
    return .deleteTag (parseStringValue tag)
  | .whenBlock => do
    let node ← buildWhen env child
    return .when node
  | .rulesBlock => buildRules env child
  | .verifyOp => buildVerify child
  | other => .error (buildError child.span ("unexpected rule " ++ other.debug))

/-! ## Phases -/

def parseOnErrorToken (pair : Pair) : Except ParseFailure ErrorStrategyNode :=
  match ErrorStrategyNode.fromToken pair.text with
  | some strategy => .ok strategy
  | none =>
    .error (buildError pair.span ("invalid on_error value \"" ++ pair.text ++
      "\", expected \"continue\", \"abort\", \"skip\", or \"quarantine\""))

/-- The first pair of a rule, and what comes after it. -/
def findRule (rule : Rule) (pairs : List Pair) : Except ParseFailure (Pair × List Pair) :=
  match pairs.dropWhile (·.rule ≠ rule) with
  | [] => .error .unwrap
  | found :: rest => .ok (found, rest)

def buildRunIf (pair : Pair) : Except ParseFailure RunIfNode := do
  let (phase, rest) ← findRule .ident pair.inner
  let (trigger, _) ← findRule .runIfTrigger rest
  let trigger ← unwrap (RunIfTriggerNode.fromToken trigger.text)
  return { phase := phase.text, trigger }

/-- One child of a phase after its name. -/
def buildPhaseItem (phase : PhaseNode) (item : Pair) : Except ParseFailure PhaseNode :=
  if item.rule = .phaseExtend then .ok { phase with extend := true }
  else if item.rule ≠ .phaseItem then .ok phase
  else do
    let child ← unwrap item.inner.head?
    match child.rule with
    | .skipWhen =>
      let cond ← unwrap child.inner.head?
      let cond ← buildCondition env cond 0
      return { phase with skipWhen := some cond }
    | .dependsOn =>
      let list ← unwrap child.inner.head?
      let names ← buildList list
      return { phase with dependsOn := some names }
    | .runIf =>
      let runIf ← buildRunIf child
      return { phase with runIf := some runIf }
    | .onError =>
      let token ← unwrap child.inner.head?
      let strategy ← parseOnErrorToken token
      return { phase with onError := some strategy }
    | _ =>
      let node ← buildOperation env child
      return { phase with operations := phase.operations ++ [⟨node, child.span⟩] }

def buildPhase (pair : Pair) : Except ParseFailure PhaseNode := do
  let name ← unwrap pair.inner.head?
  pair.inner.tail.foldlM (buildPhaseItem env) { name := name.text, span := pair.span }

/-! ## Policies -/

def buildExtends (pair : Pair) : Except ParseFailure ExtendsSource := do
  let source ← unwrap pair.inner.head?
  let source := parseStringValue source
  return if "file://".toList <+: source.toList then .file source else .bundled source

def metadataStringValue (item : Pair) : Except ParseFailure String :=
  (findRule .string item.inner).map fun found => parseStringValue found.1

def listValue (item : Pair) : Except ParseFailure (List String) := do
  let (list, _) ← findRule .list item.inner
  buildList list

def buildMetadataItem (metadata : MetadataNode) (item : Pair) : Except ParseFailure MetadataNode :=
  match leadingKeyword (trim item.text) with
  | "version" => do
    let text ← metadataStringValue item
    return { metadata with version := some text }
  | "author" => do
    let text ← metadataStringValue item
    return { metadata with author := some text }
  | "description" => do
    let text ← metadataStringValue item
    return { metadata with description := some text }
  | "requires_voom" => do
    let text ← metadataStringValue item
    return { metadata with requiresVoom := some text }
  | "requires_tools" => do
    let items ← listValue item
    return { metadata with requiresTools := some items }
  | "test_fixtures" => do
    let items ← listValue item
    return { metadata with testFixtures := some items }
  | other => .error (buildError item.span ("unexpected metadata keyword: " ++ other))

def buildMetadata (pair : Pair) : Except ParseFailure MetadataNode :=
  (pair.inner.filter (·.rule = .metadataItem)).foldlM buildMetadataItem { span := pair.span }

def buildConfigItem (config : ConfigNode) (item : Pair) : Except ParseFailure ConfigNode :=
  match leadingKeyword (trim item.text) with
  | "languages" => do
    let (target, rest) ← findRule .langTarget item.inner
    let (list, _) ← findRule .list rest
    let values ← buildList list
    return if target.text = "audio" then { config with audioLanguages := values }
      else { config with subtitleLanguages := values }
  | "on_error" => do
    let (ident, _) ← findRule .ident item.inner
    let strategy ← parseOnErrorToken ident
    return { config with onError := some strategy }
  | "commentary_patterns" => do
    let items ← listValue item
    return { config with commentaryPatterns := items }
  | "keep_backups" => do
    let (bool, _) ← findRule .boolean item.inner
    return { config with keepBackups := some (bool.text = "true") }
  | other => .error (buildError item.span ("unexpected config keyword: " ++ other))

def buildConfig (pair : Pair) : Except ParseFailure ConfigNode :=
  (pair.inner.filter (·.rule = .configItem)).foldlM buildConfigItem { span := pair.span }

/-- One child of a policy after its name. -/
def buildPolicyItem (ast : PolicyAst) (item : Pair) : Except ParseFailure PolicyAst :=
  match item.rule with
  | .extendsClause => do
    let source ← buildExtends item
    return { ast with extendsSource := some source }
  | .metadata => do
    let metadata ← buildMetadata item
    return { ast with metadata := some metadata }
  | .config => do
    let config ← buildConfig item
    return { ast with config := some config }
  | .phase => do
    let phase ← buildPhase env item
    return { ast with phases := ast.phases ++ [phase] }
  | .eoi => .ok ast
  | other => .error (buildError item.span ("unexpected rule in policy: " ++ other.debug))

def buildPolicy (pair : Pair) : Except ParseFailure PolicyAst := do
  let name ← unwrap pair.inner.head?
  pair.inner.tail.foldlM (buildPolicyItem env) { name := parseStringValue name, span := pair.span }

def parsePolicy (input : String) : Except ParseFailure PolicyAst :=
  if input.utf8ByteSize > maxPolicySize then
    .error (.error (.parse 1 1 ("policy too large: " ++ toString input.utf8ByteSize ++
      " bytes (max " ++ toString maxPolicySize ++ ")") none))
  else
    match env.parse input with
    | .error (line, col, message) => .error (.error (.parse line col message none))
    | .ok pair => buildPolicy env pair

end

end Voom.Dsl
