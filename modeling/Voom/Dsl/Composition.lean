-- SUMMARY: Policy inheritance: reading the parents of a policy and merging each policy into its parent.
import Voom.Domain.Path
import Voom.Dsl.PhaseGraph

/-!
# Composition

`resolve_ast` reads the parent a policy extends, resolves it first, and merges the
policy into the result. The file system, the bundled texts and the parser are
parameters: resolution only hands texts from one to the other.
-/

namespace Voom.Dsl

inductive DslPipelineError where
  | parse (error : DslError)
  | validation (errors : List DslError)
  | compile (error : DslError)
  deriving DecidableEq, Repr

/-- Where a policy was read from. -/
inductive PolicySourceId where
  | inline
  | bundled (name : String)
  | file (path : Path)
  deriving DecidableEq, Repr

def sourceLabel : PolicySourceId → String
  | .inline => "inline"
  | .bundled name => name
  | .file path => path.display

/-- What is recorded of a phase of a merged policy. -/
inductive PhaseComposition where
  | local
  | inherited (source : String)
  | extended (source : String) (addedOperations : Nat)
  | overridden (source : String)
  deriving DecidableEq, Repr

def phaseSourceLabel (composition : PhaseComposition) (parentSourceId : PolicySourceId) : String :=
  match composition with
  | .local => sourceLabel parentSourceId
  | .inherited source => source
  | .extended source _ => source
  | .overridden source => source

structure ResolvedPolicyAst where
  ast : PolicyAst
  sourceId : PolicySourceId
  extendsChain : List String
  phaseSources : String → Option PhaseComposition

namespace ResolvedPolicyAst

/-- The label of the policy a phase comes from. -/
def phaseSource (resolved : ResolvedPolicyAst) (name : String) : String :=
  match resolved.phaseSources name with
  | none => sourceLabel resolved.sourceId
  | some composition => phaseSourceLabel composition resolved.sourceId

end ResolvedPolicyAst

/-! ## Merging -/

def extendPhase (parent child : PhaseNode) : PhaseNode :=
  { parent with
    extend := false
    skipWhen := child.skipWhen.or parent.skipWhen
    dependsOn := child.dependsOn.or parent.dependsOn
    runIf := child.runIf.or parent.runIf
    onError := child.onError.or parent.onError
    operations := parent.operations ++ child.operations }

def clearExtend (phase : PhaseNode) : PhaseNode := { phase with extend := false }

def mergeMetadata : Option MetadataNode → Option MetadataNode → Option MetadataNode
  | none, none => none
  | some parent, none => some parent
  | none, some child => some child
  | some parent, some child =>
    some {
      version := child.version.or parent.version
      author := child.author.or parent.author
      description := child.description.or parent.description
      requiresVoom := child.requiresVoom.or parent.requiresVoom
      requiresTools := child.requiresTools.or parent.requiresTools
      testFixtures := child.testFixtures.or parent.testFixtures
      span := child.span }

/-- The first child phase of a name that is not consumed, with the list in which it is. -/
def consume (name : String) :
    List (PhaseNode × Bool) → Option (PhaseNode × List (PhaseNode × Bool))
  | [] => none
  | (phase, consumed) :: rest =>
    if consumed = false ∧ phase.name = name then some (phase, (phase, true) :: rest)
    else (consume name rest).map fun (found, marked) => (found, (phase, consumed) :: marked)

/-- What the two loops of `merge_policy` carry. -/
structure Merging where
  childPhases : List (PhaseNode × Bool)
  phases : List PhaseNode
  phaseSources : String → Option PhaseComposition

namespace Merging

def push (merging : Merging) (phase : PhaseNode) (name : String)
    (composition : PhaseComposition) : Merging :=
  { merging with
    phases := merging.phases ++ [phase]
    phaseSources := Function.update merging.phaseSources name (some composition) }

/-- The body of the loop over the phases of the parent. -/
def parentPhase (parent : ResolvedPolicyAst) (childSource : String) (merging : Merging)
    (phase : PhaseNode) : Merging :=
  let parentSource := parent.phaseSource phase.name
  match consume phase.name merging.childPhases with
  | none => merging.push (clearExtend phase) phase.name (.inherited parentSource)
  | some (childPhase, marked) =>
    let merging := { merging with childPhases := marked }
    if childPhase.extend then
      merging.push (extendPhase phase childPhase) phase.name
        (.extended parentSource childPhase.operations.length)
    else
      merging.push (clearExtend childPhase) phase.name (.overridden childSource)

end Merging

def noParentPhase (name : String) : DslPipelineError :=
  .compile (.compile ("phase \"" ++ name ++ "\" uses extend but no parent phase exists"))

/-- The loop over the child phases that no parent phase consumed. -/
def mergeNewPhases (merging : Merging) :
    List (PhaseNode × Bool) → Except DslPipelineError Merging
  | [] => .ok merging
  | (phase, consumed) :: rest =>
    if consumed then mergeNewPhases merging rest
    else if phase.extend then .error (noParentPhase phase.name)
    else mergeNewPhases (merging.push (clearExtend phase) phase.name .local) rest

def mergePolicy (parent : ResolvedPolicyAst) (child : PolicyAst) (sourceId : PolicySourceId) :
    Except DslPipelineError ResolvedPolicyAst :=
  let start : Merging :=
    { childPhases := child.phases.map (·, false), phases := [], phaseSources := fun _ => none }
  let merged := parent.ast.phases.foldl (Merging.parentPhase parent (sourceLabel sourceId)) start
  (mergeNewPhases merged merged.childPhases).map fun merging =>
    { ast := {
        name := child.name
        extendsSource := none
        metadata := mergeMetadata parent.ast.metadata child.metadata
        config := child.config.or parent.ast.config
        phases := merging.phases
        span := child.span }
      sourceId
      extendsChain := parent.extendsChain ++ [sourceLabel parent.sourceId]
      phaseSources := merging.phaseSources }

/-! ## Reading the parents -/

inductive AllowFiles where
  | yes | no
  deriving DecidableEq, Repr

/-- What resolution asks of its surroundings; an operation that fails gives the text of its
error. -/
structure PolicyEnv where
  parsePolicy : String → Except DslError PolicyAst
  bundledPolicy : String → Option String
  readToString : Path → Except String String
  canonicalize : String → Except String Path

/-- A policy that has been read and parsed, with the directory its relative parents start
from. -/
structure LoadedPolicy where
  sourceId : PolicySourceId
  ast : PolicyAst
  baseDir : Option Path

def compileError (message : String) : DslPipelineError := .compile (.compile message)

def pushSource (sourceId : PolicySourceId) (stack : List PolicySourceId) :
    Except DslPipelineError (List PolicySourceId) :=
  if sourceId ∈ stack then
    let chain := (stack.dropWhile (· ≠ sourceId)).map sourceLabel ++ [sourceLabel sourceId]
    .error (compileError ("cyclic policy extends: " ++ " -> ".intercalate chain))
  else .ok (stack ++ [sourceId])

section
variable (env : PolicyEnv)

def parseSource (source : String) : Except DslPipelineError PolicyAst :=
  (env.parsePolicy source).mapError .parse

def canonicalizeExistingPath (path : String) : Except DslPipelineError Path :=
  (env.canonicalize path).mapError fun err =>
    compileError ("failed to resolve policy file " ++ path ++ ": " ++ err)

/-- `Path::join` of a canonical directory and the text of a relative path. -/
def joinText (base : Path) (path : String) : String :=
  if base.components = [] then "/" ++ path else base.display ++ "/" ++ path

def unsupportedUri (uri : String) : DslPipelineError :=
  compileError ("unsupported policy extends URI \"" ++ uri ++
    "\"; only file:// URIs and bundled policy names are supported")

def requiresPolicyFile : DslPipelineError :=
  compileError "file:// policy extends requires compile_policy_file(path)"

def resolveFileUri (uri : String) (baseDir : Option Path) : Except DslPipelineError Path :=
  if ¬ "file://".toList <+: uri.toList then .error (unsupportedUri uri)
  else
    let path := String.ofList (uri.toList.drop "file://".length)
    if path = "" then .error (compileError "file:// policy extends URI must include a path")
    else if path.toList.head? = some '/' then canonicalizeExistingPath env path
    else
      match baseDir with
      | none => .error requiresPolicyFile
      | some base => canonicalizeExistingPath env (joinText base path)

/-- `resolve_file_path` up to the call of `resolve_ast`, with the stack to resolve it under. -/
def loadFilePath (path : Path) (stack : List PolicySourceId) :
    Except DslPipelineError (LoadedPolicy × List PolicySourceId) := do
  let stack ← pushSource (.file path) stack
  let source ← (env.readToString path).mapError fun err =>
    compileError ("failed to read policy file " ++ path.display ++ ": " ++ err)
  let ast ← parseSource env source
  return ({ sourceId := .file path, ast, baseDir := path.parent }, stack)

/-- `resolve_bundled_policy` up to the call of `resolve_ast`. -/
def loadBundledPolicy (name : String) (stack : List PolicySourceId) :
    Except DslPipelineError (LoadedPolicy × List PolicySourceId) := do
  let stack ← pushSource (.bundled name) stack
  let source ←
    match env.bundledPolicy name with
    | none => .error (compileError ("unknown bundled policy \"" ++ name ++ "\""))
    | some source => .ok source
  let ast ← parseSource env source
  return ({ sourceId := .bundled name, ast, baseDir := none }, stack)

/-- The parent that an `extends` clause names. -/
def loadParent (allowFiles : AllowFiles) (baseDir : Option Path) (stack : List PolicySourceId) :
    ExtendsSource → Except DslPipelineError (LoadedPolicy × List PolicySourceId)
  | .bundled name =>
    if "://".toList <:+: name.toList then .error (unsupportedUri name)
    else loadBundledPolicy env name stack
  | .file uri =>
    if allowFiles = .no then .error requiresPolicyFile
    else do
      let path ← resolveFileUri env uri baseDir
      loadFilePath env path stack

def unresolvedPhaseExtend (name : String) : DslPipelineError :=
  compileError ("phase \"" ++ name ++ "\" uses extend but policy composition was not resolved")

def rejectUnresolvedPhaseExtends (ast : PolicyAst) : Except DslPipelineError Unit :=
  match ast.phases.find? (·.extend) with
  | some phase => .error (unresolvedPhaseExtend phase.name)
  | none => .ok ()

/-- A policy that extends nothing. -/
def resolveRoot (policy : LoadedPolicy) : Except DslPipelineError ResolvedPolicyAst :=
  (rejectUnresolvedPhaseExtends policy.ast).map fun _ =>
    { ast := policy.ast, sourceId := policy.sourceId, extendsChain := []
      phaseSources := fun _ => none }

/-- `resolve_ast`, reading at most `fuel` policies; `none` when that is not enough. The pop of
the stack is the return to the caller's own. -/
def resolveAst (allowFiles : AllowFiles) : Nat → LoadedPolicy → List PolicySourceId →
    Option (Except DslPipelineError ResolvedPolicyAst)
  | 0, _, _ => none
  | fuel + 1, policy, stack =>
    match policy.ast.extendsSource with
    | none => some (resolveRoot policy)
    | some source =>
      match loadParent env allowFiles policy.baseDir stack source with
      | .error e => some (.error e)
      | .ok (parent, stack) =>
        (resolveAst allowFiles fuel parent stack).map fun resolved =>
          resolved.bind fun parent => mergePolicy parent policy.ast policy.sourceId

def resolvePolicyFile (fuel : Nat) (path : String) :
    Option (Except DslPipelineError ResolvedPolicyAst) :=
  match canonicalizeExistingPath env path with
  | .error e => some (.error e)
  | .ok canonical =>
    match loadFilePath env canonical [] with
    | .error e => some (.error e)
    | .ok (policy, stack) => resolveAst env .yes fuel policy stack

def resolvePolicyWithBundled (fuel : Nat) (source : String) :
    Option (Except DslPipelineError ResolvedPolicyAst) :=
  match parseSource env source with
  | .error e => some (.error e)
  | .ok ast => resolveAst env .no fuel { sourceId := .inline, ast, baseDir := none } []

end

end Voom.Dsl
