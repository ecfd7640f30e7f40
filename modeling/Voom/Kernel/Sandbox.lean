-- SUMMARY: The host functions by which a WASM plugin gets at files and tools.
import Voom.Domain.Text
import Voom.Domain.Transition
import Voom.Lib.FileTree

/-!
# Sandbox

Each function checks the paths it is given in its own way: the path itself, the directory it lies
in, the path or else its text, or those arguments that look like paths. What a call does to the
disk is kept beside its result.
-/

namespace Voom.Kernel

open Lib

/-- A tool that could not be run to its end: the message of an execution error, if it is one, and
the text of the error. -/
structure ToolFailure where
  execution : Option String
  text : String
  deriving DecidableEq, Repr

structure ProcessOutput where
  code : Option Int
  stdout : List UInt8
  stderr : List UInt8
  deriving DecidableEq, Repr

structure ToolOutput where
  exitCode : Int
  stdout : List UInt8
  stderr : List UInt8
  deriving DecidableEq, Repr

/-- The system around the host functions. A tool may do anything to the disk. -/
structure HostEnv where
  links : Nat
  cwd : List String
  cwd_entries : ∀ name ∈ cwd, WrittenPath.IsEntry name
  now : Option Nat
  runWithTimeoutConfig : String → List String → Nat → FileTree →
    FileTree × Except ToolFailure ProcessOutput
  jsonToVec : Json → Except String (List UInt8)
  transitionsToVec : List FileTransition → Except String (List UInt8)

structure HostState where
  pluginName : String
  allowedPaths : List Path := []
  transitionStore : Option (String → Except String (List FileTransition)) := none
  allowedTools : List String := []
  allowedCapabilities : List String := []

/-- The message of a call that fails, before anything was done or in doing it. -/
inductive HostError where
  | refused (message : String)
  | failed (message : String)
  deriving DecidableEq, Repr

/-- What a call gets at, with the path it was given. -/
inductive Access where
  | wrote (path : String) (place : List String)
  | read (path : String) (place : List String)
  | listed (path : String) (place : List String)
  | queried (path : String)
  | ran (tool : String) (args : List String)
  deriving DecidableEq, Repr

structure Effect (α : Type) where
  result : Except HostError α
  tree : FileTree
  accesses : List Access := []

def Effect.refused {α : Type} (tree : FileTree) (message : String) : Effect α :=
  { result := .error (.refused message), tree }

section

variable (env : HostEnv) (host : HostState) (tree : FileTree)

def canonicalize (path : WrittenPath) : Except WalkError (List String) :=
  tree.canonicalize env.links env.cwd path

/-- A place is at or beneath an allowed path. -/
def HostState.allows (place : List String) : Bool := isUnderAny ⟨place⟩ host.allowedPaths

def notAllowed (path : String) : String :=
  "path '" ++ path ++ "' is not within allowed directories for plugin '" ++ host.pluginName ++ "'"

/-! ## Files -/

def checkWrite (path : String) : Except String Unit :=
  if host.allowedPaths.isEmpty then .error (notAllowed host path ++ " (no paths configured)")
  else
    match (WrittenPath.parse path).parent with
    | none =>
      .error ("path '" ++ path ++ "' has no parent directory for plugin '" ++ host.pluginName ++ "'")
    | some parent =>
      match canonicalize env tree parent with
      | .error e =>
        .error ("cannot resolve parent of '" ++ path ++ "' for plugin '" ++ host.pluginName ++
          "': " ++ e.display)
      | .ok canonicalParent =>
        match (WrittenPath.parse path).fileName with
        | none => .error ("path '" ++ path ++ "' has no filename")
        | some fileName =>
          if host.allows (canonicalParent ++ [fileName]) then .ok ()
          else .error (notAllowed host path)

/-- The file is written through the path as it was given. -/
def writeFile (path : String) (content : List UInt8) : Effect Unit :=
  match checkWrite env host tree path with
  | .error message => .refused tree message
  | .ok () =>
    match tree.write env.links env.cwd (.parse path) content env.now with
    | .error e =>
      { result := .error (.failed ("failed to write '" ++ path ++ "': " ++ e.display)), tree }
    | .ok (tree', place) => { result := .ok (), tree := tree', accesses := [.wrote path place] }

def allowedFilesystemPath (path subject : String) : Except String (List String) :=
  let denied := subject ++ " '" ++ path ++ "' is not within allowed directories"
  if host.allowedPaths.isEmpty then .error denied
  else
    match canonicalize env tree (.parse path) with
    | .error e => .error ("cannot resolve path '" ++ path ++ "': " ++ e.display)
    | .ok canonical => if host.allows canonical then .ok canonical else .error denied

def metadataInfo (node : Node) (stat : Stat) : Json :=
  .object
    [("is_dir", .bool node.isDir), ("is_file", .bool (!node.isDir && !node.isSymlink)),
      ("modified", (stat.modified.map Json.ofNat).getD .null), ("readonly", .bool stat.readonly),
      ("size", .ofNat stat.len)]

def readFileMetadata (path : String) : Effect (List UInt8) :=
  match allowedFilesystemPath env host tree path "path" with
  | .error message => .refused tree message
  | .ok filePath =>
    match tree.metadata env.links env.cwd ⟨true, filePath⟩ with
    | .error e =>
      { result := .error (.failed ("failed to read metadata for '" ++ path ++ "': " ++ e.display))
        tree }
    | .ok (node, stat, place) =>
      { result := (env.jsonToVec (metadataInfo node stat)).mapError fun e =>
          .failed ("failed to serialize metadata: " ++ e)
        tree, accesses := [.read path place] }

/-- The names that hold the pattern. -/
def collectListedFileNames (entries : List (Except String String)) (pattern dir : String) :
    Except String (List String) := do
  let names ← entries.mapM fun entry => entry.mapError fun e =>
    "failed to read directory entry while listing '" ++ dir ++ "': " ++ e
  return names.filter fun name => pattern = "" || containsText name pattern

def listFiles (dir pattern : String) : Effect (List String) :=
  match allowedFilesystemPath env host tree dir "directory" with
  | .error message => .refused tree message
  | .ok dirPath =>
    match tree.readDir env.links env.cwd ⟨true, dirPath⟩ with
    | .error e =>
      { result := .error (.failed ("failed to list directory '" ++ dir ++ "': " ++ e.display))
        tree }
    | .ok (names, place) =>
      { result := (collectListedFileNames (names.map .ok) pattern dir).mapError .failed
        tree, accesses := [.listed dir place] }

/-! ## Transitions -/

/-- `starts_with` on a path as it is written. -/
def HostState.allowsText (path : WrittenPath) : Bool :=
  path.absolute && host.allowedPaths.any fun p => p.components.isPrefixOf path.components

/-- A path that does not resolve is taken as it is. -/
def queryAllowed (path : String) : Bool :=
  match canonicalize env tree (.parse path) with
  | .ok canonical => host.allows canonical
  | .error _ => host.allowsText (.parse path)

def checkQuery (path : String) : Except String Unit :=
  if host.allowedPaths.isEmpty then .error (notAllowed host path ++ " (no paths configured)")
  else if queryAllowed env host tree path then .ok ()
  else .error (notAllowed host path)

def getPathTransitions (path : String) : Effect (List UInt8) :=
  match checkQuery env host tree path with
  | .error message => .refused tree message
  | .ok () =>
    match host.transitionStore with
    | none =>
      .refused tree "file transition history not available (no transition store configured)"
    | some store =>
      { result := do
          let transitions ← (store path).mapError .failed
          (env.transitionsToVec transitions).mapError fun e =>
            .failed ("failed to serialize transitions: " ++ e)
        tree, accesses := [.queried path] }

/-! ## Tools -/

def looksLikePath (s : String) : Bool :=
  "/".toList.isPrefixOf s.toList || "./".toList.isPrefixOf s.toList ||
    "../".toList.isPrefixOf s.toList || "~".toList.isPrefixOf s.toList

def checkPathAllowed (path : String) : Except String Unit :=
  match canonicalize env tree (.parse path) with
  | .error e =>
    .error ("cannot resolve path '" ++ path ++ "' for plugin '" ++ host.pluginName ++ "': " ++
      e.display)
  | .ok canonical => if host.allows canonical then .ok () else .error (notAllowed host path)

/-- The text after the first equals sign. -/
def afterEquals (arg : String) : Option String :=
  match arg.toList.dropWhile (· ≠ '=') with
  | [] => none
  | _ :: rest => some (String.ofList rest)

/-- An argument whole, and what comes after its first equals sign. -/
def argTexts (arg : String) : List String := arg :: (afterEquals arg).toList

def checkArg (arg : String) : Except String Unit :=
  (argTexts arg).forM fun text =>
    if looksLikePath text then checkPathAllowed env host tree text else .ok ()

def checkTool (tool : String) (args : List String) : Except String Unit :=
  if host.allowedTools.isEmpty || !host.allowedTools.contains tool then
    .error ("tool '" ++ tool ++ "' is not in the allowed list for plugin '" ++ host.pluginName ++
      "'")
  else do
    args.forM (checkArg env host tree)
    if host.allowedCapabilities.isEmpty ||
        !host.allowedCapabilities.any fun c => "execute".toList.isPrefixOf c.toList then
      throw ("plugin '" ++ host.pluginName ++
        "' lacks 'execute' capability required for tool execution")

def hostToolError (tool : String) (timeoutMs : Nat) (error : ToolFailure) : String :=
  if error.execution.any fun message => containsText message "timed out" then
    "tool '" ++ tool ++ "' timed out after " ++ toString timeoutMs ++ "ms"
  else error.text

def runTool (tool : String) (args : List String) (timeoutMs : Nat) : Effect ToolOutput :=
  match checkTool env host tree tool args with
  | .error message => .refused tree message
  | .ok () =>
    let (tree', output) := env.runWithTimeoutConfig tool args timeoutMs tree
    { result := (output.map fun out => ⟨out.code.getD (-1), out.stdout, out.stderr⟩).mapError
        fun e => .failed (hostToolError tool timeoutMs e)
      tree := tree', accesses := [.ran tool args] }

/-! ## Calls -/

inductive HostCall where
  | writeFile (path : String) (content : List UInt8)
  | readFileMetadata (path : String)
  | listFiles (dir pattern : String)
  | getPathTransitions (path : String)
  | runTool (tool : String) (args : List String) (timeoutMs : Nat)
  deriving DecidableEq, Repr

/-- A call and what became of it. -/
structure HostEvent where
  call : HostCall
  before : FileTree
  outcome : Except HostError Unit
  after : FileTree
  accesses : List Access

def Effect.event {α : Type} (call : HostCall) (effect : Effect α) : HostEvent :=
  { call, before := tree, outcome := effect.result.map fun _ => (), after := effect.tree
    accesses := effect.accesses }

def perform (call : HostCall) : HostEvent :=
  match call with
  | .writeFile path content => (writeFile env host tree path content).event tree call
  | .readFileMetadata path => (readFileMetadata env host tree path).event tree call
  | .listFiles dir pattern => (listFiles env host tree dir pattern).event tree call
  | .getPathTransitions path => (getPathTransitions env host tree path).event tree call
  | .runTool tool args timeoutMs => (runTool env host tree tool args timeoutMs).event tree call

/-- The events of a sequence of calls, each with what others do to the disk after it. -/
def performAll : FileTree → List (HostCall × (FileTree → FileTree)) → List HostEvent
  | _, [] => []
  | tree, (call, meanwhile) :: rest =>
    let event := perform env host tree call
    event :: performAll (meanwhile event.after) rest

end

end Voom.Kernel
