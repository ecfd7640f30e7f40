-- SUMMARY: External tools: what a run comes back with, and the texts and checks around it.
import Voom.Domain.Events
import Voom.Domain.Text

namespace Voom.Executors

/-! ## Runs -/

/-- What a tool that was started left behind. A tool killed by a signal has no exit code. -/
structure ToolOutput where
  code : Option Int
  statusText : String
  stderr : String
  durationMs : Nat
  deriving DecidableEq, Repr, Inhabited

/-- A tool may fail to start or run into its timeout. -/
abbrev ToolOutcome := Except VoomError ToolOutput

/-- `status.success()`. -/
def ToolOutput.success (output : ToolOutput) : Bool := output.code = some 0

/-! ## Texts -/

def needsQuotes (s : String) : Bool :=
  s.toList.any fun c => isWhitespace c || "\"'\\$`!#&|;()\x7b\x7d[]<>?*~".toList.contains c

/-- The text in single quotes, each quote (character 39) in it written as `'\''`. -/
def singleQuoted (s : String) : String :=
  "'" ++ String.ofList (s.toList.flatMap fun c => if c.toNat = 39 then "'\\''".toList else [c]) ++ "'"

def shellQuoteArgs (tool : String) (args : List String) : String :=
  let quotedTool := if needsQuotes tool then singleQuoted tool else tool
  " ".intercalate (quotedTool :: args.map fun s =>
    if s = "" || needsQuotes s then singleQuoted s else s)

/-- `str::lines`: a carriage return before the line feed belongs to the line end. -/
def lines (s : String) : List String :=
  let pieces := s.toList.splitOn '\n'
  let pieces := if pieces.getLast? = some [] then pieces.dropLast else pieces
  pieces.map fun line =>
    String.ofList (if line.getLast? = some '\r' then line.dropLast else line)

/-- The last lines that are not empty. -/
def stderrTail (stderr : String) (maxLines : Nat) : String :=
  let kept := (lines stderr).filter (· ≠ "")
  "\n".intercalate (kept.drop (kept.length - maxLines))

def hexDigit (n : Nat) : Char := "0123456789abcdef".toList.getD n '0'

/-- Control characters other than tab and line ends are refused. -/
def validateMetadataValue (value : String) : Except VoomError Unit :=
  let bytes := value.toUTF8.toList
  match bytes.findIdx? fun b => b < 0x20 && b ≠ 9 && b ≠ 10 && b ≠ 13 with
  | none => .ok ()
  | some pos =>
    let b := (bytes.getD pos 0).toNat
    .error (.validation
      ("metadata value contains control character at byte " ++ toString pos ++ ": 0x" ++
        String.ofList [hexDigit (b / 16), hexDigit (b % 16)]))

/-! ## Writing back -/

/-- A temporary path next to the original, with a fresh identifier. -/
def tempPathWithExt (original : Path) (id ext : String) : Path :=
  let stem := (original.fileName.map fun name => (Path.splitExtension name).1).getD "output"
  ((original.parent).getD ⟨[]⟩).join (stem ++ ".voom_tmp_" ++ id ++ "." ++ ext)

/-- The store answers only if the plan belongs to a scan session and there is a store. -/
def recordMutationForPendingWrite (storage : Option (Except String Unit)) (session : Option Uuid)
    (dest : Path) : Except VoomError Unit :=
  match session, storage with
  | some _, some (.error e) =>
    .error (.toolExecution "voom-executor"
      ("failed to record VOOM mutation for " ++ dest.display ++ ": " ++ e ++
        "; refusing to perform filesystem write to avoid scanner race"))
  | _, _ => .ok ()

end Voom.Executors
