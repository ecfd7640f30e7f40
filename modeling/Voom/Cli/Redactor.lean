-- SUMMARY: What a bug report redacts: secrets, names of video files and comments of tracks.
import Mathlib.Data.Char
import Mathlib.Data.List.Lex
import Mathlib.Data.List.Sort
import Voom.Domain.Json
import Voom.Domain.Text
import Voom.Lib.Replace

/-!
# The redactor of a bug report

A redactor walks through a document. What it recognises it registers with a
placeholder, and every text is put out with all that is registered by then
replaced, the longest first. Strings directly under a secret key and comments of
known tracks are put out as their placeholder.
-/

namespace Voom.Cli.BugReport

open Voom.Lib (replaceAll)

/-- A text by its characters. -/
abbrev Text := List Char

/-! ## Texts -/

/-- `split_whitespace`. -/
def splitWhitespace (input : Text) : List Text :=
  (input.splitOnP isWhitespace).filter (· ≠ [])

/-- `split_once`, at the first such character. -/
def splitOnce (p : Char → Bool) (text : Text) : Option (Text × Text) :=
  match text.dropWhile (!p ·) with
  | [] => none
  | _ :: rest => some (text.takeWhile (!p ·), rest)

/-- What stands behind the last such character: `rsplit(..).next()`. -/
def afterLast (p : Char → Bool) (text : Text) : Text := (text.reverse.takeWhile (!p ·)).reverse

/-- `trim_end_matches`. -/
def trimEndMatches (p : Char → Bool) (text : Text) : Text := (text.reverse.dropWhile p).reverse

/-- `trim_matches`. -/
def trimMatches (p : Char → Bool) (text : Text) : Text := trimEndMatches p (text.dropWhile p)

/-- `str::contains`. -/
def contains (text : Text) (part : String) : Bool := decide (part.toList <:+: text)

/-- `format!` with `{:03}`. -/
def threeDigits (n : Nat) : Text := (Nat.toDigits 10 n).leftpad 3 '0'

/-- The length in bytes. -/
def byteLength (text : Text) : Nat := (text.map Char.utf8Size).sum

/-- The places of a needle, each found from the end of the one before. -/
def occurrences (needle : Text) : (skip place : Nat) → Text → List Nat
  | _, _, [] => []
  | skip + 1, place, _ :: rest => occurrences needle skip (place + 1) rest
  | 0, place, c :: rest =>
    if needle.isPrefixOf (c :: rest) then
      place :: occurrences needle (needle.length - 1) (place + 1) rest
    else occurrences needle 0 (place + 1) rest

/-! ## Secrets -/

/-- `to_ascii_lowercase().replace('-', "_")`. -/
def normalizedKey (key : Text) : Text :=
  (key.map Char.toLower).map fun c => if c = '-' then '_' else c

def isSecretKey (key : Text) : Bool :=
  let normalized := normalizedKey key
  contains normalized "token" || contains normalized "api_key" || contains normalized "apikey"
    || contains normalized "secret" || contains normalized "password"
    || contains normalized "credential" || contains normalized "bearer"

inductive SecretCategory where
  | apiKey
  | token
  | secret
  deriving DecidableEq, Repr

def secretCategory (key : Text) : SecretCategory :=
  let normalized := normalizedKey key
  if contains normalized "api_key" || contains normalized "apikey" then .apiKey
  else if contains normalized "token" || contains normalized "bearer" then .token
  else .secret

def splitSecretAssignment (token : Text) : Option (Text × Text) :=
  match splitOnce (· = '=') token with
  | none => none
  | some (key, value) =>
    if !isSecretKey key then none
    else some (key, trimMatches (· = '\'') (trimMatches (· = '"') value))

/-! ## Names of video files -/

def videoExtensions : List Text :=
  ["mkv", "mp4", "mov", "avi", "m4v", "webm", "ts", "m2ts", "mpg", "mpeg"].map String.toList

def extension (candidate : Text) : Option Text :=
  if '.' ∈ candidate then
    let ext := trimEndMatches (· ∈ [')', ']', '}', ',', ';', ':']) (afterLast (· = '.') candidate)
    if ext = [] then none else some ext
  else none

def isVideoFilename (candidate : Text) : Bool :=
  (extension candidate).any (· ∈ videoExtensions)

section

variable (isUppercase : Char → Bool)

/-- Where a name may start: behind a separator, else where several words start with an
uppercase letter or a digit. -/
def candidateStart (front : Text) : Nat :=
  let tail := front.reverse.takeWhile (· ∉ ['/', '\\', '"', '\'', '\t', '\n', '\r'])
  if tail.length < front.length then front.length - tail.length
  else
    let starts := 0 :: (front.findIdxs isWhitespace).map (· + 1)
    let found := starts.findSome? fun start =>
      let candidate := (front.drop start).dropWhile isWhitespace
      match splitOnce isWhitespace candidate with
      | none => none
      | some (firstWord, _) =>
        if firstWord.head?.any (fun c => isUppercase c || c.isDigit) then
          some (start + ((front.drop start).length - candidate.length))
        else none
    found.getD 0

def filenameCandidates (input : Text) : List Text :=
  videoExtensions.flatMap fun ext =>
    let needle := '.' :: ext
    (occurrences needle 0 0 input).filterMap fun extStart =>
      let extEnd := extStart + needle.length
      let start := candidateStart isUppercase (input.take extStart)
      let candidate := trimMatches (fun c => isWhitespace c || c ∈ ['"', '\'', '[', ']', '\x7b', '\x7d'])
        ((input.take extEnd).drop start)
      if candidate = [] then none else some candidate

end

/-! ## The redactor -/

inductive RedactionKind where
  | fileName
  | secret
  | pathComponent
  | trackComment
  deriving DecidableEq, Repr

/-- An original with its replacement and its kind. -/
structure Mapping where
  original : Text
  replacement : Text
  kind : RedactionKind
  deriving DecidableEq, Repr

/-- The maps `replacements` and `kinds` have the same originals and are one here. -/
structure Redactor where
  replacements : List Mapping := []
  videoCount : Nat := 0
  apiKeyCount : Nat := 0
  tokenCount : Nat := 0
  secretCount : Nat := 0
  deriving DecidableEq, Repr

namespace Redactor

/-- `replacements.get`. -/
def replacement? (r : Redactor) (original : Text) : Option Text :=
  (r.replacements.find? (·.original = original)).map (·.replacement)

/-- What is registered keeps its replacement. -/
def registerReplacement (r : Redactor) (original replacement : Text) (kind : RedactionKind) :
    Redactor :=
  if (r.replacement? original).isSome then r
  else { r with replacements := r.replacements ++ [⟨original, replacement, kind⟩] }

def secretReplacementForKey (r : Redactor) (key : Text) : Text × Redactor :=
  match secretCategory key with
  | .apiKey =>
    ("<api-key-".toList ++ threeDigits (r.apiKeyCount + 1) ++ ['>'],
      { r with apiKeyCount := r.apiKeyCount + 1 })
  | .token =>
    ("<token-".toList ++ threeDigits (r.tokenCount + 1) ++ ['>'],
      { r with tokenCount := r.tokenCount + 1 })
  | .secret =>
    ("<secret-".toList ++ threeDigits (r.secretCount + 1) ++ ['>'],
      { r with secretCount := r.secretCount + 1 })

def registerSecretAssignments (r : Redactor) (input : Text) : Redactor :=
  (splitWhitespace input).foldl (fun r token =>
    match splitSecretAssignment token with
    | none => r
    | some (key, value) =>
      if value = [] then r
      else
        let (replacement, r) := r.secretReplacementForKey key
        r.registerReplacement value replacement .secret) r

/-- `format!("video{:03}.{ext}")`. -/
def videoReplacement (r : Redactor) (ext : Text) : Text :=
  "video".toList ++ threeDigits r.videoCount ++ '.' :: ext

def registerVideoFilenames (isUppercase : Char → Bool) (r : Redactor) (input : Text) : Redactor :=
  (filenameCandidates isUppercase input).foldl (fun r candidate =>
    if !isVideoFilename candidate then r
    else if (r.replacement? candidate).isSome then r
    else
      let replacement := r.videoReplacement ((extension candidate).getD [])
      { r with videoCount := r.videoCount + 1 }.registerReplacement candidate replacement .fileName)
    r

/-- The longest original first, and those of one length in their order. -/
def before (a b : Text) : Prop :=
  byteLength b < byteLength a ∨ byteLength a = byteLength b ∧ a ≤ b

instance (a b : Text) : Decidable (before a b) := by
  unfold before
  infer_instance

theorem before_refl (a : Text) : before a a := .inr ⟨rfl, le_rfl⟩

theorem before_trans {a b c : Text} (hab : before a b) (hbc : before b c) : before a c := by
  obtain hab | ⟨hab, hle⟩ := hab
  · obtain hbc | ⟨hbc, -⟩ := hbc
    · exact .inl (hbc.trans hab)
    · exact .inl (hbc ▸ hab)
  · obtain hbc | ⟨hbc, hle'⟩ := hbc
    · exact .inl (hab ▸ hbc)
    · exact .inr ⟨hab.trans hbc, hle.trans hle'⟩

theorem before_total (a b : Text) : before a b ∨ before b a := by
  rcases Nat.lt_trichotomy (byteLength a) (byteLength b) with hlt | heq | hgt
  · exact .inr (.inl hlt)
  · exact (le_total a b).imp (fun hle => .inr ⟨heq, hle⟩) fun hle => .inr ⟨heq.symm, hle⟩
  · exact .inl (.inl hgt)

theorem before_antisymm {a b : Text} (hab : before a b) (hba : before b a) : a = b := by
  obtain hab | ⟨heq, hle⟩ := hab
  · obtain hba | ⟨heq, -⟩ := hba
    · exact absurd hab hba.asymm
    · exact absurd heq hab.ne
  · obtain hba | ⟨-, hle'⟩ := hba
    · exact absurd heq hba.ne
    · exact le_antisymm hle hle'

def applyReplacements (r : Redactor) (input : Text) : Text :=
  (r.replacements.insertionSort fun a b => before a.original b.original).foldl
    (fun output mapping => replaceAll mapping.original mapping.replacement output) input

def redactText (isUppercase : Char → Bool) (r : Redactor) (input : Text) : Text × Redactor :=
  let r := r.registerSecretAssignments input
  let r := r.registerVideoFilenames isUppercase input
  (r.applyReplacements input, r)

def filePlaceholderForSource (r : Redactor) (source : Text) : Option Text × Redactor :=
  let fileName := afterLast (· ∈ ['/', '\\']) source
  if !isVideoFilename fileName then (none, r)
  else
    match r.replacement? fileName with
    | some replacement => (some replacement, r)
    | none =>
      match extension fileName with
      | none => (none, r)
      | some ext =>
        let replacement := r.videoReplacement ext
        (some replacement, { r with videoCount := r.videoCount + 1 }.registerReplacement fileName
          replacement .fileName)

end Redactor

/-! ## Documents -/

/-- The placeholder of the file and of the comments of the track around a value. -/
structure RedactionContext where
  file : Option Text := none
  trackComment : Option Text := none
  deriving DecidableEq, Repr

def normalizedTrackKind (trackType : Text) : Option String :=
  let normalized := trackType.map Char.toLower
  if normalized = "video".toList then some "video"
  else if "audio".toList <+: normalized then some "audio"
  else if "subtitle".toList <+: normalized then some "subtitle"
  else if normalized = "attachment".toList then some "attachment"
  else none

/-- The kind and the number of a track. -/
def trackOf (track : Json) : Option (String × Nat) := do
  let trackType ← (track.get "track_type").or (track.get "type")
  let kind ← normalizedTrackKind (← trackType.asStr).toList
  let index ← (← track.get "index").asU64
  return (kind, index)

def trackCommentReplacement (file : Text) (track : Json) : Option Text :=
  (trackOf track).map fun (kind, index) =>
    "comment for ".toList ++ file ++ ' ' :: kind.toList ++ " track ".toList ++ Nat.toDigits 10 index

/-- Where the name of the file of an object stands. -/
def fileSource (map : Json) : Option String :=
  ((map.get "filename").bind Json.asStr).or ((map.get "path").bind Json.asStr)

namespace Redactor

def fileContextFromMap (r : Redactor) (map : Json) : Option Text × Redactor :=
  match fileSource map with
  | none => (none, r)
  | some source => r.filePlaceholderForSource source.toList

/-- What `redact_object_with_context` does before it goes through the values. -/
def objectContext (r : Redactor) (context : RedactionContext) (map : Json) :
    RedactionContext × Redactor :=
  let (placeholder, r) := r.fileContextFromMap map
  let file := placeholder.or context.file
  let trackComment := file.bind fun file => trackCommentReplacement file map
  (⟨file, trackComment.or context.trackComment⟩, r)

section

variable (isUppercase : Char → Bool)

/-- A string with a key. -/
def redactStringValue (context : RedactionContext) (r : Redactor) (key : String) (s : Text) :
    Text × Redactor :=
  if isSecretKey key.toList then
    let (replacement, r) := r.secretReplacementForKey key.toList
    (replacement, r.registerReplacement s replacement .secret)
  else
    match context.trackComment with
    | some replacement =>
      if key.toList.map Char.toLower = "comment".toList then
        (replacement, r.registerReplacement s replacement .trackComment)
      else r.redactText isUppercase s
    | none => r.redactText isUppercase s

mutual

def redactJsonWithContext (context : RedactionContext) (r : Redactor) : Json → Json × Redactor
  | .object map =>
    let (context, r) := r.objectContext context (.object map)
    let (map, r) := redactFields context r map
    (.object map, r)
  | .array values =>
    let (values, r) := redactItems context r values
    (.array values, r)
  | .string s =>
    let (s, r) := r.redactText isUppercase s.toList
    (.string (String.ofList s), r)
  | .null => (.null, r)
  | .bool b => (.bool b, r)
  | .number n => (.number n, r)

def redactItems (context : RedactionContext) (r : Redactor) :
    List Json → List Json × Redactor
  | [] => ([], r)
  | value :: values =>
    let (value, r) := redactJsonWithContext context r value
    let (values, r) := redactItems context r values
    (value :: values, r)

def redactFields (context : RedactionContext) (r : Redactor) :
    List (String × Json) → List (String × Json) × Redactor
  | [] => ([], r)
  | (key, value) :: map =>
    let (value, r) := redactObjectValue context r key value
    let (map, r) := redactFields context r map
    ((key, value) :: map, r)

def redactObjectValue (context : RedactionContext) (r : Redactor) (key : String) :
    Json → Json × Redactor
  | .string s =>
    let (s, r) := redactStringValue isUppercase context r key s.toList
    (.string (String.ofList s), r)
  | .object map =>
    let (context, r) := r.objectContext context (.object map)
    let (map, r) := redactFields context r map
    (.object map, r)
  | .array values =>
    let (values, r) := redactItems context r values
    (.array values, r)
  | .null => (.null, r)
  | .bool b => (.bool b, r)
  | .number n => (.number n, r)

end

def redactJson (r : Redactor) (value : Json) : Json × Redactor :=
  redactJsonWithContext isUppercase {} r value

end

end Redactor

end Voom.Cli.BugReport
