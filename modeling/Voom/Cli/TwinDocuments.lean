-- SUMMARY: Two documents that differ in hidden strings only, and when a redactor reads both alike.
import Voom.Cli.Redactor

/-!
# Twin documents

Two documents of one shape, written as one document whose texts have hidden
pieces with two values. What a bug report is to hide are the strings below
secret keys and the base names of media files. The redactor reads twins alike
when it finds the same in both, in the same order, and each text is cut into
what it has found and what is the same in both.
-/

namespace Voom.Cli.BugReport

open Voom.Lib (Piece render OnlyAt partly)

/-- A text of the one document and the one in its place in the other. -/
abbrev Pair := Text × Text

/-- The two documents. -/
def sides : List (Pair → Text) := [Prod.fst, Prod.snd]

abbrev TwinText := List (Piece Char Pair)

inductive Twin where
  | null
  | bool (b : Bool)
  | number (n : JsonNumber)
  | string (s : TwinText)
  | array (items : List Twin)
  | object (fields : List (String × Twin))

namespace TwinText

/-- The texts of both documents. -/
def pair (s : TwinText) : Pair := (render Prod.fst s, render Prod.snd s)

/-- The hidden strings. -/
def hidden (s : TwinText) : List Pair :=
  s.filterMap fun
    | .plain _ => none
    | .key p => some p

end TwinText

namespace Twin

section

variable (side : Pair → Text)

mutual

/-- The document on one side. -/
def view : Twin → Json
  | .null => .null
  | .bool b => .bool b
  | .number n => .number n
  | .string s => .string (String.ofList (side s.pair))
  | .array items => .array (viewItems items)
  | .object fields => .object (viewFields fields)

def viewItems : List Twin → List Json
  | [] => []
  | t :: rest => t.view :: viewItems rest

def viewFields : List (String × Twin) → List (String × Json)
  | [] => []
  | (key, t) :: rest => (key, t.view) :: viewFields rest

end

end

mutual

/-- The texts, each with whether it stands below a secret key. -/
def texts (below : Bool) : Twin → List (Bool × TwinText)
  | .null | .bool _ | .number _ => []
  | .string s => [(below, s)]
  | .array items => textsOfItems below items
  | .object fields => textsOfFields below fields

def textsOfItems (below : Bool) : List Twin → List (Bool × TwinText)
  | [] => []
  | t :: rest => t.texts below ++ textsOfItems below rest

def textsOfFields (below : Bool) : List (String × Twin) → List (Bool × TwinText)
  | [] => []
  | (key, t) :: rest => t.texts (below || isSecretKey key.toList) ++ textsOfFields below rest

end

end Twin

/-! ## What is to be hidden -/

/-- The extensions of the files discovery takes for media. -/
def mediaExtensions : List Text :=
  ["mkv", "mka", "mks", "mp4", "m4v", "m4a", "avi", "webm", "flv", "wmv", "wma", "mov", "ts", "m2ts",
    "mts"].map String.toList

theorem text_lawful : LawfulBEq Text := inferInstanceAs (LawfulBEq (List Char))

attribute [local instance] text_lawful

/-- The extension of a media file stands here, in any letter case, and ends here. -/
def startsWithMediaExtension (text : Text) : Bool :=
  match text with
  | '.' :: rest => rest.takeWhile Char.isAlphanum |>.map Char.toLower |> (· ∈ mediaExtensions)
  | _ => false

/-- The hidden pieces are base names of media files, each behind a separator. -/
def hidesNames (front : Text) : TwinText → Bool
  | [] => true
  | .plain text :: rest => hidesNames text rest
  | .key p :: rest =>
    front.getLast?.all (fun c => isWhitespace c || c ∈ ['/', '\\', '"', '\'']) &&
      sides.all (fun side => side p ≠ [] && '/' ∉ side p && '\\' ∉ side p &&
        startsWithMediaExtension (render side rest)) &&
      hidesNames [] rest

/-- What a text hides: below a secret key all of it. -/
def hidesProperly : Bool × TwinText → Bool
  | (true, s) => s.hidden = [] || s.length = 1
  | (false, s) => hidesNames [] s

/-- Texts are equal in the one document where they are in the other. -/
def Matching (pairs : List Pair) : Prop :=
  ∀ p ∈ pairs, ∀ q ∈ pairs, p.1 = q.1 ↔ p.2 = q.2

instance (pairs : List Pair) : Decidable (Matching pairs) :=
  inferInstanceAs (Decidable (∀ p ∈ pairs, ∀ q ∈ pairs, _))

/-- The placeholders the redactor makes up. -/
inductive IsPlaceholder : Text → Prop
  | apiKey (n : Nat) : IsPlaceholder ("<api-key-".toList ++ threeDigits n ++ ['>'])
  | token (n : Nat) : IsPlaceholder ("<token-".toList ++ threeDigits n ++ ['>'])
  | secret (n : Nat) : IsPlaceholder ("<secret-".toList ++ threeDigits n ++ ['>'])
  | video (n : Nat) {ext : Text} (hext : ext ∈ videoExtensions) :
      IsPlaceholder ("video".toList ++ threeDigits n ++ '.' :: ext)
  | comment {file : Text} (hfile : IsPlaceholder file) {kind : String}
      (hkind : kind ∈ ["video", "audio", "subtitle", "attachment"]) (index : Nat) :
      IsPlaceholder ("comment for ".toList ++ file ++ ' ' :: kind.toList ++ " track ".toList ++
        Nat.toDigits 10 index)

/-- The documents differ in strings below secret keys and in base names of media files, with the
same pattern of equalities, and none of these stands in other text or a placeholder. -/
structure Twin.Hides (t : Twin) : Prop where
  properly : ∀ x ∈ t.texts false, hidesProperly x = true
  matching : Matching ((t.texts false).flatMap fun x => TwinText.hidden x.2)
  nowhereElse : ∀ x ∈ t.texts false, ∀ y ∈ t.texts false, ∀ p ∈ TwinText.hidden x.2,
    ∀ side ∈ sides, OnlyAt p (side p) side y.2
  noPlaceholder : ∀ x ∈ t.texts false, ∀ p ∈ TwinText.hidden x.2, ∀ side ∈ sides,
    ∀ text, IsPlaceholder text → ¬side p <:+: text

/-! ## What the redactor finds -/

/-- The secret assignments with a value. -/
def assignments (input : Text) : List (Text × Text) :=
  (splitWhitespace input).filterMap fun token =>
    (splitSecretAssignment token).filter fun (_, value) => value ≠ []

section

variable (isUppercase : Char → Bool)

def videoNames (input : Text) : List Text :=
  (filenameCandidates isUppercase input).filter isVideoFilename

/-- The assignments and names found in a text and its twin. -/
def foundInText (s : Pair) : List Pair :=
  ((assignments s.1).map (·.2)).zip ((assignments s.2).map (·.2)) ++
    (videoNames isUppercase s.1).zip (videoNames isUppercase s.2)

/-- What is found is of the same categories and extensions. -/
def ReadAlike (s : Pair) : Prop :=
  (assignments s.1).map (fun found => secretCategory found.1) =
      (assignments s.2).map (fun found => secretCategory found.1) ∧
    (videoNames isUppercase s.1).map extension = (videoNames isUppercase s.2).map extension

instance (s : Pair) : Decidable (ReadAlike isUppercase s) := inferInstanceAs (Decidable (_ ∧ _))

end

/-- Something that differs is replaced with it or after it, in one of the documents. -/
def Early (pairs : List Pair) (p : Pair) : Prop :=
  ∃ d ∈ pairs, d.1 ≠ d.2 ∧ ∃ side ∈ sides, Redactor.before (side p) (side d)

/-- Replaced before it on this side. -/
def Before (side : Pair → Text) (p q : Pair) : Prop :=
  side q ≠ side p ∧ Redactor.before (side q) (side p)

instance (side : Pair → Text) (p : Pair) : DecidablePred (Before side p) := fun _ =>
  inferInstanceAs (Decidable (_ ∧ _))

/-- The texts are cut into the pairs and what is the same in both. No pair is disturbed: each starts
only at its own pieces, whatever placeholders stand for those replaced before it. Pairs that are
the same in both and come after all that differ may stand anywhere. -/
def CutAlike (pairs : List Pair) (s : Pair) : Prop :=
  ∃ pieces : TwinText,
    TwinText.pair pieces = s ∧
      (∀ p, .key p ∈ pieces → p ∈ pairs ∧ Early pairs p) ∧
      ∀ side ∈ sides, ∀ p ∈ pairs, Early pairs p → side p ≠ [] ∧
        ∀ target : Pair → Text, (∀ q, IsPlaceholder (target q)) →
          OnlyAt p (side p) (partly side target (Before side p)) pieces

/-- What is known around a value: the name of a file, and a track whose comments are replaced. -/
structure Known where
  file : Bool := false
  comment : Bool := false

/-- The name of the video file of an object. -/
def videoFileName (map : Json) : Option Text :=
  ((fileSource map).map fun source => afterLast (· ∈ ['/', '\\']) source.toList).filter
    isVideoFilename

namespace Known

/-- What is known in an object. -/
def within (known : Known) (map : Json) : Known :=
  let file := (videoFileName map).isSome || known.file
  ⟨file, file && (trackOf map).isSome || known.comment⟩

/-- A string with this key is replaced as a whole. -/
def replacesWhole (known : Known) (key : String) : Bool :=
  isSecretKey key.toList || known.comment && key.toList.map Char.toLower = "comment".toList

end Known

namespace Twin

section

variable (isUppercase : Char → Bool)

/-- The names of the files of an object. -/
def foundInObject (fields : List (String × Twin)) : List Pair :=
  (videoFileName (view Prod.fst (.object fields))).toList.zip
    (videoFileName (view Prod.snd (.object fields))).toList

/-- What is found at a string, with the key it has. -/
def foundInString (known : Known) (key : Option String) (s : TwinText) : List Pair :=
  if key.any known.replacesWhole then [s.pair] else foundInText isUppercase s.pair

mutual

/-- All that is found in a document and its twin, as they are walked through. -/
def found (known : Known) (key : Option String) : Twin → List Pair
  | .null | .bool _ | .number _ => []
  | .string s => foundInString isUppercase known key s
  | .array items => foundInItems known items
  | .object fields =>
    foundInObject fields ++ foundInFields (known.within (view Prod.fst (.object fields))) fields

def foundInItems (known : Known) : List Twin → List Pair
  | [] => []
  | t :: rest => t.found known none ++ foundInItems known rest

def foundInFields (known : Known) : List (String × Twin) → List Pair
  | [] => []
  | (key, t) :: rest => t.found known (some key) ++ foundInFields known rest

end

/-- A string is replaced as a whole, or both texts are read and cut alike by what is found up to
it. -/
def StringAlike (sofar : List Pair) (known : Known) (key : Option String) (s : TwinText) : Prop :=
  key.any known.replacesWhole = true ∨
    ReadAlike isUppercase s.pair ∧ CutAlike (sofar ++ foundInText isUppercase s.pair) s.pair

/-- Both objects name a video file with the same extension, and the same track. -/
def ObjectAlike (fields : List (String × Twin)) : Prop :=
  (videoFileName (view Prod.fst (.object fields))).map extension =
      (videoFileName (view Prod.snd (.object fields))).map extension ∧
    trackOf (view Prod.fst (.object fields)) = trackOf (view Prod.snd (.object fields))

instance (fields : List (String × Twin)) : Decidable (ObjectAlike fields) :=
  inferInstanceAs (Decidable (_ ∧ _))

mutual

/-- The redactor finds the same in the documents, after what it has found so far. -/
def Alike (sofar : List Pair) (known : Known) (key : Option String) : Twin → Prop
  | .null | .bool _ | .number _ => True
  | .string s => StringAlike isUppercase sofar known key s
  | .array items => AlikeItems sofar known items
  | .object fields =>
    ObjectAlike fields ∧
      AlikeFields (sofar ++ foundInObject fields)
        (known.within (view Prod.fst (.object fields))) fields

def AlikeItems (sofar : List Pair) (known : Known) : List Twin → Prop
  | [] => True
  | t :: rest =>
    t.Alike sofar known none ∧ AlikeItems (sofar ++ t.found isUppercase known none) known rest

def AlikeFields (sofar : List Pair) (known : Known) : List (String × Twin) → Prop
  | [] => True
  | (key, t) :: rest =>
    t.Alike sofar known (some key) ∧
      AlikeFields (sofar ++ t.found isUppercase known (some key)) known rest

end

/-- A fresh redactor reads the documents alike. -/
structure ReadsAlike (t : Twin) : Prop where
  matching : Matching (t.found isUppercase {} none)
  alike : t.Alike isUppercase [] {} none

end

end Twin

end Voom.Cli.BugReport
