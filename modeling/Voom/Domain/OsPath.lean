-- SUMMARY: Paths as the file system has them, made of bytes, and the texts that are made of them.
import Mathlib.Data.Nat.Notation
import Mathlib.Tactic.Common
import Voom.Domain.Path

/-!
# Paths of bytes

A file name is any bytes, and becomes a text by `to_string_lossy`: bytes that
are no UTF-8 are replaced. The paths of texts are those paths of bytes whose
names all are UTF-8.
-/

namespace Voom

/-- A name of the file system. -/
abbrev OsString := ByteArray

/-! ## Decoding -/

namespace Utf8

/-- How many bytes continue a first byte, and the bounds of the first of them. -/
def continuation (b : Nat) : Option (Nat × Nat × Nat) :=
  if b < 0x80 then some (0, 0x80, 0xBF)
  else if 0xC2 ≤ b ∧ b ≤ 0xDF then some (1, 0x80, 0xBF)
  else if b = 0xE0 then some (2, 0xA0, 0xBF)
  else if b = 0xED then some (2, 0x80, 0x9F)
  else if 0xE1 ≤ b ∧ b ≤ 0xEF then some (2, 0x80, 0xBF)
  else if b = 0xF0 then some (3, 0x90, 0xBF)
  else if 0xF1 ≤ b ∧ b ≤ 0xF3 then some (3, 0x80, 0xBF)
  else if b = 0xF4 then some (3, 0x80, 0x8F)
  else none

/-- The bytes in front that continue a character, at most so many. -/
def continued : Nat → Nat → Nat → List Nat → List Nat
  | 0, _, _, _ | _, _, _, [] => []
  | count + 1, low, high, b :: rest =>
    if low ≤ b ∧ b ≤ high then b :: continued count 0x80 0xBF rest else []

/-- The character of a first byte and those that continue it. -/
def charOf (b : Nat) (tail : List Nat) : Char :=
  let lead := match tail.length with
    | 0 => b
    | 1 => b % 32
    | 2 => b % 16
    | _ => b % 8
  Char.ofNat (tail.foldl (fun n b => n * 64 + b % 64) lead)

/-- Bytes that only begin a character are replaced as one. Each round takes a byte at least. -/
def lossyChars : Nat → List Nat → List Char
  | 0, _ | _, [] => []
  | fuel + 1, b :: rest =>
    match continuation b with
    | none => '\uFFFD' :: lossyChars fuel rest
    | some (count, low, high) =>
      let tail := continued count low high rest
      (if tail.length = count then charOf b tail else '\uFFFD') ::
        lossyChars fuel (rest.drop tail.length)

end Utf8

/-- `to_string_lossy` -/
def toStringLossy (s : OsString) : String :=
  match String.fromUTF8? s with
  | some text => text
  | none => String.ofList (Utf8.lossyChars s.size (s.data.toList.map UInt8.toNat))

@[simp] theorem toStringLossy_text (text : String) : toStringLossy text.toByteArray = text := by
  have hvalid : String.fromUTF8? text.toByteArray = some text := by
    unfold String.fromUTF8?
    rw [dif_pos text.isValidUTF8]
    rfl
  unfold toStringLossy
  rw [hvalid]

/-! ## Paths -/

local instance instDecidableEqOsString : DecidableEq OsString := ByteArray.instDecidableEq

/-- An absolute, normalised path: its components, outermost first. -/
structure OsPath where
  components : List OsString
  deriving DecidableEq

namespace OsPath

/-- The final component, absent for the root. -/
def fileName (p : OsPath) : Option OsString :=
  p.components.getLast?

/-- The path without its final component, absent for the root. -/
def parent (p : OsPath) : Option OsPath :=
  match p.components with
  | [] => none
  | _ :: _ => some ⟨p.components.dropLast⟩

def join (p : OsPath) (name : String) : OsPath :=
  ⟨p.components ++ [name.toByteArray]⟩

@[simp] theorem fileName_join (p : OsPath) (name : String) :
    (p.join name).fileName = some name.toByteArray := by
  simp [join, fileName]

@[simp] theorem parent_join (p : OsPath) (name : String) : (p.join name).parent = some p := by
  unfold join parent
  cases h : p.components ++ [name.toByteArray] with
  | nil => simp at h
  | cons c cs =>
    simp only [Option.some.injEq]
    rw [← h, List.dropLast_concat]

/-- A path with a file name has a parent. -/
theorem split_of_fileName {p : OsPath} {name : OsString} (h : p.fileName = some name) :
    ∃ dir, p.parent = some dir ∧ p = ⟨dir.components ++ [name]⟩ := by
  obtain ⟨cs⟩ := p
  simp only [fileName] at h
  have hsplit : cs.dropLast ++ [name] = cs := List.dropLast_append_getLast? name h
  cases cs with
  | nil => cases h
  | cons c cs => exact ⟨⟨(c :: cs).dropLast⟩, rfl, congrArg OsPath.mk hsplit.symm⟩

theorem join_inj {p q : OsPath} {a b : String} : p.join a = q.join b ↔ p = q ∧ a = b := by
  obtain ⟨cs⟩ := p
  obtain ⟨ds⟩ := q
  simp only [join, OsPath.mk.injEq]
  constructor
  · intro h
    obtain ⟨hdir, hname⟩ := List.append_inj' h rfl
    exact ⟨hdir, String.toByteArray_inj.mp (List.cons.inj hname).1⟩
  · rintro ⟨rfl, rfl⟩
    rfl

end OsPath

/-- A path of texts, in bytes. -/
def Path.toOs (p : Path) : OsPath := ⟨p.components.map String.toByteArray⟩

namespace Path

@[simp] theorem toOs_join (p : Path) (name : String) : (p.join name).toOs = p.toOs.join name := by
  simp [toOs, join, OsPath.join]

@[simp] theorem fileName_toOs (p : Path) :
    p.toOs.fileName = p.fileName.map String.toByteArray := by
  simp [toOs, OsPath.fileName, fileName]

@[simp] theorem parent_toOs (p : Path) : p.toOs.parent = p.parent.map toOs := by
  obtain ⟨cs⟩ := p
  cases cs with
  | nil => rfl
  | cons c cs =>
    have hinit : ((c :: cs).map String.toByteArray).dropLast =
        (c :: cs).dropLast.map String.toByteArray := List.map_dropLast.symm
    exact congrArg (fun ds => some (OsPath.mk ds)) hinit

end Path

end Voom
