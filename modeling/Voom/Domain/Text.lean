-- SUMMARY: Operations of `str` on texts: substrings, trimming and unsigned numbers.
import Mathlib.Algebra.Ring.Nat
import Mathlib.Data.List.Infix

namespace Voom

/-- `str::contains`. -/
def containsText (text part : String) : Bool := decide (part.toList <:+: text.toList)

/-- `str::ends_with`. -/
def endsWith (text tail : String) : Bool := decide (tail.toList <:+ text.toList)

/-- `char::is_whitespace`. -/
def isWhitespace (c : Char) : Bool :=
  let n := c.toNat
  (9 ≤ n && n ≤ 13) || n = 32 || n = 0x85 || n = 0xA0 || n = 0x1680 || (0x2000 ≤ n && n ≤ 0x200A)
    || n = 0x2028 || n = 0x2029 || n = 0x202F || n = 0x205F || n = 0x3000

/-- `str::trim`. -/
def trim (s : String) : String :=
  String.ofList ((s.toList.dropWhile isWhitespace).reverse.dropWhile isWhitespace).reverse

/-- The number a list of ASCII digits stands for; none for an empty list or another character. -/
def digitsValue : List Char → Option Nat
  | [] => none
  | digits =>
    if digits.all Char.isDigit then
      some (digits.foldl (fun n c => 10 * n + (c.toNat - 48)) 0)
    else none

/-- Reading back the digits of a number. -/
@[simp] theorem digitsValue_toDigits (n : Nat) : digitsValue (Nat.toDigits 10 n) = some n := by
  have hdigit : (Nat.toDigits 10 n).all Char.isDigit = true := by
    apply List.all_eq_true.mpr
    intro c hc
    exact Nat.isDigit_of_mem_toDigits (by decide) (by decide) hc
  have hvalue : Nat.ofDigitChars 10 (Nat.toDigits 10 n) 0 = n := Nat.ofDigitChars_ten_toDigits
  cases hcases : Nat.toDigits 10 n with
  | nil => exact absurd hcases Nat.toDigits_ne_nil
  | cons c rest =>
    rw [hcases] at hdigit hvalue
    simp only [digitsValue, hdigit, if_true]
    exact congrArg some hvalue

/-- `parse` to an unsigned type of so many bits: a plus sign may stand in front. -/
def parseUnsigned (bits : Nat) (s : String) : Option Nat :=
  let digits :=
    match s.toList with
    | '+' :: rest => rest
    | chars => chars
  (digitsValue digits).filter (· < 2 ^ bits)

end Voom
