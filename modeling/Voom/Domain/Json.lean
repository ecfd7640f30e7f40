-- SUMMARY: Doubles and JSON values, as far as policies look into them.
import Mathlib.Algebra.Ring.Int.Defs
import Mathlib.Algebra.Ring.Nat
import Mathlib.Data.Rat.Defs

namespace Voom

/-- A double: the finite ones by their value. -/
inductive F64 where
  | finite (value : Rat)
  | infinity (negative : Bool)
  | nan
  deriving DecidableEq, Repr, Inhabited

namespace F64

/-- `<=` of doubles: nothing compares with a NaN. -/
def le : F64 → F64 → Bool
  | .finite a, .finite b => decide (a ≤ b)
  | .infinity true, .finite _ | .finite _, .infinity false => true
  | .infinity a, .infinity b => a || !b
  | _, _ => false

def lt : F64 → F64 → Bool
  | .finite a, .finite b => decide (a < b)
  | .infinity true, .finite _ | .finite _, .infinity false => true
  | .infinity true, .infinity false => true
  | _, _ => false

/-- `n.fract() == 0.0`. The fraction of an infinity is a NaN. -/
def isIntegral : F64 → Bool
  | .finite a => a.den == 1
  | _ => false

def abs : F64 → F64
  | .finite a => .finite (if a < 0 then -a else a)
  | .infinity _ => .infinity false
  | .nan => .nan

def add : F64 → F64 → F64
  | .finite a, .finite b => .finite (a + b)
  | .finite _, b => b
  | a, .finite _ => a
  | .infinity a, .infinity b => if a = b then .infinity a else .nan
  | _, _ => .nan

/-- A double times a finite one. -/
def scale (q : Rat) : F64 → F64
  | .finite a => .finite (a * q)
  | .infinity negative => if q = 0 then .nan else .infinity (negative != decide (q < 0))
  | .nan => .nan

/-- `f64::EPSILON`. -/
def epsilon : F64 := .finite (1 / 4503599627370496)

end F64

/-- A number of a JSON document: an integer or a finite double. -/
inductive JsonNumber where
  | int (n : Int)
  | float (value : Rat)
  deriving DecidableEq, Repr, Inhabited

inductive Json where
  | null
  | bool (b : Bool)
  | number (n : JsonNumber)
  | string (s : String)
  | array (items : List Json)
  | object (fields : List (String × Json))
  deriving Repr, Inhabited

namespace Json

mutual

/-- Equality of documents, field order included. -/
def decEq : (a b : Json) → Decidable (a = b)
  | .null, .null => isTrue rfl
  | .bool a, .bool b => decidable_of_iff (a = b) (by simp)
  | .number a, .number b => decidable_of_iff (a = b) (by simp)
  | .string a, .string b => decidable_of_iff (a = b) (by simp)
  | .array as, .array bs =>
    match decEqItems as bs with
    | isTrue h => isTrue (by rw [h])
    | isFalse h => isFalse (by simpa using h)
  | .object as, .object bs =>
    match decEqFields as bs with
    | isTrue h => isTrue (by rw [h])
    | isFalse h => isFalse (by simpa using h)
  | .null, .bool _ | .null, .number _ | .null, .string _ | .null, .array _ | .null, .object _
  | .bool _, .null | .bool _, .number _ | .bool _, .string _ | .bool _, .array _
  | .bool _, .object _ | .number _, .null | .number _, .bool _ | .number _, .string _
  | .number _, .array _ | .number _, .object _ | .string _, .null | .string _, .bool _
  | .string _, .number _ | .string _, .array _ | .string _, .object _ | .array _, .null
  | .array _, .bool _ | .array _, .number _ | .array _, .string _ | .array _, .object _
  | .object _, .null | .object _, .bool _ | .object _, .number _ | .object _, .string _
  | .object _, .array _ => isFalse (by simp)

def decEqItems : (as bs : List Json) → Decidable (as = bs)
  | [], [] => isTrue rfl
  | [], _ :: _ | _ :: _, [] => isFalse (by simp)
  | a :: as, b :: bs =>
    match decEq a b, decEqItems as bs with
    | isTrue h, isTrue ht => isTrue (by rw [h, ht])
    | isFalse h, _ => isFalse (by simp [h])
    | _, isFalse ht => isFalse (by simp [ht])

def decEqFields : (as bs : List (String × Json)) → Decidable (as = bs)
  | [], [] => isTrue rfl
  | [], _ :: _ | _ :: _, [] => isFalse (by simp)
  | (key, a) :: as, (key', b) :: bs =>
    match decEq a b, decEqFields as bs with
    | isTrue h, isTrue ht => decidable_of_iff (key = key') (by simp [h, ht])
    | isFalse h, _ => isFalse (by simp [h])
    | _, isFalse ht => isFalse (by simp [ht])

end

instance : DecidableEq Json := decEq

/-- `Value::get` of a key. -/
def get (key : String) : Json → Option Json
  | .object fields => (fields.find? (·.1 = key)).map (·.2)
  | _ => none

def asStr : Json → Option String
  | .string s => some s
  | _ => none

def asArray : Json → Option (List Json)
  | .array items => some items
  | _ => none

/-- `as_f64`. -/
def asF64 : Json → Option Rat
  | .number (.int n) => some n
  | .number (.float value) => some value
  | _ => none

def asObject : Json → Option (List (String × Json))
  | .object fields => some fields
  | _ => none

/-- `Value::as_u64`. -/
def asU64 : Json → Option Nat
  | .number (.int n) => if 0 ≤ n ∧ n < 2 ^ 64 then some n.toNat else none
  | _ => none

/-- `Value::as_i64`. -/
def asI64 : Json → Option Int
  | .number (.int n) => if -2 ^ 63 ≤ n ∧ n < 2 ^ 63 then some n else none
  | _ => none

def ofNat (n : Nat) : Json := .number (.int n)

/-- `json!` of a double: what is not finite becomes `null`. -/
def ofF64 : F64 → Json
  | .finite value => .number (.float value)
  | _ => .null

end Json

end Voom
