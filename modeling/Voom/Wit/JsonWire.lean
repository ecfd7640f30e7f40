-- SUMMARY: JSON values: how deep they nest, the doubles in them, and their wire form.
import Voom.Domain.Json
import Voom.Lib.Codec

namespace Voom

open Lib

namespace Json

/-! ## Nesting and doubles -/

mutual

/-- How many arrays and objects stand around the innermost value. -/
def nesting : Json → Nat
  | .array items => 1 + nestingItems items
  | .object fields => 1 + nestingFields fields
  | _ => 0

def nestingItems : List Json → Nat
  | [] => 0
  | v :: rest => max (nesting v) (nestingItems rest)

def nestingFields : List (String × Json) → Nat
  | [] => 0
  | (_, v) :: rest => max (nesting v) (nestingFields rest)

end

mutual

/-- A value with another double in the place of each of its doubles. -/
def mapFloats (f : Rat → Rat) : Json → Json
  | .number (.float x) => .number (.float (f x))
  | .array items => .array (mapFloatsItems f items)
  | .object fields => .object (mapFloatsFields f fields)
  | v => v

def mapFloatsItems (f : Rat → Rat) : List Json → List Json
  | [] => []
  | v :: rest => mapFloats f v :: mapFloatsItems f rest

def mapFloatsFields (f : Rat → Rat) : List (String × Json) → List (String × Json)
  | [] => []
  | (key, v) :: rest => (key, mapFloats f v) :: mapFloatsFields f rest

end

/-! ## The wire form -/

mutual

def toWire : Json → Wire F64
  | .null => .nil
  | .bool b => .bool b
  | .number (.int n) => .int n
  | .number (.float x) => .float (.finite x)
  | .string s => .str s
  | .array items => .array (toWireItems items)
  | .object fields => .map (toWireFields fields)

def toWireItems : List Json → List (Wire F64)
  | [] => []
  | v :: rest => toWire v :: toWireItems rest

def toWireFields : List (String × Json) → List (Wire F64 × Wire F64)
  | [] => []
  | (key, v) :: rest => (.str key, toWire v) :: toWireFields rest

end

mutual

/-- The value of a wire form: a double that is not finite has no number and becomes `null`. -/
def ofWire : Wire F64 → Except String Json
  | .nil => .ok .null
  | .bool b => .ok (.bool b)
  | .int n => .ok (.number (.int n))
  | .float x => .ok (ofF64 x)
  | .str s => .ok (.string s)
  | .bin _ => .error "invalid type: byte array, expected any valid JSON value"
  | .array items => (ofWireItems items).map .array
  | .map entries => (ofWireFields entries).map .object

def ofWireItems : List (Wire F64) → Except String (List Json)
  | [] => .ok []
  | w :: rest => do
    let v ← ofWire w
    let vs ← ofWireItems rest
    .ok (v :: vs)

def ofWireFields : List (Wire F64 × Wire F64) → Except String (List (String × Json))
  | [] => .ok []
  | (.str key, w) :: rest => do
    let v ← ofWire w
    let fields ← ofWireFields rest
    .ok ((key, v) :: fields)
  | _ :: _ => .error "invalid type: expected a string"

end

mutual

theorem ofWire_toWire : ∀ v : Json, ofWire v.toWire = .ok v
  | .null | .bool _ | .number (.int _) | .number (.float _) | .string _ => rfl
  | .array items => by rw [toWire, ofWire, ofWire_toWireItems items, map_ok]
  | .object fields => by rw [toWire, ofWire, ofWire_toWireFields fields, map_ok]

theorem ofWire_toWireItems : ∀ items : List Json, ofWireItems (toWireItems items) = .ok items
  | [] => rfl
  | v :: rest => by
    rw [toWireItems, ofWireItems, ofWire_toWire v, ofWire_toWireItems rest]
    rfl

theorem ofWire_toWireFields :
    ∀ fields : List (String × Json), ofWireFields (toWireFields fields) = .ok fields
  | [] => rfl
  | (key, v) :: rest => by
    rw [toWireFields, ofWireFields, ofWire_toWire v, ofWire_toWireFields rest]
    rfl

end

end Json

/-- `serde_json::Value`. -/
def Wit.json : Codec F64 Json where
  write v := .ok v.toWire
  read := Json.ofWire
  read_write := by
    rintro v _ ⟨⟩
    exact v.ofWire_toWire

end Voom
