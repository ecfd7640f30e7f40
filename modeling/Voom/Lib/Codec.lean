-- SUMMARY: Wire values of a self-describing format, and codecs that read back what they write.
import Mathlib.Algebra.Group.Int.Defs
import Mathlib.Algebra.Group.Nat.Defs
import Mathlib.Data.List.Basic
import Voom.Lib.Outcome

/-!
# Codecs

A wire value is what a self-describing binary format carries, before its bytes. A codec writes
the values of a type as wire values and reads them back, and carries the proof that reading
undoes writing. A struct is the array of its fields: they are read back by position, and the ones
missing at the end are filled in. A field that is left out when absent shifts everything behind
it, so the only field that may be left out here is the last one.
-/

namespace Voom.Lib

/-- A wire value, over a type of floating-point numbers. -/
inductive Wire (φ : Type) where
  | nil
  | bool (b : Bool)
  | int (n : Int)
  | float (x : φ)
  | str (s : String)
  | bin (bytes : List UInt8)
  | array (items : List (Wire φ))
  | map (entries : List (Wire φ × Wire φ))

structure Codec (φ α : Type) where
  write : α → Except String (Wire φ)
  read : Wire φ → Except String α
  read_write {a : α} {w : Wire φ} : write a = .ok w → read w = .ok a

variable {φ α β γ : Type}

namespace Codec

/-! ## Scalars -/

def bool : Codec φ Bool where
  write b := .ok (.bool b)
  read
    | .bool b => .ok b
    | _ => .error "invalid type: expected a boolean"
  read_write := by
    rintro b _ ⟨⟩
    rfl

def string : Codec φ String where
  write s := .ok (.str s)
  read
    | .str s => .ok s
    | _ => .error "invalid type: expected a string"
  read_write := by
    rintro s _ ⟨⟩
    rfl

def float : Codec φ φ where
  write x := .ok (.float x)
  read
    | .float x => .ok x
    | _ => .error "invalid type: expected a floating-point number"
  read_write := by
    rintro x _ ⟨⟩
    rfl

/-- Unsigned integers of a width. A value of the width always has a wire form. -/
def unsigned (bits : Nat) : Codec φ Nat where
  write n := if n < 2 ^ bits then .ok (.int n) else .error "integer out of range"
  read
    | .int (.ofNat n) => if n < 2 ^ bits then .ok n else .error "integer out of range"
    | .int (.negSucc _) => .error "integer out of range"
    | _ => .error "invalid type: expected an integer"
  read_write := by
    intro n w h
    split at h
    case isTrue hn =>
      cases h
      exact if_pos hn
    case isFalse => cases h

def InRange (bits : Nat) (n : Int) : Prop := -2 ^ (bits - 1) ≤ n ∧ n < 2 ^ (bits - 1)

instance (bits : Nat) (n : Int) : Decidable (InRange bits n) :=
  inferInstanceAs (Decidable (_ ∧ _))

/-- Signed integers of a width. -/
def signed (bits : Nat) : Codec φ Int where
  write n := if InRange bits n then .ok (.int n) else .error "integer out of range"
  read
    | .int n => if InRange bits n then .ok n else .error "integer out of range"
    | _ => .error "invalid type: expected an integer"
  read_write := by
    intro n w h
    split at h
    case isTrue hn =>
      cases h
      exact if_pos hn
    case isFalse => cases h

/-- An enumeration without payloads, by the names of its values. -/
def units (values : List α) (name : α → String)
    (complete : ∀ a, values.find? (fun b => name b = name a) = some a) : Codec φ α where
  write a := .ok (.str (name a))
  read
    | .str s =>
      match values.find? (fun a => name a = s) with
      | some a => .ok a
      | none => .error ("unknown variant " ++ s)
    | _ => .error "invalid type: expected an enumeration"
  read_write := by
    rintro a _ ⟨⟩
    simp only [complete]

/-! ## Collections -/

def list (c : Codec φ α) : Codec φ (List α) where
  write items := (items.mapM c.write).map .array
  read
    | .array items => items.mapM c.read
    | _ => .error "invalid type: expected a sequence"
  read_write := by
    intro items w h
    obtain ⟨ws, hws, rfl⟩ := map_eq_ok.mp h
    exact mapM_inverse (fun _ _ => c.read_write) hws

/-- A map with text keys, entry by entry: the keys of one that was written are distinct. -/
def dict (c : Codec φ α) : Codec φ (List (String × α)) where
  write entries :=
    (entries.mapM fun entry => (c.write entry.2).map (Wire.str entry.1, ·)).map .map
  read
    | .map entries => entries.mapM fun entry =>
      match entry.1 with
      | .str key => (c.read entry.2).map (key, ·)
      | _ => .error "invalid type: expected a string"
    | _ => .error "invalid type: expected a map"
  read_write := by
    intro entries w h
    obtain ⟨ws, hws, rfl⟩ := map_eq_ok.mp h
    apply mapM_inverse _ hws
    intro entry written hentry
    obtain ⟨value, hvalue, rfl⟩ := map_eq_ok.mp hentry
    simp only [c.read_write hvalue, map_ok]

/-! ## Optional values -/

/-- No value of the codec is written as nil. -/
class Present (c : Codec φ α) : Prop where
  write_ne_nil (a : α) : c.write a ≠ .ok .nil

/-- An absent value is nil, and a value that is there stands for itself. -/
def option (c : Codec φ α) [Present c] : Codec φ (Option α) where
  write
    | none => .ok .nil
    | some a => c.write a
  read
    | .nil => .ok none
    | w => (c.read w).map some
  read_write := by
    intro a w h
    cases a with
    | none =>
      cases h
      rfl
    | some a =>
      have hread := congrArg (·.map some) (c.read_write h)
      cases w with
      | nil => exact absurd h (Present.write_ne_nil a)
      | _ => exact hread

instance : Present (bool : Codec φ Bool) := ⟨nofun⟩
instance : Present (string : Codec φ String) := ⟨nofun⟩
instance : Present (float : Codec φ φ) := ⟨nofun⟩

instance (bits : Nat) : Present (unsigned bits : Codec φ Nat) where
  write_ne_nil n := by
    dsimp only [unsigned]
    split <;> nofun

instance : Present (unsigned 8 : Codec φ Nat) := inferInstance

instance : Present (unsigned 32 : Codec φ Nat) := inferInstance

instance (bits : Nat) : Present (signed bits : Codec φ Int) where
  write_ne_nil n := by
    dsimp only [signed]
    split <;> nofun

instance (values : List α) (name : α → String) (complete) :
    Present (units values name complete : Codec φ α) := ⟨nofun⟩

instance (c : Codec φ α) : Present (list c) where
  write_ne_nil items h := by
    obtain ⟨_, _, h⟩ := map_eq_ok.mp h
    cases h

instance (c : Codec φ α) : Present (dict c) where
  write_ne_nil entries h := by
    obtain ⟨_, _, h⟩ := map_eq_ok.mp h
    cases h

end Codec

/-! ## Fields -/

/-- The fields of a struct, in the order in which they are declared. -/
structure Fields (φ β : Type) where
  write : β → Except String (List (Wire φ))
  read : List (Wire φ) → Except String β
  read_write {b : β} {ws : List (Wire φ)} : write b = .ok ws → read ws = .ok b

namespace Fields

def nil : Fields φ Unit where
  write _ := .ok []
  read
    | [] => .ok ()
    | _ :: _ => .error "invalid length: too many fields"
  read_write := by
    rintro ⟨⟩ _ ⟨⟩
    rfl

/-- A field in front of the others, written always; `missing` stands in for it when the array
ends before it. -/
def cons (c : Codec φ α) (missing : Except String α) (rest : Fields φ β) : Fields φ (α × β) where
  write b := do
    let w ← c.write b.1
    let ws ← rest.write b.2
    .ok (w :: ws)
  read
    | [] => do
      let a ← missing
      let b ← rest.read []
      .ok (a, b)
    | w :: ws => do
      let a ← c.read w
      let b ← rest.read ws
      .ok (a, b)
  read_write := by
    rintro ⟨a, b⟩ ws h
    obtain ⟨w, hw, h⟩ := bind_eq_ok.mp h
    obtain ⟨ws, hws, h⟩ := bind_eq_ok.mp h
    cases h
    simp only [c.read_write hw, rest.read_write hws, ok_bind]

def field (c : Codec φ α) (rest : Fields φ β) : Fields φ (α × β) :=
  cons c (.error "invalid length: missing field") rest

/-- A field with a default. -/
def defaulted (c : Codec φ α) (value : α) (rest : Fields φ β) : Fields φ (α × β) :=
  cons c (.ok value) rest

/-- The last field, left out when it is absent. -/
def skipped (c : Codec φ α) [Codec.Present c] : Fields φ (Option α × Unit) where
  write
    | (none, ()) => .ok []
    | (some a, ()) => do
      let w ← c.write a
      .ok [w]
  read := (cons c.option (.ok none) nil).read
  read_write := by
    rintro ⟨a, ⟨⟩⟩ ws h
    cases a with
    | none =>
      cases h
      rfl
    | some a =>
      obtain ⟨w, hw, h⟩ := bind_eq_ok.mp h
      cases h
      have hread : c.option.read w = .ok (some a) := c.option.read_write hw
      simp only [cons, hread, ok_bind, nil]

end Fields

/-! ## Structs and tagged values -/

namespace Codec

/-- A struct: the array of its fields. -/
def record (fields : Fields φ β) (split : α → β) (make : β → α)
    (make_split : ∀ a, make (split a) = a) : Codec φ α where
  write a := (fields.write (split a)).map .array
  read
    | .array ws => (fields.read ws).map make
    | _ => .error "invalid type: expected a struct"
  read_write := by
    intro a w h
    obtain ⟨ws, hws, rfl⟩ := map_eq_ok.mp h
    simp only [fields.read_write hws, map_ok, make_split]

instance (fields : Fields φ β) (split : α → β) (make : β → α) (make_split) :
    Present (record fields split make make_split) where
  write_ne_nil a h := by
    obtain ⟨_, _, h⟩ := map_eq_ok.mp h
    cases h

end Codec

/-- A variant with its name outside: a map of one entry. -/
def outside (name : String) (c : Codec φ α) (a : α) : Except String (Wire φ) :=
  (c.write a).map fun w => .map [(.str name, w)]

/-- A variant with its name inside: the first of its fields. -/
def inside (name : String) (fields : Fields φ β) (b : β) : Except String (Wire φ) :=
  (fields.write b).map fun ws => .array (.str name :: ws)

theorem outside_eq_ok {name : String} {c : Codec φ α} {a : α} {w : Wire φ}
    (h : outside name c a = .ok w) : ∃ v, w = .map [(.str name, v)] ∧ c.read v = .ok a := by
  obtain ⟨v, hv, rfl⟩ := map_eq_ok.mp h
  exact ⟨v, rfl, c.read_write hv⟩

theorem inside_eq_ok {name : String} {fields : Fields φ β} {b : β} {w : Wire φ}
    (h : inside name fields b = .ok w) :
    ∃ ws, w = .array (.str name :: ws) ∧ fields.write b = .ok ws := by
  obtain ⟨ws, hws, rfl⟩ := map_eq_ok.mp h
  exact ⟨ws, rfl, hws⟩

end Voom.Lib
