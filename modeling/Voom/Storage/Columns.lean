-- SUMMARY: Reading typed columns back from rows, and which written values survive it.
import Voom.Storage.Upsert

/-!
# Reading columns

A row that a `SELECT` returns has the selected columns only. `row.get` reads
one as a Rust type: a text, an integer of some width, a double, or one of them
that may be `NULL`. Each writer of `Param` has a reader; the lemmas say for
which values the reader gets back what was written.
-/

namespace Voom

/-! ## Paths as texts -/

namespace Path

/-- A path of real components: none is empty or has a separator in it. -/
def Plain (p : Path) : Prop := ∀ c ∈ p.components, c ≠ "" ∧ '/' ∉ c.toList

/-- `PathBuf::from`, as the components of the text. -/
def ofText (s : String) : Path :=
  ⟨((s.toList.splitOn '/').filter fun c => !c.isEmpty).map String.ofList⟩

/-- The separators of a path's text are those between its components. -/
theorem splitOn_display {first : String} {rest : List String} (h : Plain ⟨first :: rest⟩) :
    (display ⟨first :: rest⟩).toList.splitOn '/' = [] :: (first :: rest).map String.toList := by
  have hchars : (display ⟨first :: rest⟩).toList =
      ['/'].intercalate ([] :: (first :: rest).map String.toList) := by
    unfold display
    rw [String.toList_append, String.toList_intercalate]
    simp
  have hnone : ∀ c ∈ [] :: (first :: rest).map String.toList, '/' ∉ c := by
    intro c hc
    rcases List.mem_cons.mp hc with rfl | hc
    · exact List.not_mem_nil
    · obtain ⟨s, hs, rfl⟩ := List.mem_map.mp hc
      exact (h s hs).2
  rw [hchars, List.splitOn_intercalate _ hnone (by simp)]

theorem ofText_display {p : Path} (h : p.Plain) : ofText p.display = p := by
  obtain ⟨components⟩ := p
  cases components with
  | nil => rfl
  | cons first rest =>
    have hkeep : ((first :: rest).map String.toList).filter (fun c => !c.isEmpty) =
        (first :: rest).map String.toList := by
      refine List.filter_eq_self.mpr fun c hc => ?_
      obtain ⟨s, hs, rfl⟩ := List.mem_map.mp hc
      simpa using (h s hs).1
    unfold ofText
    rw [splitOn_display h, List.filter_cons_of_neg (by simp), hkeep, List.map_map]
    simp [Function.comp_def]

theorem display_ne_empty (p : Path) : p.display ≠ "" := by
  intro h
  have hchars := congrArg String.toList h
  rw [display, String.toList_append] at hchars
  simp at hchars

theorem display_inj {p q : Path} (hp : p.Plain) (hq : q.Plain) (h : p.display = q.display) :
    p = q := by
  rw [← ofText_display hp, h, ofText_display hq]

end Path

end Voom

namespace Voom.Storage.Sqlite

open Voom.Lib.Sql

/-! ## Readers -/

inductive RowError where
  | invalidColumnName (column : String)
  | invalidColumnType (column : String)
  | integralValueOutOfRange (column : String)
  | conversion (message : String)
  deriving DecidableEq, Repr

/-- A row as a `SELECT` returns it. -/
structure Selected where
  columns : List String
  values : Row

/-- `row.get(column)`, as a type that is read by `f`. -/
def Selected.get {α : Type} (r : Selected) (f : String → Value → Except RowError α)
    (column : String) : Except RowError α :=
  if column ∈ r.columns then f column (r.values column) else .error (.invalidColumnName column)

/-- `String` -/
def asString (column : String) : Value → Except RowError String
  | .text s => .ok s
  | _ => .error (.invalidColumnType column)

/-- `i64` -/
def asI64 (column : String) : Value → Except RowError Int
  | .integer n => .ok n
  | _ => .error (.invalidColumnType column)

/-- `i32`: an integer of the width. -/
def asI32 (column : String) (value : Value) : Except RowError Int :=
  match asI64 column value with
  | .error e => .error e
  | .ok n =>
    if n.toNat < 2 ^ 31 ∧ (-n).toNat ≤ 2 ^ 31 then .ok n
    else .error (.integralValueOutOfRange column)

/-- `f64` -/
def asF64 (column : String) : Value → Except RowError F64
  | .real q => .ok (.finite q)
  | .infinity negative => .ok (.infinity negative)
  | .integer n => .ok (.finite n)
  | _ => .error (.invalidColumnType column)

/-- `Option<T>`: `NULL` is `None`. -/
def asOption {α : Type} (f : String → Value → Except RowError α) (column : String) :
    Value → Except RowError (Option α)
  | .null => .ok none
  | value => (f column value).map some

/-- The bits an unsigned type has, for the checked conversions. -/
def checkedUnsigned (bits : Nat) (field : String) (value : Int) : Except RowError Nat :=
  if 0 ≤ value ∧ value.toNat < 2 ^ bits then .ok value.toNat
  else .error (.conversion ("invalid numeric value in " ++ field ++
    ": out of range integral type conversion attempted"))

def checkedI64ToU64 (value : Int) (field : String) : Except RowError Nat :=
  checkedUnsigned 64 field value

def checkedI64ToU32 (value : Int) (field : String) : Except RowError Nat :=
  checkedUnsigned 32 field value

def checkedI32ToU32 (value : Int) (field : String) : Except RowError Nat :=
  checkedUnsigned 32 field value

/-- A checked conversion of a value that may be absent. -/
def checkedOptional (f : Int → String → Except RowError Nat) (field : String) :
    Option Int → Except RowError (Option Nat)
  | none => .ok none
  | some value => (f value field).map some

/-! ## What is read back -/

section ReadBack

variable {column field : String}

@[simp] theorem asOption_null {α : Type} (f : String → Value → Except RowError α) :
    asOption f column .null = .ok none := rfl

@[simp] theorem asOption_text (s : String) :
    asOption asString column (.text s) = .ok (some s) := rfl

@[simp] theorem asOption_real (q : Rat) :
    asOption asF64 column (.real q) = .ok (some (.finite q)) := rfl

theorem asString_map {α : Type} (f : α → String) (o : Option α) :
    asOption asString column (Param.optional (fun a => .text (f a)) o) = .ok (o.map f) := by
  cases o <;> rfl

theorem asOption_some_nat {α : Type} (f : String → Value → Except RowError α) (n : Nat) :
    asOption f column (Param.nat n) = (f column (Param.nat n)).map some := rfl

@[simp] theorem asString_optional (o : Option String) :
    asOption asString column (Param.optional .text o) = .ok o := by
  cases o <;> rfl

theorem checkedOptional_some (f : Int → String → Except RowError Nat) (value : Int) :
    checkedOptional f field (some value) = (f value field).map some := rfl

/-- `as i64` of a 64-bit value, as the integer it is stored as. -/
def asStored (n : Nat) : Int := if n < 2 ^ 63 then n else n - 2 ^ 64

theorem size_eq {n : Nat} (hn : n < 2 ^ 64) : Param.size n = .integer (asStored n) := by
  unfold Param.size asStored
  rw [Nat.mod_eq_of_lt hn]
  congr 1
  omega

/-- It is read back if its top bit is clear, and refused otherwise. -/
theorem checkedI64ToU64_asStored {n : Nat} (hn : n < 2 ^ 64) :
    checkedI64ToU64 (asStored n) field = if n < 2 ^ 63 then .ok n else
      .error (.conversion ("invalid numeric value in " ++ field ++
        ": out of range integral type conversion attempted")) := by
  unfold checkedI64ToU64 checkedUnsigned asStored
  by_cases hsmall : n < 2 ^ 63
  · rw [if_pos hsmall, if_pos hsmall, if_pos (by omega), Int.toNat_natCast]
  · rw [if_neg hsmall, if_neg hsmall, if_neg (by omega)]

theorem asI64_size {n : Nat} (hn : n < 2 ^ 64) : asI64 column (Param.size n) = .ok (asStored n) := by
  rw [size_eq hn]
  rfl

theorem asOption_size {o : Option Nat} (ho : ∀ n ∈ o, n < 2 ^ 64) :
    asOption asI64 column (Param.optional Param.size o) = .ok (o.map asStored) := by
  cases o with
  | none => rfl
  | some n =>
    change asOption asI64 column (Param.size n) = _
    rw [size_eq (ho n rfl)]
    rfl

/-- An optional 64-bit value through the same cast. -/
theorem checkedOptional_asStored {o : Option Nat} (ho : ∀ n ∈ o, n < 2 ^ 64) :
    ((∀ n ∈ o, n < 2 ^ 63) →
      checkedOptional checkedI64ToU64 field (o.map asStored) = .ok o) ∧
    ∀ o', checkedOptional checkedI64ToU64 field (o.map asStored) = .ok o' → ∀ n ∈ o, n < 2 ^ 63 := by
  cases o with
  | none => exact ⟨fun _ => rfl, fun _ _ => nofun⟩
  | some n =>
    have hn : n < 2 ^ 64 := ho n rfl
    simp only [Option.map_some, checkedOptional, checkedI64ToU64_asStored hn]
    refine ⟨fun hsmall => ?_, fun o' hread m hm => ?_⟩
    · rw [if_pos (hsmall n rfl)]
      rfl
    · cases hm
      by_contra hbig
      rw [if_neg hbig] at hread
      cases hread

theorem asOption_nat (o : Option Nat) :
    asOption asI64 column (Param.optional Param.nat o) = .ok (o.map Nat.cast) := by
  cases o <;> rfl

/-- A value of at most 32 bits, written as a 64-bit integer. -/
theorem checkedOptional_natCast {o : Option Nat} (ho : ∀ n ∈ o, n < 2 ^ 32) :
    checkedOptional checkedI64ToU32 field (o.map Nat.cast) = .ok o := by
  cases o with
  | none => rfl
  | some n =>
    have hn : n < 2 ^ 32 := ho n rfl
    change (checkedI64ToU32 (n : Int) field).map some = _
    unfold checkedI64ToU32 checkedUnsigned
    rw [if_pos (by omega), Int.toNat_natCast]
    rfl

/-- A value of at most 32 bits that is read as a signed one. -/
theorem asI32_nat (n : Nat) : asI32 column (Param.nat n) =
    if n < 2 ^ 31 then .ok n else .error (.integralValueOutOfRange column) := by
  have hread : asI64 column (Param.nat n) = .ok (n : Int) := rfl
  have hiff : ((n : Int).toNat < 2 ^ 31 ∧ (-(n : Int)).toNat ≤ 2 ^ 31) ↔ n < 2 ^ 31 := by omega
  simp only [asI32, hread, hiff]

theorem checkedI32ToU32_natCast {n : Nat} (hn : n < 2 ^ 31) :
    checkedI32ToU32 (n : Int) field = .ok n := by
  unfold checkedI32ToU32 checkedUnsigned
  rw [if_pos (by omega), Int.toNat_natCast]

@[simp] theorem asI32_bool (b : Bool) : asI32 column (Param.bool b) = .ok (if b then 1 else 0) := by
  have hread : asI64 column (Param.bool b) = .ok (if b then 1 else 0) := rfl
  simp only [asI32, hread]
  rw [if_pos (by split <;> decide)]

theorem asI32_optional_bool (o : Option Bool) :
    asOption asI32 column (Param.optional Param.bool o) = .ok (o.map fun b => if b then 1 else 0) := by
  cases o with
  | none => rfl
  | some b => cases b <;> rfl

/-- A NaN is read as absent. -/
theorem asF64_float (o : Option F64) :
    asOption asF64 column (Param.optional Param.float o) = .ok (o.filter (· ≠ .nan)) := by
  cases o with
  | none => rfl
  | some x => cases x <;> rfl

theorem asF64_some (x : F64) :
    asOption asF64 column (Param.float x) = .ok ((some x).filter (· ≠ .nan)) := asF64_float (some x)

end ReadBack

/-! ## Texts told apart by their length -/

/-- A text with some more characters. -/
def padded (text : String) (n : Nat) (c : Char) : String :=
  text ++ String.ofList (List.replicate n c)

theorem length_padded (text : String) (n : Nat) (c : Char) :
    (padded text n c).length = text.length + n := by
  unfold padded
  rw [String.length_append, String.length_ofList (l := List.replicate n c), List.length_replicate]

end Voom.Storage.Sqlite
