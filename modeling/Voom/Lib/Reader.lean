-- SUMMARY: Files read through calls that may return less than asked for, and loops over them.
import Mathlib.Data.List.Basic

/-!
# Reads

A read returns some of what is left of a file, at most as much as the buffer holds, and nothing
only at the end. How much is up to the system, call by call. A loop until nothing comes back
sees the whole rest of the file; a single read sees all that was asked for only if the system
fills the buffer.
-/

namespace Voom.Lib

variable {α : Type*}

/-- How much each read of a run returns, by the number of the call, the size of the buffer and
what is left of the file. -/
structure Reader where
  count : (call buffer left : Nat) → Nat
  le_buffer : ∀ call buffer left, count call buffer left ≤ buffer
  le_left : ∀ call buffer left, count call buffer left ≤ left
  pos : ∀ call buffer left, 0 < buffer → 0 < left → 0 < count call buffer left

namespace Reader

/-- Every read returns as much as it can. -/
def whole : Reader where
  count _ buffer left := min buffer left
  le_buffer _ _ _ := Nat.min_le_left _ _
  le_left _ _ _ := Nat.min_le_right _ _
  pos _ _ _ hbuffer hleft := Nat.lt_min.mpr ⟨hbuffer, hleft⟩

/-- Every read returns one item. -/
def single : Reader where
  count _ buffer left := min 1 (min buffer left)
  le_buffer _ _ _ := Nat.le_trans (Nat.min_le_right _ _) (Nat.min_le_left _ _)
  le_left _ _ _ := Nat.le_trans (Nat.min_le_right _ _) (Nat.min_le_right _ _)
  pos _ _ _ hbuffer hleft := Nat.lt_min.mpr ⟨Nat.one_pos, Nat.lt_min.mpr ⟨hbuffer, hleft⟩⟩

end Reader

/-- An open file, its position and the number of reads so far. -/
structure OpenFile (α : Type*) where
  content : List α
  position : Nat := 0
  calls : Nat := 0

namespace OpenFile

/-- What is left to read. -/
def left (f : OpenFile α) : List α := f.content.drop f.position

def read (r : Reader) (f : OpenFile α) (buffer : Nat) : List α × OpenFile α :=
  let n := r.count f.calls buffer f.left.length
  (f.left.take n, { f with position := f.position + n, calls := f.calls + 1 })

def seek (f : OpenFile α) (offset : Nat) : OpenFile α := { f with position := offset }

/-- A read splits what is left. -/
theorem read_append_left (r : Reader) (f : OpenFile α) (buffer : Nat) :
    (f.read r buffer).1 ++ (f.read r buffer).2.left = f.left := by
  unfold read left
  rw [← List.drop_drop]
  exact List.take_append_drop _ _

theorem read_length (r : Reader) (f : OpenFile α) (buffer : Nat) :
    (f.read r buffer).1.length = r.count f.calls buffer f.left.length :=
  List.length_take_of_le (r.le_left _ _ _)

/-- Nothing comes back only at the end of the file. -/
theorem left_eq_nil {r : Reader} {f : OpenFile α} {buffer : Nat} (hbuffer : 0 < buffer)
    (h : (f.read r buffer).1 = []) : f.left = [] := by
  by_contra hleft
  have hpos := r.pos f.calls buffer _ hbuffer (List.length_pos_iff.mpr hleft)
  rw [← read_length, h] at hpos
  exact Nat.lt_irrefl 0 hpos

theorem left_length_lt {r : Reader} {f : OpenFile α} {buffer : Nat}
    (h : (f.read r buffer).1 ≠ []) : (f.read r buffer).2.left.length < f.left.length := by
  have hsplit := congrArg List.length (read_append_left r f buffer)
  rw [List.length_append] at hsplit
  have hpos := List.length_pos_iff.mpr h
  omega

end OpenFile

end Voom.Lib
