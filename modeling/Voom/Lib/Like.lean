-- SUMMARY: Patterns with wildcards and an escape character, and patterns that stand for a prefix.
import Mathlib.Data.List.Infix

/-!
# Patterns with wildcards

A pattern is a text in which one character stands for any text, one for any
character, and one makes the next character stand for itself. Characters are
compared after `fold`. A text whose special characters are all escaped, with
the wildcard for any text behind it, matches what begins with it.
-/

namespace Voom.Lib

/-- The special characters of a pattern. -/
structure Wildcards (α : Type*) where
  any : α
  one : α
  escape : α
  any_ne_escape : any ≠ escape
  one_ne_any : one ≠ any
  one_ne_escape : one ≠ escape

namespace Wildcards

variable {α β : Type*} [DecidableEq α] [DecidableEq β] (w : Wildcards α) (fold : α → β)

def like : List α → List α → Bool
  | [], text => text.isEmpty
  | c :: pattern, text =>
    if c = w.any then text.tails.any (like pattern)
    else if c = w.escape then
      match pattern, text with
      | c' :: pattern, x :: text => fold c' = fold x && like pattern text
      | _, _ => false
    else
      match text with
      | x :: text => (c = w.one || fold c = fold x) && like pattern text
      | [] => false

def isSpecial (c : α) : Bool :=
  c = w.escape || c = w.any || c = w.one

/-- A character as a pattern that only matches itself. -/
def escaped (c : α) : List α :=
  if w.isSpecial c then [w.escape, c] else [c]

variable {w fold}

/-- The wildcard for any text, at the end of a pattern, matches what is left. -/
@[simp] theorem like_any (text : List α) : w.like fold [w.any] text = true := by
  have hempty : ([] : List α) ∈ text.tails := (List.mem_tails _ _).mpr (List.nil_suffix)
  simp only [like, ↓reduceIte, List.any_eq_true]
  exact ⟨[], hempty, rfl⟩

/-- An escaped character matches itself alone. -/
theorem like_escaped_append (c : α) (pattern text : List α) :
    w.like fold (w.escaped c ++ pattern) text =
      match text with
      | x :: text => fold c = fold x && w.like fold pattern text
      | [] => false := by
  unfold escaped
  split
  · -- The escape character comes first and hides what `c` means.
    cases text with
    | nil => simp [like, w.any_ne_escape.symm]
    | cons x text => simp [like, w.any_ne_escape.symm]
  · rename_i hc
    simp only [isSpecial, Bool.or_eq_true, decide_eq_true_eq, not_or] at hc
    obtain ⟨⟨hescape, hany⟩, hone⟩ := hc
    cases text with
    | nil => simp [like, hescape, hany]
    | cons x text =>
      rw [List.singleton_append, like.eq_def]
      simp [hescape, hany, hone]

/-- An escaped text and any text behind it: what begins with the text. -/
theorem like_escaped_any (start text : List α) :
    w.like fold (start.flatMap w.escaped ++ [w.any]) text =
      (start.map fold).isPrefixOf (text.map fold) := by
  induction start generalizing text with
  | nil => simp
  | cons c start ih =>
    rw [List.flatMap_cons, List.append_assoc, like_escaped_append]
    cases text with
    | nil => rfl
    | cons x text =>
      simp only [ih, List.map_cons, List.isPrefixOf]
      rfl

end Wildcards

end Voom.Lib
