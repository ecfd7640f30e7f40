-- SUMMARY: Replacing the occurrences of texts by others, one text after the other.
import Mathlib.Data.List.Basic
import Mathlib.Data.List.Induction
import Mathlib.Data.List.Infix
import Mathlib.Data.List.Nodup
import Mathlib.Tactic.Common

/-!
# Replacement

A text is replaced wherever it stands, from the left, and what is put in is not
looked at again. Over several replacements it is: a later text may stand in what
an earlier one left. The pieces of a text that no replacement disturbs are put
in place whichever replacement comes first.
-/

namespace Voom.Lib

section

variable {α : Type*} [DecidableEq α]

/-- The occurrences of a pattern, from the left, after some elements are passed over. -/
def replaceFrom (pat new : List α) : Nat → List α → List α
  | _, [] => []
  | skip + 1, _ :: rest => replaceFrom pat new skip rest
  | 0, a :: rest =>
    if pat.isPrefixOf (a :: rest) then new ++ replaceFrom pat new (pat.length - 1) rest
    else a :: replaceFrom pat new 0 rest

/-- `str::replace`. The empty pattern stands between all elements. -/
def replaceAll (pat new s : List α) : List α :=
  if pat = [] then new ++ s.flatMap fun a => a :: new else replaceFrom pat new 0 s

theorem replaceFrom_skip (pat new : List α) (skip : Nat) (s : List α) :
    replaceFrom pat new skip s = replaceFrom pat new 0 (s.drop skip) := by
  induction s generalizing skip with
  | nil => simp [replaceFrom]
  | cons a s ih =>
    cases skip with
    | zero => rfl
    | succ skip => exact ih skip

/-- A single element is replaced element by element. -/
theorem replaceAll_singleton (a : α) (new s : List α) :
    replaceAll [a] new s = s.flatMap fun x => if x = a then new else [x] := by
  unfold replaceAll
  rw [if_neg (List.cons_ne_nil a [])]
  induction s with
  | nil => rfl
  | cons x s ih =>
    rw [List.flatMap_cons, ← ih, replaceFrom]
    by_cases hx : x = a
    · simp [hx]
    · simp [hx, Ne.symm hx]

/-- Where the pattern stands it is replaced. -/
theorem replaceAll_append_self {pat : List α} (hpat : pat ≠ []) (new s : List α) :
    replaceAll pat new (pat ++ s) = new ++ replaceAll pat new s := by
  cases pat with
  | nil => exact absurd rfl hpat
  | cons a pat =>
    have hprefix : (a :: pat).isPrefixOf (a :: (pat ++ s)) = true :=
      List.isPrefixOf_iff_prefix.mpr (List.prefix_append _ _)
    unfold replaceAll
    rw [if_neg hpat, if_neg hpat, List.cons_append, replaceFrom, if_pos hprefix, replaceFrom_skip]
    congr 2
    simp

/-- The pattern starts nowhere in the front. -/
def StartsNowhere (pat front back : List α) : Prop :=
  ∀ rest, rest ≠ [] → rest <:+ front → ¬pat <+: rest ++ back

instance (pat front back : List α) : Decidable (StartsNowhere pat front back) :=
  decidable_of_iff (∀ rest ∈ front.tails, rest ≠ [] → ¬pat <+: rest ++ back) (by
    simp only [List.mem_tails]
    exact ⟨fun h rest hne hsuffix => h rest hsuffix hne, fun h rest hsuffix hne => h rest hne hsuffix⟩)

/-- Where it starts nowhere the text stays. -/
theorem replaceAll_append_of_startsNowhere {pat front back : List α} (hpat : pat ≠ [])
    (h : StartsNowhere pat front back) (new : List α) :
    replaceAll pat new (front ++ back) = front ++ replaceAll pat new back := by
  induction front with
  | nil => rfl
  | cons a front ih =>
    have hfront : StartsNowhere pat front back := by
      intro rest hne hsuffix
      exact h rest hne (hsuffix.trans (List.suffix_cons a front))
    have hnot : ¬pat.isPrefixOf (a :: (front ++ back)) = true := by
      rw [List.isPrefixOf_iff_prefix]
      exact h (a :: front) (List.cons_ne_nil a front) List.suffix_rfl
    have hrest := ih hfront
    unfold replaceAll at hrest ⊢
    rw [if_neg hpat] at hrest ⊢
    rw [if_neg hpat] at hrest ⊢
    rw [List.cons_append, replaceFrom, if_neg hnot, hrest, List.cons_append]

end

/-! ## Pieces -/

/-- A piece of a text: plain, or something with a key. -/
inductive Piece (α κ : Type*) where
  | plain (text : List α)
  | key (k : κ)
  deriving DecidableEq

namespace Piece

variable {α κ : Type*}

/-- The text of a piece, for the texts of the keys. -/
def text (value : κ → List α) : Piece α κ → List α
  | .plain text => text
  | .key k => value k

end Piece

section

variable {α κ : Type*} [DecidableEq α] [DecidableEq κ]

/-- The text of some pieces. -/
def render (value : κ → List α) (pieces : List (Piece α κ)) : List α :=
  pieces.flatMap (Piece.text value)

/-- The pattern of a key starts at the pieces with that key only. -/
def OnlyAt (k : κ) (pat : List α) (value : κ → List α) : List (Piece α κ) → Prop
  | [] => True
  | piece :: rest =>
    (piece = .key k ∨ StartsNowhere pat (piece.text value) (render value rest)) ∧
      OnlyAt k pat value rest

/-- Whether it starts at them only, piece by piece. -/
def decideOnlyAt (k : κ) (pat : List α) (value : κ → List α) :
    (pieces : List (Piece α κ)) → Decidable (OnlyAt k pat value pieces)
  | [] => isTrue trivial
  | piece :: rest =>
    have := decideOnlyAt k pat value rest
    inferInstanceAs (Decidable ((piece = .key k ∨ StartsNowhere pat (piece.text value)
      (render value rest)) ∧ OnlyAt k pat value rest))

instance (k : κ) (pat : List α) (value : κ → List α) (pieces : List (Piece α κ)) :
    Decidable (OnlyAt k pat value pieces) := decideOnlyAt k pat value pieces

/-- The texts of the keys when some are replaced. -/
def partly (source target : κ → List α) (done : κ → Prop) [DecidablePred done] (k : κ) : List α :=
  if done k then target k else source k

omit [DecidableEq α] [DecidableEq κ] in
theorem partly_congr {source target : κ → List α} {done done' : κ → Prop} {_ : DecidablePred done}
    {_ : DecidablePred done'} {k : κ} (h : done k ↔ done' k) :
    partly source target done k = partly source target done' k := if_congr h rfl rfl

omit [DecidableEq α] [DecidableEq κ] in
theorem render_congr {value value' : κ → List α} {pieces : List (Piece α κ)}
    (h : ∀ k, .key k ∈ pieces → value k = value' k) : render value pieces = render value' pieces := by
  induction pieces with
  | nil => rfl
  | cons piece rest ih =>
    have hrest := ih fun k hk => h k (List.mem_cons_of_mem _ hk)
    unfold render at hrest ⊢
    rw [List.flatMap_cons, List.flatMap_cons, hrest]
    cases piece with
    | plain text => rfl
    | key k => exact congrArg (· ++ _) (h k List.mem_cons_self)

omit [DecidableEq κ] in
/-- One replacement changes the pieces of its key. -/
theorem replaceAll_render {k : κ} {new : List α} {value value' : κ → List α}
    {pieces : List (Piece α κ)} (hpat : value k ≠ []) (honly : OnlyAt k (value k) value pieces)
    (hself : value' k = new) (hother : ∀ k', k' ≠ k → value' k' = value k') :
    replaceAll (value k) new (render value pieces) = render value' pieces := by
  induction pieces with
  | nil =>
    unfold replaceAll
    rw [if_neg hpat]
    rfl
  | cons piece rest ih =>
    obtain ⟨hpiece, hrest⟩ := honly
    have ih := ih hrest
    unfold render at ih ⊢
    rw [List.flatMap_cons, List.flatMap_cons, ← ih]
    by_cases hkey : piece = .key k
    · subst hkey
      rw [Piece.text, Piece.text, hself]
      exact replaceAll_append_self hpat new _
    · have hsame : piece.text value' = piece.text value := by
        cases piece with
        | plain text => rfl
        | key k' => exact hother k' fun heq => hkey (congrArg Piece.key heq)
      rw [hsame]
      exact replaceAll_append_of_startsNowhere hpat (hpiece.resolve_left hkey) new

omit [DecidableEq α] [DecidableEq κ] in
theorem OnlyAt.congr {k : κ} {pat : List α} {value value' : κ → List α} {pieces : List (Piece α κ)}
    (h : ∀ k, .key k ∈ pieces → value k = value' k) (honly : OnlyAt k pat value pieces) :
    OnlyAt k pat value' pieces := by
  induction pieces with
  | nil => trivial
  | cons piece rest ih =>
    obtain ⟨hpiece, hrest⟩ := honly
    have hkeys : ∀ k, .key k ∈ rest → value k = value' k := fun k hk =>
      h k (List.mem_cons_of_mem _ hk)
    have htext : piece.text value = piece.text value' := by
      cases piece with
      | plain text => rfl
      | key k' => exact h k' List.mem_cons_self
    refine ⟨?_, ih hkeys hrest⟩
    rw [← htext, ← render_congr hkeys]
    exact hpiece

/-- In this order the texts of the keys are replaced: each starts only at its pieces when those
before it are replaced. -/
structure Replaces (source target : κ → List α) (order : List κ) (pieces : List (Piece α κ)) :
    Prop where
  nodup : order.Nodup
  nonempty : ∀ k ∈ order, source k ≠ []
  only : ∀ front k back, order = front ++ k :: back →
    OnlyAt k (source k) (partly source target (· ∈ front)) pieces

/-- One replacement after the other changes the pieces of their keys. -/
theorem Replaces.foldl {source target : κ → List α} {order : List κ} {pieces : List (Piece α κ)}
    (h : Replaces source target order pieces) :
    order.foldl (fun s k => replaceAll (source k) (target k) s) (render source pieces) =
      render (partly source target (· ∈ order)) pieces := by
  induction order using List.reverseRecOn with
  | nil => exact render_congr fun k _ => (if_neg List.not_mem_nil).symm
  | append_singleton front k ih =>
    obtain ⟨hnodup, hsource, honly⟩ := h
    rw [List.nodup_append] at hnodup
    obtain ⟨hfront, -, hdisjoint⟩ := hnodup
    have hk : k ∉ front := fun hmem => hdisjoint k hmem k List.mem_cons_self rfl
    have hsofar := ih
      { nodup := hfront
        nonempty := fun k hk => hsource k (List.mem_append_left _ hk)
        only := fun f k' b heq => honly f k' (b ++ [k]) (by rw [heq]; simp) }
    have hvalue : partly source target (· ∈ front) k = source k := if_neg hk
    rw [List.foldl_append, hsofar, List.foldl_cons, List.foldl_nil, ← hvalue]
    refine replaceAll_render ?_ ?_ ?_ ?_
    · rw [hvalue]
      exact hsource k (List.mem_append_right _ List.mem_cons_self)
    · rw [hvalue]
      exact honly front k [] rfl
    · exact if_pos (List.mem_append_right _ List.mem_cons_self)
    · intro k' hne
      apply partly_congr
      simp [hne]

/-- When every key is in the order, all the pieces are replaced. -/
theorem Replaces.foldl_all {source target : κ → List α} {order : List κ}
    {pieces : List (Piece α κ)} (h : Replaces source target order pieces)
    (hkeys : ∀ k, .key k ∈ pieces → k ∈ order) :
    order.foldl (fun s k => replaceAll (source k) (target k) s) (render source pieces) =
      render target pieces := by
  rw [h.foldl]
  exact render_congr fun k hk => if_pos (hkeys k hk)

end

end Voom.Lib
