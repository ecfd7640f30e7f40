-- SUMMARY: The latest and the previous of some rows, as a loop finds them and as window functions do.
import Mathlib.Data.List.Sort
import Mathlib.Data.List.Perm.Basic
import Mathlib.Order.OrderDual
import Voom.Lib.Table

/-!
# Windows

Rows with keys in a linear order. A loop keeps the row with the greatest key; a
window function sorts a partition by the key and looks at what stands in front
of a row. When no two rows have the same key, both find the same rows.
-/

namespace Voom.Lib.Window

variable {α κ : Type*} [LinearOrder κ] (key : α → κ)

/-- The row has the greatest key. -/
def IsLatest (rows : List α) (a : α) : Prop := a ∈ rows ∧ ∀ b ∈ rows, key b ≤ key a

/-- The row has the greatest key below that of another. -/
def IsPrevious (rows : List α) (a p : α) : Prop :=
  (p ∈ rows ∧ key p < key a) ∧ ∀ b ∈ rows, key b < key a → key b ≤ key p

/-! ## Loops -/

/-- `Iterator::max_by`: the last of the greatest. -/
def maxBy : List α → Option α
  | [] => none
  | a :: rows => some (rows.foldl (fun m b => if key m ≤ key b then b else m) a)

/-- The greatest key below that of a row. -/
def previousBy (rows : List α) (a : α) : Option α :=
  maxBy key (rows.filter fun b => key b < key a)

variable {key} {rows : List α}

theorem foldl_isLatest (a : α) (rows : List α) :
    IsLatest key (a :: rows) (rows.foldl (fun m b => if key m ≤ key b then b else m) a) := by
  induction rows generalizing a with
  | nil => exact ⟨List.mem_cons_self, by simp⟩
  | cons b rows ih =>
    rw [List.foldl_cons]
    obtain ⟨hmem, hmax⟩ := ih (if key a ≤ key b then b else a)
    have hnext : key a ≤ key (if key a ≤ key b then b else a) ∧
        key b ≤ key (if key a ≤ key b then b else a) := by
      split
      · exact ⟨‹_›, le_rfl⟩
      · exact ⟨le_rfl, (lt_of_not_ge ‹_›).le⟩
    have hle := hmax _ List.mem_cons_self
    refine ⟨?_, fun c hc => ?_⟩
    · rcases List.mem_cons.mp hmem with heq | hmem
      · rw [heq]
        split <;> simp
      · exact List.mem_cons_of_mem _ (List.mem_cons_of_mem _ hmem)
    · rcases List.mem_cons.mp hc with rfl | hc
      · exact hnext.1.trans hle
      · rcases List.mem_cons.mp hc with rfl | hc
        · exact hnext.2.trans hle
        · exact hmax c (List.mem_cons_of_mem _ hc)

theorem isLatest_of_maxBy {a : α} (h : maxBy key rows = some a) : IsLatest key rows a := by
  cases rows with
  | nil => cases h
  | cons b rows =>
    obtain rfl := Option.some.inj h
    exact foldl_isLatest b rows

@[simp] theorem maxBy_eq_none : maxBy key rows = none ↔ rows = [] := by
  cases rows <;> simp [maxBy]

theorem IsLatest.unique (hkeyed : Table.Keyed key rows) {a b : α} (ha : IsLatest key rows a)
    (hb : IsLatest key rows b) : a = b :=
  hkeyed.eq_of_key ha.1 hb.1 (le_antisymm (hb.2 a ha.1) (ha.2 b hb.1))

/-- A finer key has the same latest row when the coarser one tells the rows apart. -/
theorem isLatest_iff_of_finer {κ' : Type*} [LinearOrder κ'] {key' : α → κ'}
    (hkeyed : Table.Keyed key rows) (h : ∀ a b, key' a ≤ key' b → key a ≤ key b) {a : α} :
    IsLatest key' rows a ↔ IsLatest key rows a := by
  refine and_congr_right fun ha => ⟨fun hmax b hb => h b a (hmax b hb), fun hmax b hb => ?_⟩
  rcases le_total (key' b) (key' a) with hle | hle
  · exact hle
  · rw [hkeyed.eq_of_key hb ha (le_antisymm (hmax b hb) (h a b hle))]

theorem maxBy_eq_some_iff (hkeyed : Table.Keyed key rows) {a : α} :
    maxBy key rows = some a ↔ IsLatest key rows a := by
  refine ⟨isLatest_of_maxBy, fun ha => ?_⟩
  cases h : maxBy key rows with
  | none =>
    obtain rfl := maxBy_eq_none.mp h
    cases ha.1
  | some b => exact congrArg some ((isLatest_of_maxBy h).unique hkeyed ha)

theorem previousBy_eq_some_iff (hkeyed : Table.Keyed key rows) {a p : α} :
    previousBy key rows a = some p ↔ IsPrevious key rows a p := by
  unfold previousBy
  rw [maxBy_eq_some_iff (List.Nodup.sublist (List.filter_sublist.map key) hkeyed)]
  simp [IsLatest, IsPrevious, List.mem_filter]

theorem maxBy_eq_of_finer {κ' : Type*} [LinearOrder κ'] {key' : α → κ'}
    (hkeyed : Table.Keyed key rows) (h : ∀ a b, key' a ≤ key' b → key a ≤ key b) :
    maxBy key' rows = maxBy key rows := by
  cases hmax : maxBy key' rows with
  | none => rw [maxBy_eq_none.mp hmax, maxBy]
  | some a =>
    have ha := (isLatest_iff_of_finer hkeyed h).mp (isLatest_of_maxBy hmax)
    exact ((maxBy_eq_some_iff hkeyed).mpr ha).symm

/-- The greatest key is that of the latest row. -/
theorem max?_map_key (rows : List α) : (rows.map key).max? = (maxBy key rows).map key := by
  cases rows with
  | nil => rfl
  | cons a rows =>
    rw [List.map_cons, List.max?_cons', maxBy, Option.map_some]
    congr 1
    induction rows generalizing a with
    | nil => rfl
    | cons b rows ih =>
      rw [List.map_cons, List.foldl_cons, List.foldl_cons, ← ih, max_def]
      congr 1
      split <;> rfl

section Renamed

variable {β : Type*} {f : β → α} {l : List β} {b : β}

/-- The latest of rows that stand for others. -/
theorem isLatest_map (hb : b ∈ l) : IsLatest key (l.map f) (f b) ↔ IsLatest (key ∘ f) l b := by
  unfold IsLatest
  rw [List.forall_mem_map]
  exact ⟨fun h => ⟨hb, h.2⟩, fun h => ⟨List.mem_map_of_mem hb, h.2⟩⟩

theorem isPrevious_map {p : β} (hp : p ∈ l) :
    IsPrevious key (l.map f) (f b) (f p) ↔ IsPrevious (key ∘ f) l b p := by
  unfold IsPrevious
  rw [List.forall_mem_map]
  exact ⟨fun h => ⟨⟨hp, h.1.2⟩, h.2⟩, fun h => ⟨⟨List.mem_map_of_mem hp, h.1.2⟩, h.2⟩⟩

end Renamed

/-- Only the order of the keys matters. -/
theorem maxBy_congr {κ' : Type*} [LinearOrder κ'] {key' : α → κ'}
    (h : ∀ a ∈ rows, ∀ b ∈ rows, key a ≤ key b ↔ key' a ≤ key' b) :
    maxBy key rows = maxBy key' rows := by
  cases rows with
  | nil => rfl
  | cons a rows =>
    refine congrArg some ?_
    induction rows generalizing a with
    | nil => rfl
    | cons b rows ih =>
      have hab := h a List.mem_cons_self b (List.mem_cons_of_mem _ List.mem_cons_self)
      rw [List.foldl_cons, List.foldl_cons]
      by_cases hle : key a ≤ key b
      · rw [if_pos hle, if_pos (hab.mp hle)]
        exact ih b fun x hx y hy => h x (List.mem_cons_of_mem _ hx) y (List.mem_cons_of_mem _ hy)
      · rw [if_neg hle, if_neg (mt hab.mpr hle)]
        refine ih a fun x hx y hy => h x ?_ y ?_
        · exact List.cons_subset_cons a (List.subset_cons_self b rows) hx
        · exact List.cons_subset_cons a (List.subset_cons_self b rows) hy

theorem previousBy_congr {κ' : Type*} [LinearOrder κ'] {key' : α → κ'} {a : α}
    (h : ∀ b ∈ rows, ∀ c ∈ rows, key b ≤ key c ↔ key' b ≤ key' c)
    (ha : ∀ b ∈ rows, key b < key a ↔ key' b < key' a) :
    previousBy key rows a = previousBy key' rows a := by
  have hrows : (rows.filter fun b => key b < key a) = rows.filter fun b => key' b < key' a :=
    List.filter_congr fun b hb => decide_eq_decide.mpr (ha b hb)
  unfold previousBy
  rw [hrows]
  exact maxBy_congr fun b hb c hc => h b (List.mem_filter.mp hb).1 c (List.mem_filter.mp hc).1

/-! ## Window functions -/

section

variable [DecidableEq α] (key)

/-- What stands in front of a row when its partition is sorted by the key. -/
def inFront (rows : List α) (a : α) : List α :=
  (rows.insertionSort (key · ≤ key ·)).takeWhile (· ≠ a)

/-- `ROW_NUMBER()` -/
def rowNumber (rows : List α) (a : α) : Nat := (inFront key rows a).length + 1

/-- `LAG(..)`, as the row that it is of. -/
def lag (rows : List α) (a : α) : Option α := (inFront key rows a).getLast?

variable {key}

theorem sorted_inFront (rows : List α) (a : α) :
    (inFront key rows a).Pairwise (key · ≤ key ·) :=
  (List.pairwise_insertionSort _ rows).sublist (List.takeWhile_sublist _)

/-- Without equal keys, these are the rows with a smaller one. -/
theorem mem_inFront (hkeyed : Table.Keyed key rows) {a b : α} (ha : a ∈ rows) :
    b ∈ inFront key rows a ↔ b ∈ rows ∧ key b < key a := by
  have hperm := List.perm_insertionSort (key · ≤ key ·) rows
  obtain ⟨front, back, hsort⟩ := List.append_of_mem (hperm.mem_iff.mpr ha)
  have hsorted := List.pairwise_insertionSort (key · ≤ key ·) rows
  have hnodup : (rows.insertionSort (key · ≤ key ·)).Nodup :=
    hperm.nodup_iff.mpr (List.Nodup.of_map key hkeyed)
  rw [hsort] at hsorted hnodup
  have hnot : ∀ c ∈ front, c ≠ a := by
    rintro c hc rfl
    exact (List.nodup_append.mp hnodup).2.2 c hc c List.mem_cons_self rfl
  have hfront : inFront key rows a = front := by
    unfold inFront
    rw [hsort, List.takeWhile_append_of_pos (by simpa using hnot)]
    simp
  have hle : ∀ c ∈ front, key c ≤ key a := fun c hc =>
    (List.pairwise_append.mp hsorted).2.2 c hc a List.mem_cons_self
  have hge : ∀ c ∈ back, key a ≤ key c :=
    (List.pairwise_cons.mp (List.pairwise_append.mp hsorted).2.1).1
  rw [hfront]
  constructor
  · intro hb
    have hmem : b ∈ rows := hperm.mem_iff.mp (hsort ▸ List.mem_append_left _ hb)
    refine ⟨hmem, lt_of_le_of_ne (hle b hb) fun heq => ?_⟩
    exact hnot b hb (hkeyed.eq_of_key hmem ha heq)
  · rintro ⟨hmem, hlt⟩
    have hin : b ∈ front ++ a :: back := hsort ▸ hperm.mem_iff.mpr hmem
    rcases List.mem_append.mp hin with hb | hb
    · exact hb
    · rcases List.mem_cons.mp hb with rfl | hb
      · exact absurd hlt (lt_irrefl _)
      · exact absurd hlt (not_lt_of_ge (hge b hb))

/-- The row before it has the key before it. -/
theorem lag_eq_some_iff (hkeyed : Table.Keyed key rows) {a p : α} (ha : a ∈ rows) :
    lag key rows a = some p ↔ IsPrevious key rows a p := by
  have hmem := fun b => mem_inFront hkeyed (b := b) ha
  have hsorted : (inFront key rows a).Pairwise (key · ≤ key ·) := sorted_inFront rows a
  constructor
  · intro hp
    unfold lag at hp
    have hsplit := List.dropLast_append_getLast? p hp
    refine ⟨(hmem p).mp (List.mem_of_getLast? hp), fun b hb hlt => ?_⟩
    have hin := (hmem b).mpr ⟨hb, hlt⟩
    rw [← hsplit] at hin hsorted
    rcases List.mem_append.mp hin with hin | hin
    · exact (List.pairwise_append.mp hsorted).2.2 b hin p (List.mem_singleton_self p)
    · rw [List.mem_singleton.mp hin]
  · rintro ⟨hp, hmax⟩
    unfold lag
    cases hlast : (inFront key rows a).getLast? with
    | none =>
      rw [List.getLast?_eq_none_iff] at hlast
      have hin := (hmem p).mpr hp
      rw [hlast] at hin
      cases hin
    | some q =>
      have hq := (hmem q).mp (List.mem_of_getLast? hlast)
      have hpq : key p ≤ key q := by
        have hsplit := List.dropLast_append_getLast? q hlast
        have hin := (hmem p).mpr hp
        rw [← hsplit] at hin hsorted
        rcases List.mem_append.mp hin with hin | hin
        · exact (List.pairwise_append.mp hsorted).2.2 p hin q (List.mem_singleton_self q)
        · rw [List.mem_singleton.mp hin]
      exact congrArg some (hkeyed.eq_of_key hq.1 hp.1 (le_antisymm (hmax q hq.1 hq.2) hpq))

/-- With the greatest key first, the first row is the latest. -/
theorem rowNumber_eq_one_iff (hkeyed : Table.Keyed key rows) {a : α} (ha : a ∈ rows) :
    rowNumber (OrderDual.toDual ∘ key) rows a = 1 ↔ IsLatest key rows a := by
  have hkeyed' : Table.Keyed (OrderDual.toDual ∘ key) rows := by
    unfold Table.Keyed
    rw [← List.map_map]
    exact hkeyed.map OrderDual.toDual.injective
  unfold rowNumber
  rw [Nat.add_eq_right, List.length_eq_zero_iff, List.eq_nil_iff_forall_not_mem]
  constructor
  · intro hnone
    refine ⟨ha, fun b hb => le_of_not_gt fun hlt => ?_⟩
    exact hnone b ((mem_inFront hkeyed' ha).mpr ⟨hb, hlt⟩)
  · rintro ⟨-, hmax⟩ b hb
    obtain ⟨hmem, hlt⟩ := (mem_inFront hkeyed' ha).mp hb
    exact absurd hlt (not_lt_of_ge (hmax b hmem))

end

/-! ## Numbers of rows -/

/-- As many rows have one property as have another exactly when as many have only the one as
have only the other. -/
theorem length_filter_eq_iff (p q : α → Bool) (rows : List α) :
    (rows.filter p).length = (rows.filter q).length ↔
      (rows.filter fun a => p a && !q a).length = (rows.filter fun a => q a && !p a).length := by
  have hsplit : ∀ p q : α → Bool, (rows.filter p).length =
      (rows.filter fun a => p a && q a).length + (rows.filter fun a => p a && !q a).length := by
    intro p q
    rw [← List.countP_eq_length_filter, ← List.countP_eq_length_filter,
      ← List.countP_eq_length_filter, List.countP_eq_countP_filter_add rows p q,
      List.countP_filter, List.countP_filter]
  have hboth : (rows.filter fun a => p a && q a) = rows.filter fun a => q a && p a :=
    List.filter_congr fun a _ => Bool.and_comm _ _
  rw [hsplit p q, hsplit q p, hboth]
  exact Nat.add_left_cancel_iff

/-- Rows without repetition are as many as others when they have the same names. -/
theorem length_eq_of_map {β γ : Type*} {f : α → γ} {g : β → γ} {l : List α} {l' : List β}
    (hl : (l.map f).Nodup) (hl' : (l'.map g).Nodup) (h : ∀ c, c ∈ l.map f ↔ c ∈ l'.map g) :
    l.length = l'.length := by
  have hperm := (List.perm_ext_iff_of_nodup hl hl').mpr h
  simpa using hperm.length_eq

end Voom.Lib.Window
