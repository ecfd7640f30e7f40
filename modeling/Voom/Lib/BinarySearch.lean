-- SUMMARY: Binary search of a slice: what its answer says, and the halving loop that finds it.
import Mathlib.Data.List.Basic

/-!
# Binary search

A slice is searched with a comparison of its elements with what is looked for. The answer is
the place of an element that compares as equal, any of them where there are several, or the
place at which such an element belongs. The slice has to be ordered the way the comparison
sees it; on any other slice the answer is a place in range and says nothing.
-/

namespace Voom.Lib.BinarySearch

variable {α : Type*}

/-- What a comparison may say of two elements, the first of which stands before the second. -/
def InOrder (cmp : α → Ordering) (a b : α) : Prop :=
  (cmp a = .gt → cmp b = .gt) ∧ (cmp b = .lt → cmp a = .lt)

/-- The contract of `binary_search_by`: `ok` of a place that compares as equal, or `error` of
the place between what compares as less and what compares as greater. -/
def Answers (cmp : α → Ordering) (xs : List α) : Except Nat Nat → Prop
  | .ok i => ∃ h : i < xs.length, cmp (xs.get ⟨i, h⟩) = .eq
  | .error i => i ≤ xs.length ∧ (∀ x ∈ xs.take i, cmp x = .lt) ∧ ∀ x ∈ xs.drop i, cmp x = .gt

/-! ## The loop -/

/-- The comparison at a place; the loop stays in range. -/
def compareAt (cmp : α → Ordering) (xs : List α) (i : Nat) : Ordering :=
  match xs[i]? with
  | some x => cmp x
  | none => .gt

/-- Halve the window at `base` until one element is left. -/
def narrow (cmp : α → Ordering) (xs : List α) : Nat → Nat → Nat → Nat
  | 0, _, base => base
  | fuel + 1, size, base =>
    if size ≤ 1 then base
    else
      let half := size / 2
      let base := if compareAt cmp xs (base + half) = .gt then base else base + half
      narrow cmp xs fuel (size - half) base

/-- `binary_search_by`. -/
def search (cmp : α → Ordering) (xs : List α) : Except Nat Nat :=
  if xs = [] then .error 0
  else
    let base := narrow cmp xs xs.length xs.length 0
    match compareAt cmp xs base with
    | .eq => .ok base
    | .lt => .error (base + 1)
    | .gt => .error base

/-- `partition_point`. -/
def partitionPoint (p : α → Bool) (xs : List α) : Nat :=
  match search (fun x => if p x then .lt else .gt) xs with
  | .ok i | .error i => i

/-! ## What the loop finds -/

section
variable {cmp : α → Ordering} {xs : List α}

theorem compareAt_of_lt {i : Nat} (h : i < xs.length) : compareAt cmp xs i = cmp (xs.get ⟨i, h⟩) := by
  simp [compareAt, List.getElem?_eq_getElem h]

/-- The window of the loop: it lies in the slice, what is behind it compares as greater, and
its first element does not unless it is the first of the slice. -/
structure Window (cmp : α → Ordering) (xs : List α) (size base : Nat) : Prop where
  pos : 0 < size
  inside : base + size ≤ xs.length
  behind : ∀ i, base + size ≤ i → ∀ h : i < xs.length, cmp (xs.get ⟨i, h⟩) = .gt
  start : base = 0 ∨ compareAt cmp xs base ≠ .gt

theorem Window.halve {size base : Nat} (h : Window cmp xs size base) (hsize : 1 < size)
    (hxs : xs.Pairwise (InOrder cmp)) :
    Window cmp xs (size - size / 2)
      (if compareAt cmp xs (base + size / 2) = .gt then base else base + size / 2) := by
  have hinside := h.inside
  have hmid : base + size / 2 < xs.length := by omega
  split
  · rename_i hgt
    refine ⟨by omega, by omega, fun i hi hlt => ?_, h.start⟩
    -- what stands behind the middle is greater because the middle is
    rw [compareAt_of_lt hmid] at hgt
    rcases Nat.eq_or_lt_of_le (show base + size / 2 ≤ i by omega) with rfl | hbehind
    · exact hgt
    · exact (List.pairwise_iff_getElem.mp hxs _ i hmid hlt hbehind).1 hgt
  · rename_i hgt
    exact ⟨by omega, by omega, fun i hi hlt => h.behind i (by omega) hlt, .inr hgt⟩

theorem Window.narrow {fuel size base : Nat} (h : Window cmp xs size base) (hfuel : size ≤ fuel)
    (hxs : xs.Pairwise (InOrder cmp)) :
    Window cmp xs 1 (narrow cmp xs fuel size base) := by
  induction fuel generalizing size base with
  | zero =>
    have := h.pos
    omega
  | succ fuel ih =>
    simp only [BinarySearch.narrow]
    split
    · rename_i hone
      have hsize : size = 1 := by
        have := h.pos
        omega
      exact hsize ▸ h
    · exact ih (h.halve (by omega) hxs) (by omega)

/-- On a slice that is ordered for the comparison the search keeps its contract. -/
theorem search_answers (hxs : xs.Pairwise (InOrder cmp)) : Answers cmp xs (search cmp xs) := by
  unfold search
  split
  · rename_i hnil
    simp [Answers, hnil]
  · rename_i hne
    have hlength := List.length_pos_iff.mpr hne
    have hwindow : Window cmp xs 1 (BinarySearch.narrow cmp xs xs.length xs.length 0) := by
      refine Window.narrow ⟨hlength, by omega, fun i hi hlt => ?_, .inl rfl⟩ (Nat.le_refl _) hxs
      omega
    generalize BinarySearch.narrow cmp xs xs.length xs.length 0 = base at hwindow
    have hbase : base < xs.length := hwindow.inside
    have hat : compareAt cmp xs base = cmp (xs.get ⟨base, hbase⟩) := compareAt_of_lt hbase
    dsimp only
    split
    · rename_i heq
      exact ⟨hbase, hat ▸ heq⟩
    · rename_i hlt
      refine ⟨hbase, fun x hx => ?_, fun x hx => ?_⟩
      · obtain ⟨i, hi, rfl⟩ := List.mem_take_iff_getElem.mp hx
        rcases Nat.eq_or_lt_of_le (show i ≤ base by omega) with rfl | hbefore
        · exact hat ▸ hlt
        · exact (List.pairwise_iff_getElem.mp hxs i base (by omega) hbase hbefore).2 (hat ▸ hlt)
      · obtain ⟨i, hi, rfl⟩ := List.mem_drop_iff_getElem.mp hx
        exact hwindow.behind _ (by omega) _
    · rename_i hgt
      -- only the first element of the slice can be left over as greater
      obtain rfl : base = 0 := hwindow.start.resolve_right fun hne => hne hgt
      refine ⟨Nat.zero_le _, fun x hx => by simp at hx, fun x hx => ?_⟩
      rw [List.drop_zero] at hx
      obtain ⟨i, hi, rfl⟩ := List.mem_iff_getElem.mp hx
      rcases Nat.eq_zero_or_pos i with rfl | hpos
      · exact hat ▸ hgt
      · exact hwindow.behind i hpos hi

theorem search_bounded (cmp : α → Ordering) (xs : List α) :
    ∀ i, search cmp xs = .ok i ∨ search cmp xs = .error i → i ≤ xs.length := by
  have hnarrow : ∀ fuel size base, 0 < size → base + size ≤ xs.length →
      narrow cmp xs fuel size base < xs.length := by
    intro fuel
    induction fuel with
    | zero =>
      intro size base hpos hle
      simp only [narrow]
      omega
    | succ fuel ih =>
      intro size base hpos hle
      simp only [narrow]
      split
      · omega
      · split <;> exact ih _ _ (by omega) (by omega)
  intro i hi
  unfold search at hi
  split at hi
  · rcases hi with hi | hi <;> cases hi
    exact Nat.zero_le _
  · rename_i hne
    have hbase := hnarrow xs.length xs.length 0 (List.length_pos_iff.mpr hne) (by omega)
    dsimp only at hi
    split at hi <;> rcases hi with hi | hi <;> cases hi <;> omega

/-- The place that an answer of the second kind names is the only one. -/
theorem Answers.eq_length {front back : List α} {i : Nat}
    (h : Answers cmp (front ++ back) (.error i)) (hfront : ∀ x ∈ front, cmp x ≠ .gt)
    (hback : ∀ x ∈ back, cmp x ≠ .lt) : i = front.length := by
  obtain ⟨hle, htake, hdrop⟩ := h
  rcases Nat.lt_trichotomy i front.length with hlt | heq | hgt
  · have hmem : front.get ⟨i, hlt⟩ ∈ (front ++ back).drop i :=
      List.mem_drop_iff_getElem.mpr ⟨0, by simp; omega, by simp [hlt]⟩
    exact absurd (hdrop _ hmem) (hfront _ (List.get_mem ..))
  · exact heq
  · rw [List.length_append] at hle
    have hback' : i - 1 - front.length < back.length := by omega
    have hmem : back.get ⟨i - 1 - front.length, hback'⟩ ∈ (front ++ back).take i := by
      refine List.mem_take_iff_getElem.mpr ⟨i - 1, by simp; omega, ?_⟩
      rw [List.getElem_append_right (by omega)]
      rfl
    exact absurd (htake _ hmem) (hback _ (List.get_mem ..))

end

theorem insertIdx_append_self (front back : List α) (x : α) :
    (front ++ back).insertIdx front.length x = front ++ x :: back := by
  induction front with
  | nil => rfl
  | cons y front ih => exact congrArg (y :: ·) ih

theorem partitionPoint_bounded (p : α → Bool) (xs : List α) : partitionPoint p xs ≤ xs.length := by
  unfold partitionPoint
  split
  · rename_i i heq
    exact search_bounded _ xs i (.inl heq)
  · rename_i i heq
    exact search_bounded _ xs i (.inr heq)

theorem partitionPoint_append {p : α → Bool} {front back : List α}
    (hfront : ∀ x ∈ front, p x = true) (hback : ∀ x ∈ back, p x = false) :
    partitionPoint p (front ++ back) = front.length := by
  have hordered : (front ++ back).Pairwise (InOrder fun x => if p x then .lt else .gt) := by
    refine List.pairwise_append.mpr ⟨?_, ?_, fun a ha b hb => ?_⟩
    · exact List.Pairwise.imp_of_mem (R := fun _ _ => True)
        (fun ha hb _ => by simp [InOrder, hfront _ ha, hfront _ hb]) (List.pairwise_of_forall fun _ _ => trivial)
    · exact List.Pairwise.imp_of_mem (R := fun _ _ => True)
        (fun ha hb _ => by simp [InOrder, hback _ ha, hback _ hb]) (List.pairwise_of_forall fun _ _ => trivial)
    · simp [InOrder, hfront a ha, hback b hb]
  have hanswer := search_answers hordered
  unfold partitionPoint
  split
  · -- no element is equal to a place between two elements
    rename_i i heq
    rw [heq] at hanswer
    obtain ⟨_, hcmp⟩ := hanswer
    dsimp only at hcmp
    split at hcmp <;> cases hcmp
  · rename_i i heq
    rw [heq] at hanswer
    exact hanswer.eq_length (fun x hx => by simp [hfront x hx]) fun x hx => by simp [hback x hx]

end Voom.Lib.BinarySearch
