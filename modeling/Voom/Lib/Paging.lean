-- SUMMARY: Reading a list in chunks and page by page, with limits on what a page may ask for.
import Mathlib.Data.List.Basic
import Mathlib.Data.List.Nodup

/-!
# Pages

A page is a stretch of a list, with an upper limit on its size and one on where
it may start. Read one after the other, the pages of a size give the list back
exactly if neither limit is in the way: past the first limit elements are left
out, past the second one page is read twice.
-/

namespace Voom.Lib

variable {α : Type*}

/-! ## Chunks -/

theorem toChunks_go_flatten {n : Nat} (l : List α) (chunk : Array α) (chunks : Array (List α)) :
    (List.toChunks.go n l chunk chunks).flatten =
      chunks.toList.flatten ++ (chunk.toList ++ l) := by
  induction l generalizing chunk chunks with
  | nil => simp [List.toChunks.go]
  | cons a l ih =>
    unfold List.toChunks.go
    split
    · -- the chunk is full
      rw [ih]
      simp
    · rw [ih]
      simp

theorem toChunks_flatten (n : Nat) (l : List α) : (l.toChunks n).flatten = l := by
  cases l with
  | nil => simp [List.toChunks]
  | cons a l =>
    cases n with
    | zero => simp [List.toChunks]
    | succ n => simp [List.toChunks, toChunks_go_flatten]

/-! ## Pages -/

section

variable {maxLimit maxOffset size total : Nat} {l : List α}

/-- At most so many elements from a place on, both within their limits. -/
def page (maxLimit maxOffset limit offset : Nat) (l : List α) : List α :=
  (l.drop (min offset maxOffset)).take (min limit maxLimit)

/-- How many pages of a size a total takes. -/
def pageCount (size total : Nat) : Nat := (total + size - 1) / size

/-- The pages of a size, one after the other. -/
def pages (maxLimit maxOffset size : Nat) (l : List α) : List α :=
  ((List.range (pageCount size l.length)).map fun k =>
    page maxLimit maxOffset size (k * size) l).flatten

/-- No page of the size runs into a limit. -/
structure Unclamped (maxLimit maxOffset size total : Nat) : Prop where
  limit : total ≤ maxLimit ∨ size ≤ maxLimit
  offset : ∀ k, k * size < total → k * size ≤ maxOffset

theorem lt_pageCount_iff (hsize : 0 < size) {k : Nat} :
    k < pageCount size total ↔ k * size < total := by
  unfold pageCount
  rw [Nat.lt_iff_add_one_le, Nat.le_div_iff_mul_le hsize, Nat.add_one_mul]
  omega

theorem mem_page {limit offset : Nat} {a : α} :
    a ∈ page maxLimit maxOffset limit offset l ↔
      ∃ i, min offset maxOffset ≤ i ∧ i < min offset maxOffset + min limit maxLimit ∧
        l[i]? = some a := by
  unfold page
  rw [List.mem_iff_getElem?]
  constructor
  · rintro ⟨i, hi⟩
    rw [List.getElem?_take] at hi
    split at hi
    · rename_i hlt
      rw [List.getElem?_drop] at hi
      exact ⟨_, Nat.le_add_right _ _, Nat.add_lt_add_left hlt _, hi⟩
    · cases hi
  · rintro ⟨i, hle, hlt, hi⟩
    refine ⟨i - min offset maxOffset, ?_⟩
    rw [List.getElem?_take_of_lt (by omega), List.getElem?_drop, Nat.add_sub_cancel' hle, hi]

theorem page_map {β : Type*} (f : α → β) (maxLimit maxOffset limit offset : Nat) (l : List α) :
    page maxLimit maxOffset limit offset (l.map f) =
      (page maxLimit maxOffset limit offset l).map f := by
  unfold page
  rw [← List.map_drop, ← List.map_take]

theorem page_sublist (maxLimit maxOffset limit offset : Nat) (l : List α) :
    (page maxLimit maxOffset limit offset l).Sublist l :=
  (List.take_sublist _ _).trans (List.drop_sublist _ _)

/-- Whole pages side by side. -/
theorem flatten_range_take_drop (size count : Nat) (l : List α) :
    ((List.range count).map fun k => (l.drop (k * size)).take size).flatten =
      l.take (count * size) := by
  induction count with
  | zero => simp
  | succ count ih =>
    rw [List.range_succ, List.map_append, List.flatten_append, ih, Nat.add_one_mul, List.take_add]
    simp

theorem pages_of_unclamped (hsize : 0 < size) (h : Unclamped maxLimit maxOffset size l.length) :
    pages maxLimit maxOffset size l = l := by
  have hpage : ∀ k ∈ List.range (pageCount size l.length),
      page maxLimit maxOffset size (k * size) l = (l.drop (k * size)).take size := by
    intro k hk
    have hk := (lt_pageCount_iff hsize).mp (List.mem_range.mp hk)
    unfold page
    rw [Nat.min_eq_left (h.offset k hk)]
    rcases h.limit with hlimit | hlimit
    · -- what is left is shorter than either bound
      have hlength : (l.drop (k * size)).length ≤ maxLimit := by
        rw [List.length_drop]
        omega
      rcases Nat.le_total size maxLimit with hle | hle
      · rw [Nat.min_eq_left hle]
      · rw [Nat.min_eq_right hle, List.take_of_length_le hlength,
          List.take_of_length_le (Nat.le_trans hlength hle)]
    · rw [Nat.min_eq_left hlimit]
  have hall : l.length ≤ pageCount size l.length * size := by
    by_contra hlt
    exact absurd ((lt_pageCount_iff hsize).mpr (Nat.lt_of_not_le hlt)) (Nat.lt_irrefl _)
  unfold pages
  rw [List.map_congr_left hpage, flatten_range_take_drop, List.take_of_length_le hall]

/-- An element past the limit of a page that asks for more is on no page. -/
theorem limit_of_pages (hmax : maxLimit < maxOffset) (hnodup : l.Nodup)
    (h : pages maxLimit maxOffset size l = l) : l.length ≤ maxLimit ∨ size ≤ maxLimit := by
  by_contra hclamped
  obtain ⟨hlength, hsize⟩ := not_or.mp hclamped
  obtain ⟨a, ha⟩ : ∃ a, l[maxLimit]? = some a :=
    ⟨_, List.getElem?_eq_getElem (by omega)⟩
  have hmem : a ∈ pages maxLimit maxOffset size l := by
    rw [h]
    exact List.mem_of_getElem? ha
  obtain ⟨_, hpage, hmem⟩ := List.mem_flatten.mp hmem
  obtain ⟨k, -, rfl⟩ := List.mem_map.mp hpage
  obtain ⟨i, hfrom, hto, hi⟩ := mem_page.mp hmem
  obtain rfl : i = maxLimit := by
    have hlt : i < l.length := (List.getElem?_eq_some_iff.mp hi).1
    exact (List.getElem?_inj hlt hnodup).mp (hi.trans ha.symm)
  -- the first page ends before the element, and the others start after it
  cases k with
  | zero => omega
  | succ k =>
    have hstart : size ≤ (k + 1) * size := Nat.le_mul_of_pos_left size (Nat.succ_pos k)
    omega

/-- The page that holds the last place to start from is not the one of that place. -/
theorem offset_of_pages (hsize : 0 < size)
    (hmax : l.length ≤ maxLimit ∨ size ≤ maxLimit) (hle : maxLimit < maxOffset) (hnodup : l.Nodup)
    (h : pages maxLimit maxOffset size l = l) :
    ∀ k, k * size < l.length → k * size ≤ maxOffset := by
  intro k hk
  by_contra hpast
  have hsmall : size ≤ maxLimit := by omega
  obtain ⟨a, ha⟩ : ∃ a, l[maxOffset]? = some a :=
    ⟨_, List.getElem?_eq_getElem (by omega)⟩
  let j := maxOffset / size
  have hj : j * size ≤ maxOffset := Nat.div_mul_le_self maxOffset size
  have hj' : maxOffset < j * size + size := Nat.lt_div_mul_add hsize
  have hjk : j < k := by
    by_contra hge
    have := Nat.mul_le_mul_right size (Nat.le_of_not_lt hge)
    omega
  have hnodup' : (pages maxLimit maxOffset size l).Nodup := by rwa [h]
  have hpairwise := (List.nodup_flatten.mp hnodup').2
  rw [List.pairwise_map] at hpairwise
  have hdisjoint := List.pairwise_iff_getElem.mp hpairwise j k
    (by rw [List.length_range]; exact Nat.lt_trans hjk ((lt_pageCount_iff hsize).mpr hk))
    (by rw [List.length_range]; exact (lt_pageCount_iff hsize).mpr hk) hjk
  rw [List.getElem_range, List.getElem_range] at hdisjoint
  refine hdisjoint (a := a) ?_ ?_
  · exact mem_page.mpr ⟨maxOffset, by omega, by omega, ha⟩
  · exact mem_page.mpr ⟨maxOffset, by omega, by omega, ha⟩

/-- The pages are the list exactly if they stay within the limits. -/
theorem pages_eq_iff (hmax : maxLimit < maxOffset) (hsize : 0 < size)
    (hnodup : l.Nodup) :
    pages maxLimit maxOffset size l = l ↔ Unclamped maxLimit maxOffset size l.length := by
  constructor
  · intro h
    have hfits := limit_of_pages hmax hnodup h
    exact ⟨hfits, offset_of_pages hsize hfits hmax hnodup h⟩
  · exact pages_of_unclamped hsize

end

end Voom.Lib
