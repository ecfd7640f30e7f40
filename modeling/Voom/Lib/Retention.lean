-- SUMMARY: Retention by age and by rank: which rows of a newest-first list are overdue.
import Mathlib.Data.List.Basic
import Mathlib.Data.List.Nodup

/-!
# Retention

Rows are ranked newest first. A row is overdue when it is old or ranks beyond a bound. As old
rows rank behind the others, the overdue rows are a tail of the ranking, whose length does not
depend on how ties are ranked, and what is left has no overdue row in any ranking.
-/

namespace Voom.Lib.Retention

variable {α κ : Type*} {old : α → Bool} {keep : Option Nat} {ranked : List α}

/-- The number of a row is beyond the bound. -/
def beyond (keep : Option Nat) (rn : Nat) : Bool := keep.any (· < rn)

theorem beyond_iff {rn : Nat} : beyond keep rn = true ↔ ∃ k, keep = some k ∧ k < rn := by
  cases keep with
  | none => simp [beyond]
  | some k => simp [beyond]

/-- The rows that are old or have a number beyond `keep`, counting from 1. -/
def overdue (old : α → Bool) (keep : Option Nat) (ranked : List α) : List α :=
  ((ranked.zipIdx 1).filter fun row => old row.1 || beyond keep row.2).map Prod.fst

/-- No row behind an old one is not. -/
def OldLast (old : α → Bool) (ranked : List α) : Prop :=
  ranked.Pairwise fun a b => old a = true → old b = true

/-- How many rows are not overdue. -/
def kept (fresh : Nat) : Option Nat → Nat
  | none => fresh
  | some keep => min fresh keep

theorem kept_le (fresh : Nat) (keep : Option Nat) : kept fresh keep ≤ fresh := by
  cases keep with
  | none => exact Nat.le_refl fresh
  | some keep => exact Nat.min_le_left fresh keep

/-- Keeping what was kept keeps everything. -/
theorem kept_kept (fresh : Nat) (keep : Option Nat) : kept (kept fresh keep) keep = kept fresh keep := by
  cases keep with
  | none => rfl
  | some keep => simp [kept]

/-- A row is overdue if it is old or has enough others in front. -/
theorem mem_overdue {a : α} : a ∈ overdue old keep ranked ↔
    ∃ i, ranked[i]? = some a ∧ (old a = true ∨ ∃ k, keep = some k ∧ k ≤ i) := by
  rw [overdue, List.mem_map]
  constructor
  · rintro ⟨⟨a, rn⟩, hmem, rfl⟩
    obtain ⟨hrow, hover⟩ := List.mem_filter.mp hmem
    obtain ⟨hrn, hget⟩ := List.mk_mem_zipIdx_iff_le_and_getElem?_sub.mp hrow
    rw [Bool.or_eq_true, beyond_iff] at hover
    refine ⟨rn - 1, hget, hover.imp_right ?_⟩
    rintro ⟨k, rfl, hk⟩
    exact ⟨k, rfl, Nat.le_sub_one_of_lt hk⟩
  · rintro ⟨i, hget, hover⟩
    refine ⟨(a, i + 1), List.mem_filter.mpr ⟨?_, ?_⟩, rfl⟩
    · exact List.mk_mem_zipIdx_iff_le_and_getElem?_sub.mpr ⟨Nat.le_add_left 1 i, hget⟩
    · rw [Bool.or_eq_true, beyond_iff]
      refine hover.imp_right ?_
      rintro ⟨k, rfl, hk⟩
      exact ⟨k, rfl, Nat.lt_succ_of_le hk⟩

/-- Once a row is overdue, all behind it are. -/
theorem overdueFrom_of_true {a : α} (h : OldLast old (a :: ranked)) {start : Nat}
    (ha : (old a || beyond keep start) = true) :
    (((a :: ranked).zipIdx start).filter fun row => old row.1 || beyond keep row.2).map Prod.fst =
      a :: ranked := by
  rw [List.filter_eq_self.mpr, List.zipIdx_map_fst]
  rintro ⟨b, rn⟩ hrow
  obtain ⟨hrn, hget⟩ := List.mk_mem_zipIdx_iff_le_and_getElem?_sub.mp hrow
  rw [Bool.or_eq_true, beyond_iff] at ha ⊢
  rcases ha with hold | ⟨k, hk, hlt⟩
  · rcases List.mem_cons.mp (List.mem_of_getElem? hget) with rfl | hb
    · exact .inl hold
    · exact .inl ((List.pairwise_cons.mp h).1 b hb hold)
  · exact .inr ⟨k, hk, Nat.lt_of_lt_of_le hlt hrn⟩

/-- The rows numbered from `start + 1` on: of the bound, `start` is used up. -/
theorem overdueFrom_eq_drop (h : OldLast old ranked) (start : Nat) :
    ((ranked.zipIdx (start + 1)).filter fun row => old row.1 || beyond keep row.2).map Prod.fst =
      ranked.drop (kept (ranked.countP (!old ·)) (keep.map (· - start))) := by
  induction ranked generalizing start with
  | nil => simp
  | cons a ranked ih =>
    obtain ⟨hfirst, hrest⟩ := List.pairwise_cons.mp h
    cases hover : old a || beyond keep (start + 1) with
    | true =>
      rw [overdueFrom_of_true h hover]
      suffices hzero : kept ((a :: ranked).countP (!old ·)) (keep.map (· - start)) = 0 by
        rw [hzero, List.drop_zero]
      rw [Bool.or_eq_true, beyond_iff] at hover
      rcases hover with hold | ⟨k, rfl, hk⟩
      · have hnone : (a :: ranked).countP (!old ·) = 0 := by
          rw [List.countP_eq_zero]
          intro b hb
          rcases List.mem_cons.mp hb with rfl | hb
          · simp [hold]
          · simp [hfirst b hb hold]
        exact Nat.le_zero.mp (hnone ▸ kept_le _ _)
      · simp only [kept, Option.map_some]
        omega
    | false =>
      obtain ⟨hold, hkeep⟩ := Bool.or_eq_false_iff.mp hover
      rw [List.zipIdx_cons, List.filter_cons_of_neg (by simp [hover]), ih hrest (start + 1),
        List.countP_cons_of_pos (by simp [hold])]
      cases keep with
      | none => rfl
      | some k =>
        have hk : start + 1 ≤ k := by simpa [beyond] using hkeep
        have hmin : min (ranked.countP (!old ·) + 1) (k - start) =
            min (ranked.countP (!old ·)) (k - (start + 1)) + 1 := by omega
        simp only [kept, Option.map_some, hmin, List.drop_succ_cons]

theorem overdue_eq_drop (keep : Option Nat) (h : OldLast old ranked) :
    overdue old keep ranked = ranked.drop (kept (ranked.countP (!old ·)) keep) := by
  have hfrom := @overdueFrom_eq_drop α old keep ranked h 0
  simpa [overdue] using hfrom

/-- A bound that no number reaches is none. -/
theorem overdue_of_length_le {k : Nat} (h : ranked.length ≤ k) :
    overdue old (some k) ranked = overdue old none ranked := by
  unfold overdue
  congr 1
  apply List.filter_congr
  rintro ⟨a, rn⟩ hrow
  obtain ⟨hrn, hget⟩ := List.mk_mem_zipIdx_iff_le_and_getElem?_sub.mp hrow
  obtain ⟨hlt, -⟩ := List.getElem?_eq_some_iff.mp hget
  have hnot : ¬k < rn := by omega
  simp [beyond, hnot]

/-- However ties are ranked, as many rows are overdue. -/
theorem length_overdue_eq {ranked' : List α} (h : OldLast old ranked) (h' : OldLast old ranked')
    (hperm : ranked.Perm ranked') :
    (overdue old keep ranked).length = (overdue old keep ranked').length := by
  rw [overdue_eq_drop keep h, overdue_eq_drop keep h', List.length_drop, List.length_drop,
    hperm.length_eq, hperm.countP_eq]

/-- The first rows, as many as are not old, are the ones that are not. -/
theorem old_take_eq_false (h : OldLast old ranked) {a : α}
    (ha : a ∈ ranked.take (ranked.countP (!old ·))) : old a = false := by
  induction ranked with
  | nil => simp at ha
  | cons b ranked ih =>
    obtain ⟨hfirst, hrest⟩ := List.pairwise_cons.mp h
    cases hb : old b with
    | true =>
      have hnone : (b :: ranked).countP (!old ·) = 0 := by
        rw [List.countP_eq_zero]
        intro c hc
        rcases List.mem_cons.mp hc with rfl | hc
        · simp [hb]
        · simp [hfirst c hc hb]
      simp [hnone] at ha
    | false =>
      rw [List.countP_cons_of_pos (by simp [hb]), List.take_succ_cons] at ha
      rcases List.mem_cons.mp ha with rfl | ha
      · exact hb
      · exact ih hrest ha

/-- What is left has no overdue row, however its ties are ranked. -/
theorem overdue_rest {rest : List α} (h : OldLast old ranked)
    (hrest : rest.Perm (ranked.take (kept (ranked.countP (!old ·)) keep))) (h' : OldLast old rest) :
    overdue old keep rest = [] := by
  have hfresh : rest.countP (!old ·) = rest.length := by
    rw [List.countP_eq_length]
    intro a ha
    have hmem := (List.take_subset_take_left ranked (kept_le _ keep)) (hrest.mem_iff.mp ha)
    simp [old_take_eq_false h hmem]
  have hlength : rest.length = kept (ranked.countP (!old ·)) keep := by
    rw [hrest.length_eq, List.length_take]
    exact Nat.min_eq_left (Nat.le_trans (kept_le _ keep) List.countP_le_length)
  rw [overdue_eq_drop keep h', hfresh, hlength, kept_kept, ← hlength, List.drop_length]

/-- Dropping rows by their keys leaves the first rows of a ranking. -/
theorem filter_key_not_mem_drop [DecidableEq κ] {key : α → κ} (hkeys : (ranked.map key).Nodup)
    (n : Nat) : ranked.filter (fun a => key a ∉ (ranked.drop n).map key) = ranked.take n := by
  have hsplit := List.take_append_drop n ranked
  rw [← hsplit, List.map_append, List.nodup_append'] at hkeys
  obtain ⟨-, -, hdisjoint⟩ := hkeys
  have hfront : (ranked.take n).filter (fun a => key a ∉ (ranked.drop n).map key) =
      ranked.take n := by
    rw [List.filter_eq_self]
    intro a ha
    exact decide_eq_true (hdisjoint (List.mem_map_of_mem ha))
  have hback : (ranked.drop n).filter (fun a => key a ∉ (ranked.drop n).map key) = [] := by
    rw [List.filter_eq_nil_iff]
    intro a ha hmem
    exact of_decide_eq_true hmem (List.mem_map_of_mem ha)
  calc ranked.filter (fun a => key a ∉ (ranked.drop n).map key)
      = (ranked.take n ++ ranked.drop n).filter (fun a => key a ∉ (ranked.drop n).map key) := by
        rw [hsplit]
    _ = ranked.take n := by rw [List.filter_append, hfront, hback, List.append_nil]

end Voom.Lib.Retention
