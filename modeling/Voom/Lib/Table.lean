-- SUMMARY: Tables as lists of rows with a key: changing and deleting the row of a key.
import Mathlib.Data.List.Nodup

/-!
# Keyed tables

A table is the list of its rows in the order they were inserted, with a key
that identifies a row. `modify` and `delete` act on the row of one key; with
unique keys they act on at most one row.
-/

namespace Voom.Lib.Table

variable {α κ : Type*} [DecidableEq κ] (key : α → κ)

/-- Change the row with the given key. -/
def modify (k : κ) (f : α → α) (rows : List α) : List α :=
  rows.map fun r => if key r = k then f r else r

/-- Delete the row with the given key. -/
def delete (k : κ) (rows : List α) : List α :=
  rows.filter fun r => key r ≠ k

/-- No two rows have the same key. -/
def Keyed (rows : List α) : Prop := (rows.map key).Nodup

variable {key} {k : κ} {f : α → α} {rows : List α}

theorem mem_modify {r' : α} :
    r' ∈ modify key k f rows ↔ ∃ r ∈ rows, r' = if key r = k then f r else r := by
  simp only [modify, List.mem_map]
  constructor
  · rintro ⟨r, hr, rfl⟩
    exact ⟨r, hr, rfl⟩
  · rintro ⟨r, hr, rfl⟩
    exact ⟨r, hr, rfl⟩

theorem mem_modify_of_ne {r : α} (hr : r ∈ rows) (h : key r ≠ k) : r ∈ modify key k f rows :=
  mem_modify.mpr ⟨r, hr, by rw [if_neg h]⟩

theorem mem_modify_self {r : α} (hr : r ∈ rows) (h : key r = k) : f r ∈ modify key k f rows :=
  mem_modify.mpr ⟨r, hr, by rw [if_pos h]⟩

theorem mem_delete {r : α} : r ∈ delete key k rows ↔ r ∈ rows ∧ key r ≠ k := by
  simp [delete]

/-- A change that keeps the key keeps the keys of the table. -/
theorem map_key_modify (hf : ∀ r ∈ rows, key r = k → key (f r) = key r) :
    (modify key k f rows).map key = rows.map key := by
  rw [modify, List.map_map]
  refine List.map_congr_left fun r hr => ?_
  simp only [Function.comp]
  split
  · rename_i h
    exact hf r hr h
  · rfl

/-- Two changes of the same row are one. -/
theorem modify_modify {g : α → α} (hf : ∀ r, key (f r) = key r) (rows : List α) :
    modify key k g (modify key k f rows) = modify key k (fun r => g (f r)) rows := by
  unfold modify
  rw [List.map_map]
  refine List.map_congr_left fun r _ => ?_
  by_cases hk : key r = k
  · simp [hk, hf]
  · simp [hk]

/-- A change finds the row of its key as it was, and changes it. -/
theorem find?_modify_self (hf : ∀ r, key (f r) = key r) :
    (modify key k f rows).find? (key · = k) = (rows.find? (key · = k)).map f := by
  induction rows with
  | nil => rfl
  | cons r rows ih =>
    simp only [modify, List.map_cons] at ih ⊢
    by_cases hk : key r = k
    · simp [hk, hf]
    · simpa [hk] using ih

theorem find?_modify_ne {k' : κ} (hf : ∀ r, key (f r) = key r) (h : k' ≠ k) :
    (modify key k f rows).find? (key · = k') = rows.find? (key · = k') := by
  induction rows with
  | nil => rfl
  | cons r rows ih =>
    simp only [modify, List.map_cons] at ih ⊢
    by_cases hk : key r = k
    · simpa [hk, hf, h.symm] using ih
    · by_cases hk' : key r = k'
      · simp [hk', h]
      · simpa [hk, hk'] using ih

theorem Keyed.modify (h : Keyed key rows) (hf : ∀ r ∈ rows, key r = k → key (f r) = key r) :
    Keyed key (modify key k f rows) := by
  unfold Keyed
  rw [map_key_modify hf]
  exact h

theorem Keyed.delete (h : Keyed key rows) : Keyed key (delete key k rows) :=
  List.Nodup.sublist (List.filter_sublist.map key) h

omit [DecidableEq κ] in
theorem Keyed.append {r : α} (h : Keyed key rows) (hr : ∀ r' ∈ rows, key r' ≠ key r) :
    Keyed key (rows ++ [r]) := by
  unfold Keyed
  rw [List.map_append, List.map_singleton]
  refine List.Nodup.append h (List.nodup_singleton _) ?_
  intro k hk hk'
  rw [List.mem_singleton] at hk'
  obtain ⟨r', hr', rfl⟩ := List.mem_map.mp hk
  exact hr r' hr' hk'

omit [DecidableEq κ] in
/-- Rows with the same key are the same row. -/
theorem Keyed.eq_of_key (h : Keyed key rows) {r r' : α} (hr : r ∈ rows) (hr' : r' ∈ rows)
    (hk : key r = key r') : r = r' :=
  List.inj_on_of_nodup_map h hr hr' hk

/-- Changing the rows of some keys, one key after the other. A change made twice is made once. -/
theorem foldl_modify (hf : ∀ r, key (f r) = key r) (hidem : ∀ r, f (f r) = f r) (keys : List κ)
    (rows : List α) :
    keys.foldl (fun rows k => modify key k f rows) rows =
      rows.map fun r => if key r ∈ keys then f r else r := by
  induction keys generalizing rows with
  | nil => simp
  | cons k keys ih =>
    rw [List.foldl_cons, ih, modify, List.map_map]
    refine List.map_congr_left fun r _ => ?_
    by_cases hk : key r = k
    · by_cases hmem : k ∈ keys <;> simp [hk, hmem, hf, hidem]
    · simp [hk]

omit [DecidableEq κ] in
/-- The keys of the selected rows are those of no other row. -/
theorem Keyed.mem_map_filter (h : Keyed key rows) {p : α → Bool} {r : α} (hr : r ∈ rows) :
    key r ∈ (rows.filter p).map key ↔ p r = true := by
  constructor
  · intro hk
    obtain ⟨r', hr', hkey⟩ := List.mem_map.mp hk
    obtain ⟨hmem, hp⟩ := List.mem_filter.mp hr'
    rwa [← h.eq_of_key hmem hr hkey]
  · exact fun hp => List.mem_map_of_mem (List.mem_filter.mpr ⟨hr, hp⟩)

/-- Deleting the rows of some keys, one list of keys after the other. -/
theorem foldl_filter_not_mem (chunks : List (List κ)) (rows : List α) :
    chunks.foldl (fun rows chunk => rows.filter fun r => key r ∉ chunk) rows =
      rows.filter fun r => key r ∉ chunks.flatten := by
  induction chunks generalizing rows with
  | nil => simp
  | cons chunk chunks ih =>
    rw [List.foldl_cons, ih, List.filter_filter]
    refine List.filter_congr fun r _ => ?_
    simp only [List.flatten_cons, List.mem_append, not_or, Bool.decide_and]
    exact Bool.and_comm _ _

omit [DecidableEq κ] in
/-- Selecting from a table keeps keys unique. -/
theorem Keyed.filterMap {β : Type*} {g : α → Option β} {key' : β → κ} (h : Keyed key rows)
    (hg : ∀ r b, g r = some b → key' b = key r) : ((rows.filterMap g).map key').Nodup := by
  have hsub : ((rows.filterMap g).map key').Sublist (rows.map key) := by
    clear h
    induction rows with
    | nil => exact .slnil
    | cons r rows ih =>
      cases hr : g r with
      | none =>
        rw [List.filterMap_cons_none hr]
        exact ih.cons _
      | some b =>
        rw [List.filterMap_cons_some hr, List.map_cons, List.map_cons, hg r b hr]
        exact ih.cons_cons _
  exact List.Nodup.sublist hsub h

end Voom.Lib.Table
