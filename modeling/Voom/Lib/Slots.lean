-- SUMMARY: Lists of slots that change one at a time: counting the slots with a property.
import Mathlib.Algebra.GroupWithZero.Nat
import Mathlib.Data.List.Basic
import Mathlib.Data.List.Perm.Subperm

/-!
# Slots

The state of several processes is a list with a slot for each. A step replaces
one slot; what many slots share, such as which of them holds a resource, is a
count of the slots with a property.
-/

namespace Voom.Lib.Slots

variable {α : Type*} {slots : List α} {i : Nat} {old new : α} {p : α → Bool}

/-- A replacement changes the count by what it puts in and what it takes out. -/
theorem countP_set_add (h : slots[i]? = some old) :
    (slots.set i new).countP p + (if p old then 1 else 0) =
      slots.countP p + (if p new then 1 else 0) := by
  obtain ⟨hi, hold⟩ := List.getElem?_eq_some_iff.mp h
  rw [List.countP_set hi, hold]
  split
  · rename_i hp
    have hpos : 0 < slots.countP p :=
      List.countP_pos_iff.mpr ⟨old, List.mem_of_getElem? h, hp⟩
    omega
  · omega

/-- At most one slot has a property that is counted at most once. -/
theorem eq_of_countP_le_one (h : slots.countP p ≤ 1) {a b : α} (ha : a ∈ slots) (hb : b ∈ slots)
    (hpa : p a = true) (hpb : p b = true) : a = b := by
  rw [List.countP_eq_length_filter] at h
  have ha' : a ∈ slots.filter p := List.mem_filter.mpr ⟨ha, hpa⟩
  have hb' : b ∈ slots.filter p := List.mem_filter.mpr ⟨hb, hpb⟩
  match hfilter : slots.filter p with
  | [] =>
    rw [hfilter] at ha'
    cases ha'
  | [c] =>
    rw [hfilter] at ha' hb'
    rw [List.mem_singleton.mp ha', List.mem_singleton.mp hb']
  | c :: d :: rest =>
    rw [hfilter] at h
    simp at h

/-- The slots with a property are counted against those of another list. -/
theorem countP_le_of_getElem? {β : Type*} {l : List α} {m : List β} {q : β → Bool}
    (hlength : l.length = m.length)
    (h : ∀ (i : Nat) (a : α) (b : β), l[i]? = some a → m[i]? = some b → p a = true → q b = true) :
    l.countP p ≤ m.countP q := by
  induction l generalizing m with
  | nil => simp
  | cons a l ih =>
    cases m with
    | nil => cases hlength
    | cons b m =>
      have hle := ih (Nat.succ.inj hlength) fun i => h (i + 1)
      have hhead := h 0 a b rfl rfl
      rw [List.countP_cons, List.countP_cons]
      by_cases hp : p a = true
      · rw [if_pos hp, if_pos (hhead hp)]
        omega
      · rw [if_neg hp]
        omega

/-- The slots with a property are no more than those of another list that answer for them. -/
theorem countP_le_of_cover {β : Type*} {l : List α} {m : List β} {q : β → Bool} {f : β → Nat}
    (h : ∀ (i : Nat) (a : α), l[i]? = some a → p a = true → ∃ b ∈ m, q b = true ∧ f b = i) :
    l.countP p ≤ m.countP q := by
  have hindices : l.countP p = ((List.range l.length).filter fun i => l[i]?.any p).length := by
    have hslots : l.map some = (List.range l.length).map (l[·]?) := by
      refine List.ext_getElem (by simp) fun i hi _ => ?_
      rw [List.length_map] at hi
      simp [hi]
    have hcount : l.countP p = (l.map some).countP (·.any p) := by
      rw [List.countP_map]
      exact List.countP_congr fun a _ => Iff.rfl
    rw [hcount, hslots, List.countP_map, List.countP_eq_length_filter]
    rfl
  have hsubset : ((List.range l.length).filter fun i => l[i]?.any p) ⊆ (m.filter q).map f := by
    intro i hi
    obtain ⟨a, ha, hpa⟩ := (Option.any_eq_true _ _).mp (List.mem_filter.mp hi).2
    obtain ⟨b, hb, hq, hf⟩ := h i a ha hpa
    exact List.mem_map.mpr ⟨b, List.mem_filter.mpr ⟨hb, hq⟩, hf⟩
  rw [hindices, List.countP_eq_length_filter, ← List.length_map (f := f)]
  exact (List.Nodup.subperm (List.nodup_range.filter _) hsubset).length_le

/-- A replacement changes a sum over the slots by what it puts in and what it takes out. -/
theorem sum_map_set_add {f : α → Nat} (h : slots[i]? = some old) :
    ((slots.set i new).map f).sum + f old = (slots.map f).sum + f new := by
  induction slots generalizing i with
  | nil => cases h
  | cons a slots ih =>
    cases i with
    | zero =>
      obtain rfl := Option.some.inj h
      simp only [List.set_cons_zero, List.map_cons, List.sum_cons]
      omega
    | succ i =>
      have := ih h
      simp only [List.set_cons_succ, List.map_cons, List.sum_cons]
      omega

/-- What a replacement does not take out stays. -/
theorem mem_set_of_ne (h : slots[i]? = some old) {a : α} (ha : a ∈ slots) (hne : a ≠ old) :
    a ∈ slots.set i new := by
  obtain ⟨j, hj⟩ := List.mem_iff_getElem?.mp ha
  have hij : i ≠ j := by
    rintro rfl
    rw [h] at hj
    exact hne (Option.some.inj hj).symm
  refine List.mem_of_getElem? (i := j) ?_
  rw [List.getElem?_set_ne hij, hj]

theorem mem_set_self (h : slots[i]? = some old) : new ∈ slots.set i new := by
  obtain ⟨hi, -⟩ := List.getElem?_eq_some_iff.mp h
  exact List.mem_set hi new

end Voom.Lib.Slots
