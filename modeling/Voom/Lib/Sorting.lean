-- SUMMARY: A stable sort and selections of its elements.
import Mathlib.Data.List.Basic

/-!
# Stable sorting

Selecting elements from a sorted list is sorting the selected elements, for
every order in which different elements may be equal: the sort keeps them in
the order it finds them in.
-/

namespace Voom.Lib

variable {α : Type*} {le : α → α → Bool}

/-- Where a list passes from elements without a property to elements with it is
determined. -/
theorem append_inj_of_boundary {q : α → Bool} {l₁ l₂ m₁ m₂ : List α} (h : l₁ ++ l₂ = m₁ ++ m₂)
    (hl₁ : ∀ a ∈ l₁, q a = false) (hl₂ : ∀ a ∈ l₂, q a = true) (hm₁ : ∀ a ∈ m₁, q a = false)
    (hm₂ : ∀ a ∈ m₂, q a = true) : l₁ = m₁ ∧ l₂ = m₂ := by
  have hlength : l₁.length = m₁.length := by
    have hcount := congrArg (List.countP (!q ·)) h
    have hall {l : List α} (hl : ∀ a ∈ l, q a = false) : l.countP (!q ·) = l.length := by
      rw [List.countP_eq_length]
      exact fun a ha => by simp [hl a ha]
    have hnone {l : List α} (hl : ∀ a ∈ l, q a = true) : l.countP (!q ·) = 0 := by
      rw [List.countP_eq_zero]
      exact fun a ha => by simp [hl a ha]
    simpa [List.countP_append, hall hl₁, hall hm₁, hnone hl₂, hnone hm₂] using hcount
  exact List.append_inj h hlength

/-- In a sorted list the elements of a set with all that is below its elements come first. -/
theorem filter_append_filter_of_pairwise {p : α → Bool} {l : List α}
    (hsorted : l.Pairwise fun a b => le a b) (hbelow : ∀ a ∈ l, ∀ b ∈ l, le a b → p b → p a) :
    l.filter p ++ l.filter (!p ·) = l := by
  induction l with
  | nil => rfl
  | cons a l ih =>
    obtain ⟨ha, hsorted⟩ := List.pairwise_cons.mp hsorted
    have hbelow' : ∀ a ∈ l, ∀ b ∈ l, le a b → p b → p a := fun a ha b hb =>
      hbelow a (List.mem_cons_of_mem _ ha) b (List.mem_cons_of_mem _ hb)
    cases hp : p a with
    | true => simpa [hp] using ih hsorted hbelow'
    | false =>
      have hnone : ∀ b ∈ a :: l, p b = false := by
        intro b hb
        obtain rfl | hb := List.mem_cons.mp hb
        · exact hp
        · by_contra hpb
          have := hbelow a List.mem_cons_self b (List.mem_cons_of_mem _ hb) (ha b hb)
            (by simpa using hpb)
          simp [hp] at this
      have hfirst : (a :: l).filter p = [] := by
        rw [List.filter_eq_nil_iff]
        exact fun b hb => by simp [hnone b hb]
      have hrest : (a :: l).filter (!p ·) = a :: l := by
        rw [List.filter_eq_self]
        exact fun b hb => by simp [hnone b hb]
      rw [hfirst, hrest]
      rfl

theorem filter_mergeSort (htrans : ∀ a b c, le a b → le b c → le a c)
    (htotal : ∀ a b, le a b || le b a) (p : α → Bool) (l : List α) :
    (l.mergeSort le).filter p = (l.filter p).mergeSort le := by
  induction l with
  | nil => simp
  | cons a l ih =>
    obtain ⟨l₁, l₂, hcons, hl, hl₁⟩ := List.mergeSort_cons htrans htotal a l
    have hsorted := List.pairwise_mergeSort htrans htotal (a :: l)
    rw [hcons] at hsorted ⊢
    rw [hl, List.filter_append] at ih
    have hl₂ : ∀ b ∈ l₂, le a b := (List.pairwise_cons.mp (List.pairwise_append.mp hsorted).2.1).1
    cases ha : p a with
    | false =>
      have hnot : ¬ p a = true := by simp [ha]
      rw [List.filter_append, List.filter_cons_of_neg hnot, List.filter_cons_of_neg hnot, ih]
    | true =>
      obtain ⟨m₁, m₂, hcons', hm, hm₁⟩ := List.mergeSort_cons htrans htotal a (l.filter p)
      have hsorted' := List.pairwise_mergeSort htrans htotal (a :: l.filter p)
      rw [hcons'] at hsorted'
      have hm₂ : ∀ b ∈ m₂, le a b :=
        (List.pairwise_cons.mp (List.pairwise_append.mp hsorted').2.1).1
      -- Both sides put `a` before the first element it is not above.
      obtain ⟨h₁, h₂⟩ : l₁.filter p = m₁ ∧ l₂.filter p = m₂ := by
        refine append_inj_of_boundary (ih.trans hm) (q := le a) ?_ ?_ ?_ ?_
        · exact fun b hb => by simpa using hl₁ b (List.mem_filter.mp hb).1
        · exact fun b hb => hl₂ b (List.mem_filter.mp hb).1
        · exact fun b hb => by simpa using hm₁ b hb
        · exact hm₂
      rw [List.filter_append, List.filter_cons_of_pos ha, List.filter_cons_of_pos ha, hcons', h₁, h₂]

/-- Each of two elements may stand before the other. -/
def sameRank (le : α → α → Bool) (a b : α) : Bool := le a b && le b a

theorem sameRank_iff {a b : α} : sameRank le a b = true ↔ le a b = true ∧ le b a = true := by
  simp [sameRank]

/-- A sorted list is determined by the elements of each rank, in order. -/
theorem eq_of_pairwise_of_filter (htotal : ∀ a b, le a b || le b a) {xs ys : List α}
    (hxs : xs.Pairwise (le · ·)) (hys : ys.Pairwise (le · ·))
    (h : ∀ a, xs.filter (sameRank le a) = ys.filter (sameRank le a)) : xs = ys := by
  have hrefl : ∀ a, le a a = true := fun a => by simpa using htotal a a
  have hself : ∀ a, sameRank le a a = true := fun a => sameRank_iff.mpr ⟨hrefl a, hrefl a⟩
  have hmem : ∀ a, a ∈ xs ↔ a ∈ ys := by
    intro a
    have := congrArg (a ∈ ·) (h a)
    simpa [List.mem_filter, hself a] using this
  induction xs generalizing ys with
  | nil => exact (List.eq_nil_iff_forall_not_mem.mpr fun a ha => by cases (hmem a).mpr ha).symm
  | cons x xs ih =>
    cases ys with
    | nil => cases (hmem x).mp List.mem_cons_self
    | cons y ys =>
      have hle : ∀ {a b : α} {bs : List α}, (b :: bs).Pairwise (le · ·) → a ∈ b :: bs → le b a := by
        intro a b bs hbs ha
        rcases List.mem_cons.mp ha with rfl | ha
        · exact hrefl a
        · exact (List.pairwise_cons.mp hbs).1 a ha
      -- the first elements are of one rank, of which each list has them first
      have hyx : le y x := hle hys ((hmem x).mp List.mem_cons_self)
      have hxy : le x y := hle hxs ((hmem y).mpr List.mem_cons_self)
      have hrank := h x
      rw [List.filter_cons_of_pos (hself x),
        List.filter_cons_of_pos (sameRank_iff.mpr ⟨hxy, hyx⟩)] at hrank
      obtain ⟨rfl, -⟩ := List.cons.inj hrank
      have hrest : ∀ a, xs.filter (sameRank le a) =
          ys.filter (sameRank le a) := by
        intro a
        have hall := h a
        by_cases hax : sameRank le a x = true
        · rw [List.filter_cons_of_pos hax, List.filter_cons_of_pos hax] at hall
          exact (List.cons.inj hall).2
        · rwa [List.filter_cons_of_neg hax, List.filter_cons_of_neg hax] at hall
      have hmem' : ∀ a, a ∈ xs ↔ a ∈ ys := by
        intro a
        have := congrArg (a ∈ ·) (hrest a)
        simpa [List.mem_filter, hself a] using this
      rw [ih (List.pairwise_cons.mp hxs).2 (List.pairwise_cons.mp hys).2 hrest hmem']

/-- The stable sort is the sorted list with the elements of each rank in the order in which
they are found. -/
theorem eq_mergeSort_iff (htrans : ∀ a b c, le a b → le b c → le a c)
    (htotal : ∀ a b, le a b || le b a) {xs l : List α} :
    xs = l.mergeSort le ↔ xs.Pairwise (le · ·) ∧
      ∀ a, xs.filter (sameRank le a) = l.filter (sameRank le a) := by
  have hrank : ∀ a, (l.mergeSort le).filter (sameRank le a) =
      l.filter (sameRank le a) := by
    intro a
    rw [filter_mergeSort htrans htotal]
    apply List.mergeSort_of_pairwise
    refine List.Pairwise.imp_of_mem (R := fun _ _ => True) (fun {b c} hb hc _ => ?_)
      (List.pairwise_of_forall fun _ _ => trivial)
    have hb := sameRank_iff.mp (List.mem_filter.mp hb).2
    have hc := sameRank_iff.mp (List.mem_filter.mp hc).2
    exact htrans b a c hb.2 hc.1
  constructor
  · rintro rfl
    exact ⟨List.pairwise_mergeSort htrans htotal l, hrank⟩
  · rintro ⟨hsorted, hfilter⟩
    exact eq_of_pairwise_of_filter htotal hsorted
      (List.pairwise_mergeSort htrans htotal l) fun a => (hfilter a).trans (hrank a).symm

/-! ## The first of a sort -/

/-- Of the elements with a property, this one ranks before those in front of it and no later
than those behind it. -/
def FirstAmong (le : α → α → Bool) (p : α → Bool) (l : List α) (a : α) : Prop :=
  ∃ front back, l = front ++ a :: back ∧ p a = true ∧
    (∀ b ∈ front, p b = true → le b a = false) ∧ ∀ b ∈ back, p b = true → le a b = true

namespace FirstAmong

variable {p : α → Bool} {l : List α} {a b : α}

theorem mem (h : FirstAmong le p l a) : a ∈ l ∧ p a = true := by
  obtain ⟨front, back, rfl, ha, -⟩ := h
  exact ⟨List.mem_append_right _ List.mem_cons_self, ha⟩

theorem rank_le (htotal : ∀ a b, le a b || le b a) (h : FirstAmong le p l a) (hb : b ∈ l)
    (hpb : p b = true) : le a b = true := by
  obtain ⟨front, back, rfl, -, hfront, hback⟩ := h
  rcases List.mem_append.mp hb with hb | hb
  · have hle := htotal a b
    rw [hfront b hb hpb, Bool.or_false] at hle
    exact hle
  · rcases List.mem_cons.mp hb with rfl | hb
    · simpa using htotal b b
    · exact hback b hb hpb

/-- The element is the head of what has its rank. -/
theorem find?_rank (htotal : ∀ a b, le a b || le b a) (h : FirstAmong le p l a) :
    l.find? (fun b => p b && le b a) = some a := by
  obtain ⟨front, back, rfl, ha, hfront, -⟩ := h
  have hself : le a a = true := by simpa using htotal a a
  rw [List.find?_append, List.find?_eq_none.mpr, Option.none_or, List.find?_cons_of_pos]
  · simp [ha, hself]
  · intro b hb hand
    obtain ⟨hpb, hle⟩ := Bool.and_eq_true _ _ ▸ hand
    exact absurd (hfront b hb hpb ▸ hle) Bool.false_ne_true

end FirstAmong

theorem FirstAmong.map {β : Type*} {le : β → β → Bool} {p : β → Bool} {f : α → β} {l : List α}
    {a : α} (h : FirstAmong (fun a b => le (f a) (f b)) (fun a => p (f a)) l a) :
    FirstAmong le p (l.map f) (f a) := by
  obtain ⟨front, back, rfl, ha, hfront, hback⟩ := h
  refine ⟨front.map f, back.map f, by simp, ha, ?_, ?_⟩
  · intro _ hmem hpb
    obtain ⟨b, hb, rfl⟩ := List.mem_map.mp hmem
    exact hfront b hb hpb
  · intro _ hmem hpb
    obtain ⟨b, hb, rfl⟩ := List.mem_map.mp hmem
    exact hback b hb hpb

theorem find?_congr_mem {p q : α → Bool} {l : List α} (h : ∀ a ∈ l, p a = q a) :
    l.find? p = l.find? q := by
  rw [← List.head?_filter, ← List.head?_filter, List.filter_congr h]

/-- The first elements of two kinds are one if each is of the other kind. -/
theorem find?_eq_of_find? {p q : α → Bool} {l : List α} {a b : α} (ha : l.find? p = some a)
    (hb : l.find? q = some b) (hpb : p b = true) (hqa : q a = true) : a = b := by
  induction l with
  | nil => cases ha
  | cons x l ih =>
    cases hp : p x with
    | true =>
      rw [List.find?_cons_of_pos hp] at ha
      obtain rfl := Option.some.inj ha
      rw [List.find?_cons_of_pos hqa] at hb
      exact Option.some.inj hb
    | false =>
      rw [List.find?_cons_of_neg (by simp [hp])] at ha
      cases hq : q x with
      | true =>
        rw [List.find?_cons_of_pos hq] at hb
        obtain rfl := Option.some.inj hb
        exact absurd (hp.symm.trans hpb) Bool.false_ne_true
      | false =>
        rw [List.find?_cons_of_neg (by simp [hq])] at hb
        exact ih ha hb

/-- The first of a list with another element in front. -/
theorem firstAmong_cons {p : α → Bool} {x a : α} {l : List α} :
    FirstAmong le p (x :: l) a ↔
      (p x = true ∧ x = a ∧ ∀ b ∈ l, p b = true → le x b = true) ∨
        FirstAmong le p l a ∧ (p x = true → le x a = false) := by
  constructor
  · rintro ⟨front, back, hl, ha, hfront, hback⟩
    rcases List.cons_eq_append_iff.mp hl with ⟨rfl, hl⟩ | ⟨front, rfl, rfl⟩
    · obtain ⟨rfl, rfl⟩ := List.cons.inj hl
      exact .inl ⟨ha, rfl, hback⟩
    · refine .inr ⟨⟨front, back, rfl, ha, fun b hb => hfront b (List.mem_cons_of_mem x hb), hback⟩, ?_⟩
      exact hfront x List.mem_cons_self
  · rintro (⟨hx, rfl, hall⟩ | ⟨⟨front, back, rfl, ha, hfront, hback⟩, hx⟩)
    · exact ⟨[], l, rfl, hx, nofun, hall⟩
    · refine ⟨x :: front, back, rfl, ha, fun b hb => ?_, hback⟩
      rcases List.mem_cons.mp hb with rfl | hb
      · exact hx
      · exact hfront b hb

/-- What a stable sort puts first. -/
theorem find?_mergeSort_eq_some_iff (htrans : ∀ a b c, le a b → le b c → le a c)
    (htotal : ∀ a b, le a b || le b a) {p : α → Bool} {l : List α} {a : α} :
    (l.mergeSort le).find? p = some a ↔ FirstAmong le p l a := by
  induction l with
  | nil =>
    rw [List.mergeSort_nil]
    refine ⟨nofun, fun h => ?_⟩
    cases h.mem.1
  | cons x l ih =>
    obtain ⟨l₁, l₂, hcons, hl, hl₁⟩ := List.mergeSort_cons htrans htotal x l
    have hmem : ∀ b, b ∈ l ↔ b ∈ l₁ ∨ b ∈ l₂ := by
      intro b
      rw [← List.mem_append, ← hl, List.mem_mergeSort]
    have hsorted := List.pairwise_mergeSort htrans htotal (x :: l)
    rw [hcons] at hsorted ⊢
    have hl₂ : ∀ b ∈ l₂, le x b = true :=
      (List.pairwise_cons.mp (List.pairwise_append.mp hsorted).2.1).1
    have hl₁ : ∀ b ∈ l₁, le x b = false := fun b hb => by simpa using hl₁ b hb
    rw [hl, List.find?_append] at ih
    rw [firstAmong_cons, ← ih, List.find?_append]
    cases hfind : l₁.find? p with
    | some c =>
      -- a better element is in front of the new one
      have hc := List.mem_of_find?_eq_some hfind
      have hpc := List.find?_some hfind
      simp only [Option.some_or, Option.some_inj]
      constructor
      · rintro rfl
        exact .inr ⟨rfl, fun _ => hl₁ _ hc⟩
      · rintro (⟨-, rfl, hall⟩ | ⟨rfl, -⟩)
        · exact absurd ((hl₁ c hc).symm.trans (hall c ((hmem c).mpr (.inl hc)) hpc))
            Bool.false_ne_true
        · rfl
    | none =>
      have hnone := List.find?_eq_none.mp hfind
      simp only [Option.none_or]
      cases hx : p x with
      | true =>
        rw [List.find?_cons_of_pos hx, Option.some_inj]
        constructor
        · rintro rfl
          refine .inl ⟨rfl, rfl, fun b hb hpb => ?_⟩
          rcases (hmem b).mp hb with hb | hb
          · exact absurd hpb (hnone b hb)
          · exact hl₂ b hb
        · rintro (⟨-, rfl, -⟩ | ⟨hfound, hxa⟩)
          · rfl
          · exact absurd ((hl₂ a (List.mem_of_find?_eq_some hfound)).symm.trans (hxa rfl)).symm
              Bool.false_ne_true
      | false =>
        have hnot : ¬p x = true := by simp [hx]
        rw [List.find?_cons_of_neg hnot]
        simp

theorem FirstAmong.unique (htrans : ∀ a b c, le a b → le b c → le a c)
    (htotal : ∀ a b, le a b || le b a) {p : α → Bool} {l : List α} {a b : α}
    (ha : FirstAmong le p l a) (hb : FirstAmong le p l b) : a = b := by
  rw [← find?_mergeSort_eq_some_iff htrans htotal] at ha hb
  exact Option.some.inj (ha.symm.trans hb)

end Voom.Lib
