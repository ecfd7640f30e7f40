-- SUMMARY: Following a partial function: trails, the ones that come back, and the ones that end.
import Mathlib.Data.Finset.Card
import Mathlib.Data.List.Chain
import Mathlib.Data.List.Infix
import Mathlib.Data.List.Nodup

/-!
# Trails

A partial function is followed from a start. There is one way to go at most, so of two
trails from the same start one is the beginning of the other: a trail that ends excludes one
that comes back.
-/

namespace Voom.Lib.Trail

variable {α : Type*} (next : α → Option α)

/-- Each place of a trail leads to the one after it. -/
def Leads (a b : α) : Prop := next a = some b

/-- A trail without repetition. -/
structure Fresh (start : α) (trail : List α) : Prop where
  starts : trail.head? = some start
  leads : trail.IsChain (Leads next)
  nodup : trail.Nodup

/-- The trail goes along `before` to `place`, and from there along `rest` back to it; up to
there no place comes twice. -/
structure Closes (start : α) (before : List α) (place : α) (rest : List α) : Prop where
  starts : (before ++ place :: rest).head? = some start
  leads : (before ++ place :: rest ++ [place]).IsChain (Leads next)
  nodup : (before ++ place :: rest).Nodup

variable {next} {start a b : α} {trail before rest : List α}

theorem fresh_singleton (start : α) : Fresh next start [start] :=
  ⟨rfl, List.isChain_singleton start, List.nodup_singleton start⟩

theorem Fresh.extend (h : Fresh next start (trail ++ [a])) (hab : next a = some b)
    (hb : b ∉ trail ++ [a]) : Fresh next start (trail ++ [a] ++ [b]) := by
  refine ⟨?_, ?_, ?_⟩
  · rw [List.head?_append_of_ne_nil _ (by simp)]
    exact h.starts
  · rw [List.append_assoc]
    exact List.isChain_append_cons_cons.mpr ⟨h.leads, hab, List.isChain_singleton b⟩
  · exact List.nodup_append.mpr ⟨h.nodup, List.nodup_singleton b, fun x hx y hy => by
      rintro rfl
      exact hb (List.mem_singleton.mp hy ▸ hx)⟩

/-- A trail whose end leads to a place of the trail closes there. -/
theorem Fresh.closes (h : Fresh next start (before ++ a :: rest))
    (hlast : (before ++ a :: rest).getLast? = some b) (hab : next b = some a) :
    Closes next start before a rest := by
  refine ⟨h.starts, ?_, h.nodup⟩
  obtain ⟨front, hfront⟩ := List.getLast?_eq_some_iff.mp hlast
  have hleads := h.leads
  rw [hfront] at hleads ⊢
  rw [List.append_assoc]
  exact List.isChain_append_cons_cons.mpr ⟨hleads, hab, List.isChain_singleton a⟩

/-- A trail that ends has every trail from its start as a beginning. -/
theorem prefix_of_ends {other : List α} (htrail : (trail ++ [a]).IsChain (Leads next))
    (hend : next a = none) (hother : other.IsChain (Leads next))
    (hstart : other.head? = (trail ++ [a]).head?) : other <+: trail ++ [a] := by
  induction trail generalizing other with
  | nil =>
    match other, hstart with
    | [b], hstart =>
      obtain rfl : b = a := by simpa using hstart
      exact List.prefix_refl _
    | b :: c :: other, hstart =>
      obtain rfl : b = a := by simpa using hstart
      have hlead : next b = some c := (List.isChain_cons_cons.mp hother).1
      rw [hend] at hlead
      cases hlead
  | cons x trail ih =>
    match other, hstart with
    | [b], hstart =>
      obtain rfl : b = x := by simpa using hstart
      exact ⟨trail ++ [a], rfl⟩
    | b :: c :: other, hstart =>
      obtain rfl : b = x := by simpa using hstart
      have hlead : next b = some c := (List.isChain_cons_cons.mp hother).1
      have hrest := (List.isChain_cons_cons.mp hother).2
      rw [List.cons_append] at htrail ⊢
      refine List.prefix_cons_inj b |>.mpr (ih ?_ hrest ?_)
      · exact htrail.tail
      · cases htail : trail ++ [a] with
        | nil => simp at htail
        | cons y tail =>
          rw [htail] at htrail
          have hlead' : next b = some y := (List.isChain_cons_cons.mp htrail).1
          rw [hlead] at hlead'
          exact hlead'

/-- A trail without repetition that ends never comes back. -/
theorem Fresh.not_closes (h : Fresh next start (trail ++ [a])) (hend : next a = none) :
    ¬ Closes next start before b rest := by
  intro hcloses
  have hprefix : before ++ b :: rest ++ [b] <+: trail ++ [a] := by
    apply prefix_of_ends h.leads hend hcloses.leads
    rw [List.head?_append_of_ne_nil _ (by simp), hcloses.starts, h.starts]
  have hnodup := h.nodup.sublist hprefix.sublist
  exact (List.nodup_append.mp hnodup).2.2 b (by simp) b (by simp) rfl

/-- Where only finitely many places lead on, a trail without repetition has at most one place
more. -/
theorem Fresh.length_le {places : Finset α} (h : Fresh next start (trail ++ [a]))
    (hplaces : ∀ x y, next x = some y → x ∈ places) : trail.length ≤ places.card := by
  have hnodup : trail.Nodup := (List.nodup_append.mp h.nodup).1
  have hmem : ∀ x ∈ trail, x ∈ places := by
    intro x hx
    obtain ⟨front, back, rfl⟩ := List.append_of_mem hx
    have hleads := h.leads
    rw [List.append_assoc, List.cons_append] at hleads
    cases hback : back ++ [a] with
    | nil => simp at hback
    | cons y tail =>
      rw [hback] at hleads
      exact hplaces x y (List.isChain_append_cons_cons.mp hleads).2.1
  classical
  have hsub : trail.toFinset ⊆ places := fun x hx => hmem x (List.mem_toFinset.mp hx)
  rw [← List.toFinset_card_of_nodup hnodup]
  exact Finset.card_le_card hsub

end Voom.Lib.Trail
