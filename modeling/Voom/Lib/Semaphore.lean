-- SUMMARY: Semaphores that hand permits on in the order of the queue, and the clients that hold them or wait.
import Mathlib.Data.List.Nodup
import Voom.Lib.Slots

/-!
# Semaphores

A desk has a semaphore for each limited resource. A client asks for a permit of
one resource and gets it, or waits in the queue of the semaphore; a permit that
is given back goes to the client at the front. `Books` says that no permit is
made or lost on the way.
-/

namespace Voom.Lib

structure Semaphore (κ : Type*) where
  limit : Nat
  free : Nat
  waiting : List κ := []

namespace Semaphore

variable {κ : Type*}

def new (limit : Nat) : Semaphore κ := { limit, free := limit }

/-- Ask for a permit: one that is free is taken, else the client waits. -/
def acquire (s : Semaphore κ) (client : κ) : Semaphore κ × Bool :=
  if 0 < s.free then ({ s with free := s.free - 1 }, true)
  else ({ s with waiting := s.waiting ++ [client] }, false)

/-- Give a permit back, with the client that gets it. -/
def release (s : Semaphore κ) : Semaphore κ × Option κ :=
  match s.waiting with
  | [] => ({ s with free := s.free + 1 }, none)
  | client :: rest => ({ s with waiting := rest }, some client)

/-- Stop waiting. -/
def leave [DecidableEq κ] (s : Semaphore κ) (client : κ) : Semaphore κ :=
  { s with waiting := s.waiting.erase client }

end Semaphore

/-- What a client has to do with the semaphores. -/
inductive Stance (ρ : Type*) where
  | out
  | waits (resource : ρ)
  | holds (resource : ρ)
  deriving DecidableEq

namespace Stance

variable {ρ : Type*} [DecidableEq ρ]

def holding (resource : ρ) (stance : Stance ρ) : Bool := stance = .holds resource

def resource? : Stance ρ → Option ρ
  | .out => none
  | .waits resource | .holds resource => some resource

@[simp] theorem holding_out (r : ρ) : holding r .out = false := rfl

@[simp] theorem holding_waits (r r' : ρ) : holding r (.waits r') = false := rfl

@[simp] theorem holding_holds (r r' : ρ) : holding r (.holds r') = decide (r' = r) := by
  simp [holding]

end Stance

/-- Semaphores by resource, and the stance of each client. -/
structure Desk (ρ : Type*) where
  semaphores : ρ → Option (Semaphore Nat)
  stances : List (Stance ρ)

namespace Desk

variable {ρ : Type*} [DecidableEq ρ]

def put (d : Desk ρ) (resource : ρ) (s : Semaphore Nat) (client : Nat) (stance : Stance ρ) :
    Desk ρ :=
  { semaphores := Function.update d.semaphores resource (some s)
    stances := d.stances.set client stance }

/-- A client asks for a permit; without a semaphore it needs none. -/
def ask (d : Desk ρ) (client : Nat) (resource : ρ) : Desk ρ :=
  match d.semaphores resource with
  | none => d
  | some s =>
    match s.acquire client with
    | (s, true) => d.put resource s client (.holds resource)
    | (s, false) => d.put resource s client (.waits resource)

/-- A client gives its permit back, and the next one gets it. -/
def giveBack (d : Desk ρ) (client : Nat) (resource : ρ) : Desk ρ :=
  match d.semaphores resource with
  | none => d
  | some s =>
    match s.release with
    | (s, none) => d.put resource s client .out
    | (s, some next) =>
      { semaphores := Function.update d.semaphores resource (some s)
        stances := (d.stances.set client .out).set next (.holds resource) }

/-- A client no longer waits. -/
def leave (d : Desk ρ) (client : Nat) (resource : ρ) : Desk ρ :=
  match d.semaphores resource with
  | none => d
  | some s => d.put resource (s.leave client) client .out

section Equations

variable {d : Desk ρ} {client next : Nat} {resource : ρ} {s : Semaphore Nat} {rest : List Nat}

theorem ask_of_none (hs : d.semaphores resource = none) : d.ask client resource = d := by
  simp only [ask, hs]

theorem ask_of_free (hs : d.semaphores resource = some s) (hfree : 0 < s.free) :
    d.ask client resource =
      d.put resource { s with free := s.free - 1 } client (.holds resource) := by
  simp only [ask, hs, Semaphore.acquire, if_pos hfree]

theorem ask_of_busy (hs : d.semaphores resource = some s) (hfree : s.free = 0) :
    d.ask client resource =
      d.put resource { s with waiting := s.waiting ++ [client] } client (.waits resource) := by
  simp only [ask, hs, Semaphore.acquire, hfree, Nat.lt_irrefl, if_false]

theorem giveBack_of_none (hs : d.semaphores resource = none) :
    d.giveBack client resource = d := by
  simp only [giveBack, hs]

theorem giveBack_of_nil (hs : d.semaphores resource = some s) (hqueue : s.waiting = []) :
    d.giveBack client resource =
      d.put resource { s with free := s.free + 1 } client .out := by
  simp only [giveBack, hs, Semaphore.release, hqueue]

theorem giveBack_of_cons (hs : d.semaphores resource = some s)
    (hqueue : s.waiting = next :: rest) :
    d.giveBack client resource =
      { semaphores := Function.update d.semaphores resource (some { s with waiting := rest })
        stances := (d.stances.set client .out).set next (.holds resource) } := by
  simp only [giveBack, hs, Semaphore.release, hqueue]

theorem leave_of_some (hs : d.semaphores resource = some s) :
    d.leave client resource = d.put resource (s.leave client) client .out := by
  simp only [leave, hs]

end Equations

/-! ## The books -/

/-- The books of one semaphore: who holds its permits, and who waits. -/
structure Balanced (stances : List (Stance ρ)) (resource : ρ) (s : Semaphore Nat) : Prop where
  permits : stances.countP (Stance.holding resource) + s.free = s.limit
  /-- Nobody waits for a permit that is free. -/
  busy : s.waiting ≠ [] → s.free = 0
  nodup : s.waiting.Nodup
  queued : ∀ client, client ∈ s.waiting ↔ stances[client]? = some (.waits resource)

structure Books (d : Desk ρ) : Prop where
  balanced : ∀ resource s, d.semaphores resource = some s → Balanced d.stances resource s
  known : ∀ stance ∈ d.stances, ∀ resource, stance.resource? = some resource →
    (d.semaphores resource).isSome = true

/-- The limits of the semaphores. -/
def limits (d : Desk ρ) (resource : ρ) : Option Nat := (d.semaphores resource).map (·.limit)

variable {d : Desk ρ} {client : Nat} {resource : ρ}

/-- A client that changes its stance changes the count of the holders by its own permits. -/
theorem holders_set {stances : List (Stance ρ)} {old : Stance ρ}
    (hold : stances[client]? = some old) (new : Stance ρ) (r : ρ) :
    (stances.set client new).countP (Stance.holding r) + (if Stance.holding r old then 1 else 0) =
      stances.countP (Stance.holding r) + (if Stance.holding r new then 1 else 0) :=
  Slots.countP_set_add hold

/-- A client that has nothing to do with a semaphore may change its stance otherwise. -/
theorem Balanced.set_of_ne {stances : List (Stance ρ)} {r : ρ} {s : Semaphore Nat}
    (h : Balanced stances r s) {old new : Stance ρ} (hold : stances[client]? = some old)
    (hr : old.resource? ≠ some r) (hr' : new.resource? ≠ some r) :
    Balanced (stances.set client new) r s := by
  have hcount := holders_set hold new r
  have hout {stance : Stance ρ} (hne : stance.resource? ≠ some r) :
      Stance.holding r stance = false := by
    cases stance with
    | out | waits r' => rfl
    | holds r' =>
      rw [Stance.holding_holds, decide_eq_false_iff_not]
      rintro rfl
      exact hne rfl
  rw [hout hr, hout hr'] at hcount
  refine ⟨?_, h.busy, h.nodup, fun c => ?_⟩
  · have := h.permits
    simp only [Bool.false_eq_true, if_false] at hcount
    omega
  · rw [h.queued c, List.getElem?_set]
    by_cases hc : client = c
    · subst hc
      obtain ⟨hlt, -⟩ := List.getElem?_eq_some_iff.mp hold
      rw [if_pos rfl, if_pos hlt, hold]
      constructor
      · rintro ⟨⟩
        exact absurd rfl hr
      · rintro ⟨⟩
        exact absurd rfl hr'
    · rw [if_neg hc]

/-- Changes at one semaphore leave the books of the others as they were. -/
theorem Books.put {s : Semaphore Nat} {old new : Stance ρ} (h : Books d)
    (hold : d.stances[client]? = some old)
    (hr : ∀ r, old.resource? = some r → r = resource)
    (hr' : ∀ r, new.resource? = some r → r = resource)
    (hbalanced : Balanced (d.stances.set client new) resource s) :
    Books (d.put resource s client new) := by
  constructor
  · intro r s' hs'
    by_cases hne : r = resource
    · subst hne
      obtain rfl : s = s' := by simpa [Desk.put] using hs'
      exact hbalanced
    · have hs' : d.semaphores r = some s' := by simpa [Desk.put, hne] using hs'
      exact (h.balanced r s' hs').set_of_ne hold (fun h => hne (hr r h)) (fun h => hne (hr' r h))
  · intro stance hmem r hstance
    by_cases hne : r = resource
    · simp [Desk.put, hne]
    · simp only [Desk.put, Function.update_of_ne hne]
      obtain hmem | rfl := List.mem_or_eq_of_mem_set hmem
      · exact h.known stance hmem r hstance
      · exact absurd (hr' r hstance) hne

theorem ask_books (h : Books d) (hout : d.stances[client]? = some .out) (resource : ρ) :
    Books (d.ask client resource) := by
  cases hs : d.semaphores resource with
  | none => rwa [ask_of_none hs]
  | some s =>
    have hb := h.balanced resource s hs
    obtain ⟨hlt, -⟩ := List.getElem?_eq_some_iff.mp hout
    have hcount (new : Stance ρ) := holders_set hout new resource
    have hpermits := hb.permits
    have hnot : client ∉ s.waiting := fun hmem => by
      have := (hb.queued client).mp hmem
      rw [hout] at this
      cases this
    by_cases hfree : 0 < s.free
    · have hempty : s.waiting = [] := by
        by_contra hne
        have := hb.busy hne
        omega
      rw [ask_of_free hs hfree]
      refine h.put hout (fun r hr => nomatch hr) (fun r hr => (Option.some.inj hr).symm)
        ⟨?_, fun hne => absurd hempty hne, hb.nodup, fun c => ?_⟩
      · have := hcount (.holds resource)
        simp only [Stance.holding_out, Stance.holding_holds, decide_true, Bool.false_eq_true,
          if_false, if_true] at this ⊢
        omega
      · rw [hb.queued c, List.getElem?_set]
        by_cases hc : client = c
        · subst hc
          rw [if_pos rfl, if_pos hlt, hout]
          simp
        · rw [if_neg hc]
    · have hfree : s.free = 0 := by omega
      rw [ask_of_busy hs hfree]
      refine h.put hout (fun r hr => nomatch hr) (fun r hr => (Option.some.inj hr).symm)
        ⟨?_, fun _ => hfree, ?_, fun c => ?_⟩
      · have := hcount (.waits resource)
        simp only [Stance.holding_out, Stance.holding_waits, Bool.false_eq_true, if_false] at this ⊢
        omega
      · exact List.nodup_append.mpr ⟨hb.nodup, List.nodup_singleton _, by
          rintro a ha b hb rfl
          rw [List.mem_singleton] at hb
          exact hnot (hb ▸ ha)⟩
      · rw [List.mem_append, List.mem_singleton, hb.queued c, List.getElem?_set]
        by_cases hc : client = c
        · subst hc
          rw [if_pos rfl, if_pos hlt]
          simp
        · rw [if_neg hc]
          simp [Ne.symm hc]

theorem leave_books (h : Books d) (hwaits : d.stances[client]? = some (.waits resource)) :
    Books (d.leave client resource) := by
  cases hs : d.semaphores resource with
  | none => simpa only [leave, hs] using h
  | some s =>
    rw [leave_of_some hs]
    have hb := h.balanced resource s hs
    obtain ⟨hlt, -⟩ := List.getElem?_eq_some_iff.mp hwaits
    have hcount := holders_set hwaits .out resource
    have hpermits := hb.permits
    refine h.put hwaits (fun r hr => (Option.some.inj hr).symm) (fun r hr => nomatch hr)
      ⟨?_, fun hne => hb.busy fun hnil => hne ?_, hb.nodup.erase _, fun c => ?_⟩
    · simp only [Stance.holding_out, Stance.holding_waits, Bool.false_eq_true, if_false] at hcount
      simp only [Semaphore.leave]
      omega
    · simp [Semaphore.leave, hnil]
    · simp only [Semaphore.leave]
      rw [hb.nodup.mem_erase_iff, hb.queued c, List.getElem?_set]
      by_cases hc : client = c
      · subst hc
        rw [if_pos rfl, if_pos hlt]
        simp
      · rw [if_neg hc]
        simp [Ne.symm hc]

theorem giveBack_books (h : Books d) (hholds : d.stances[client]? = some (.holds resource)) :
    Books (d.giveBack client resource) := by
  cases hs : d.semaphores resource with
  | none => rwa [giveBack_of_none hs]
  | some s =>
    have hb := h.balanced resource s hs
    obtain ⟨hlt, -⟩ := List.getElem?_eq_some_iff.mp hholds
    have hcount := holders_set hholds .out resource
    simp only [Stance.holding_out, Stance.holding_holds, decide_true, Bool.false_eq_true,
      if_false, if_true] at hcount
    have hpermits := hb.permits
    cases hqueue : s.waiting with
    | nil =>
      rw [giveBack_of_nil hs hqueue]
      refine h.put hholds (fun r hr => (Option.some.inj hr).symm) (fun r hr => nomatch hr)
        ⟨?_, fun hne => absurd hqueue hne, hb.nodup, fun c => ?_⟩
      · simp only
        omega
      · rw [hb.queued c, List.getElem?_set]
        by_cases hc : client = c
        · subst hc
          rw [if_pos rfl, if_pos hlt, hholds]
          simp
        · rw [if_neg hc]
    | cons next rest =>
      -- the permit moves from the client to the next one
      rw [giveBack_of_cons hs hqueue]
      have hnext : d.stances[next]? = some (.waits resource) :=
        (hb.queued next).mp (hqueue ▸ List.mem_cons_self)
      have hne : next ≠ client := by
        rintro rfl
        rw [hholds] at hnext
        cases hnext
      have hnext' : (d.stances.set client .out)[next]? = some (.waits resource) := by
        rw [List.getElem?_set_ne hne.symm, hnext]
      obtain ⟨hlt', -⟩ := List.getElem?_eq_some_iff.mp hnext'
      have hcount' := holders_set hnext' (.holds resource) resource
      simp only [Stance.holding_waits, Stance.holding_holds, decide_true, Bool.false_eq_true,
        if_false, if_true] at hcount'
      have hnodup := hb.nodup
      rw [hqueue, List.nodup_cons] at hnodup
      constructor
      · intro r s' hs'
        by_cases hr : r = resource
        · subst hr
          obtain rfl : ({ s with waiting := rest } : Semaphore Nat) = s' := by simpa using hs'
          refine ⟨?_, fun _ => hb.busy (by simp [hqueue]), hnodup.2, fun c => ?_⟩
          · simp only
            omega
          · have hqueued := hb.queued c
            rw [hqueue, List.mem_cons] at hqueued
            simp only [List.getElem?_set]
            by_cases hc : next = c
            · subst hc
              simp only [List.length_set] at hlt'
              simp [hnodup.1, hlt']
            · rw [if_neg hc]
              by_cases hc' : client = c
              · subst hc'
                have hnot : client ∉ rest := fun hmem => by
                  have := hqueued.mp (.inr hmem)
                  rw [hholds] at this
                  cases this
                simp [hlt, hnot]
              · rw [if_neg hc', ← hqueued]
                simp [Ne.symm hc]
        · have hs' : d.semaphores r = some s' := by simpa [hr] using hs'
          have hother : some resource ≠ some r := fun h => hr (Option.some.inj h).symm
          have hout : (Stance.out : Stance ρ).resource? ≠ some r := by simp [Stance.resource?]
          exact ((h.balanced r s' hs').set_of_ne hholds hother hout).set_of_ne hnext' hother hother
      · intro stance hmem r hstance
        by_cases hr : r = resource
        · simp [hr]
        · simp only [Function.update_of_ne hr]
          obtain hmem | rfl := List.mem_or_eq_of_mem_set hmem
          · obtain hmem | rfl := List.mem_or_eq_of_mem_set hmem
            · exact h.known stance hmem r hstance
            · cases hstance
          · exact absurd (Option.some.inj hstance).symm hr

/-! ## The others -/

/-- Another client keeps its stance, or is granted what it waits for. -/
def OthersKeep (d d' : Desk ρ) (client : Nat) : Prop :=
  ∀ other, other ≠ client → d'.stances[other]? = d.stances[other]? ∨
    ∃ r, d.stances[other]? = some (Stance.waits r) ∧ d'.stances[other]? = some (Stance.holds r)

theorem othersKeep_put (d : Desk ρ) (r : ρ) (s : Semaphore Nat) (client : Nat)
    (stance : Stance ρ) : OthersKeep d (d.put r s client stance) client :=
  fun _ hne => .inl (List.getElem?_set_ne hne.symm)

/-- Who asks for a permit has it or waits, and needs none without a semaphore. -/
theorem ask_self (hout : d.stances[client]? = some .out) (resource : ρ) :
    ((d.ask client resource).stances[client]? = some (.waits resource) ∨
      (d.ask client resource).stances[client]? = some (.holds resource) ∨
        d.semaphores resource = none) ∧
      OthersKeep d (d.ask client resource) client ∧
      (d.ask client resource).stances.length = d.stances.length := by
  obtain ⟨hlt, -⟩ := List.getElem?_eq_some_iff.mp hout
  cases hs : d.semaphores resource with
  | none =>
    rw [ask_of_none hs]
    exact ⟨.inr (.inr rfl), fun _ _ => .inl rfl, rfl⟩
  | some s =>
    by_cases hfree : 0 < s.free
    · rw [ask_of_free hs hfree]
      exact ⟨.inr (.inl (List.getElem?_set_self hlt)), othersKeep_put _ _ _ _ _, List.length_set ..⟩
    · rw [ask_of_busy hs (by omega)]
      exact ⟨.inl (List.getElem?_set_self hlt), othersKeep_put _ _ _ _ _, List.length_set ..⟩

theorem leave_self (h : Books d) (hwaits : d.stances[client]? = some (.waits resource)) :
    (d.leave client resource).stances[client]? = some .out ∧
      OthersKeep d (d.leave client resource) client ∧
      (d.leave client resource).stances.length = d.stances.length := by
  obtain ⟨hlt, -⟩ := List.getElem?_eq_some_iff.mp hwaits
  obtain ⟨s, hs⟩ := Option.isSome_iff_exists.mp
    (h.known _ (List.mem_of_getElem? hwaits) resource rfl)
  rw [leave_of_some hs]
  exact ⟨List.getElem?_set_self hlt, othersKeep_put _ _ _ _ _, List.length_set ..⟩

theorem giveBack_self (h : Books d) (hholds : d.stances[client]? = some (.holds resource)) :
    (d.giveBack client resource).stances[client]? = some .out ∧
      OthersKeep d (d.giveBack client resource) client ∧
      (d.giveBack client resource).stances.length = d.stances.length := by
  obtain ⟨hlt, -⟩ := List.getElem?_eq_some_iff.mp hholds
  obtain ⟨s, hs⟩ := Option.isSome_iff_exists.mp
    (h.known _ (List.mem_of_getElem? hholds) resource rfl)
  cases hqueue : s.waiting with
  | nil =>
    rw [giveBack_of_nil hs hqueue]
    exact ⟨List.getElem?_set_self hlt, othersKeep_put _ _ _ _ _, List.length_set ..⟩
  | cons next rest =>
    have hnext : d.stances[next]? = some (.waits resource) :=
      ((h.balanced resource s hs).queued next).mp (hqueue ▸ List.mem_cons_self)
    have hne : next ≠ client := by
      rintro rfl
      rw [hholds] at hnext
      cases hnext
    obtain ⟨hlt', -⟩ := List.getElem?_eq_some_iff.mp hnext
    rw [giveBack_of_cons hs hqueue]
    refine ⟨?_, fun other hother => ?_, by simp⟩
    · rw [List.getElem?_set_ne hne, List.getElem?_set_self hlt]
    · by_cases hnew : next = other
      · subst hnew
        exact .inr ⟨resource, hnext, List.getElem?_set_self (by simpa using hlt')⟩
      · rw [List.getElem?_set_ne hnew, List.getElem?_set_ne hother.symm]
        exact .inl rfl

/-! ## Limits and queues -/

theorem limits_put {s s' : Semaphore Nat} (hs : d.semaphores resource = some s)
    (hlimit : s'.limit = s.limit) (stance : Stance ρ) :
    (d.put resource s' client stance).limits = d.limits := by
  funext r
  by_cases hr : r = resource
  · simp [limits, Desk.put, hr, hs, hlimit]
  · simp [limits, Desk.put, hr]

theorem limits_ask : (d.ask client resource).limits = d.limits := by
  cases hs : d.semaphores resource with
  | none => rw [ask_of_none hs]
  | some s =>
    by_cases hfree : 0 < s.free
    · rw [ask_of_free hs hfree]
      exact limits_put hs (by rfl) _
    · rw [ask_of_busy hs (by omega)]
      exact limits_put hs (by rfl) _

theorem limits_leave : (d.leave client resource).limits = d.limits := by
  cases hs : d.semaphores resource with
  | none => simp only [leave, hs]
  | some s =>
    rw [leave_of_some hs]
    exact limits_put hs (by rfl) _

theorem limits_giveBack : (d.giveBack client resource).limits = d.limits := by
  cases hs : d.semaphores resource with
  | none => rw [giveBack_of_none hs]
  | some s =>
    cases hqueue : s.waiting with
    | nil =>
      rw [giveBack_of_nil hs hqueue]
      exact limits_put hs (by rfl) _
    | cons next rest =>
      rw [giveBack_of_cons hs hqueue]
      funext r
      by_cases hr : r = resource
      · simp [limits, hr, hs]
      · simp [limits, hr]

/-- No more permits are out than there are. -/
theorem Books.holders_le (h : Books d) {limit : Nat} (hlimit : d.limits resource = some limit) :
    d.stances.countP (Stance.holding resource) ≤ limit := by
  obtain ⟨s, hs, rfl⟩ := Option.map_eq_some_iff.mp hlimit
  have := (h.balanced resource s hs).permits
  omega

/-- Who waits for a permit of a positive limit waits for another client. -/
theorem Books.holder_of_waits (h : Books d)
    (hwaits : d.stances[client]? = some (.waits resource))
    (hpositive : ∀ limit, d.limits resource = some limit → 0 < limit) :
    ∃ other : Nat, d.stances[other]? = some (Stance.holds resource) := by
  obtain ⟨s, hs⟩ := Option.isSome_iff_exists.mp (h.known _ (List.mem_of_getElem? hwaits) resource rfl)
  have hb := h.balanced resource s hs
  have hfree := hb.busy (List.ne_nil_of_mem ((hb.queued client).mpr hwaits))
  have hlimit := hpositive s.limit (by simp [limits, hs])
  have hpermits := hb.permits
  have hpos : 0 < d.stances.countP (Stance.holding resource) := by omega
  obtain ⟨stance, hmem, hholding⟩ := List.countP_pos_iff.mp hpos
  obtain ⟨other, hother⟩ := List.mem_iff_getElem?.mp hmem
  exact ⟨other, hother.trans (congrArg some (of_decide_eq_true hholding))⟩

end Desk

end Voom.Lib
