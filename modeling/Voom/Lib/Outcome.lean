-- SUMMARY: When computations that can fail do not: rules for success and postconditions in `Except`.
import Mathlib.Tactic.Common

/-!
# Success

`Succeeds x` forgets the value of a computation, `Yields P x` is a postcondition. The rules below
follow the shape of a program: a step succeeds with what comes after it, a loop with each of its
rounds.
-/

namespace Voom.Lib

variable {ε α β σ : Type}

theorem ok_bind (a : α) (f : α → Except ε β) : (.ok a >>= f) = f a := rfl

theorem map_ok (f : α → β) (a : α) : (Except.ok a : Except ε α).map f = .ok (f a) := rfl

/-- A step and what comes after it both end in a value. -/
theorem bind_eq_ok {x : Except ε α} {f : α → Except ε β} {b : β} :
    x >>= f = .ok b ↔ ∃ a, x = .ok a ∧ f a = .ok b := by
  cases x with
  | error e => simp [bind, Except.bind]
  | ok a => simp [bind, Except.bind]

theorem map_eq_ok {x : Except ε α} {f : α → β} {b : β} :
    x.map f = .ok b ↔ ∃ a, x = .ok a ∧ f a = b := by
  cases x with
  | error e => simp [Except.map]
  | ok a => simp [Except.map]

theorem mapError_eq_ok {ε' : Type} {x : Except ε α} {f : ε → ε'} {a : α} :
    x.mapError f = .ok a ↔ x = .ok a := by
  cases x with
  | error e => simp [Except.mapError]
  | ok b => simp [Except.mapError]

theorem forM_eq_ok {f : α → Except ε Unit} {items : List α} :
    items.forM f = .ok () ↔ ∀ item ∈ items, f item = .ok () := by
  induction items with
  | nil => exact ⟨fun _ => nofun, fun _ => rfl⟩
  | cons first rest ih =>
    rw [List.forall_mem_cons, ← ih]
    apply bind_eq_ok.trans
    constructor
    · rintro ⟨⟨⟩, hfirst, hrest⟩
      exact ⟨hfirst, hrest⟩
    · rintro ⟨hfirst, hrest⟩
      exact ⟨(), hfirst, hrest⟩

/-- A loop ends in a list exactly if its rounds end in the items of the list. -/
theorem mapM_eq_ok {f : α → Except ε β} {items : List α} {results : List β} :
    items.mapM f = .ok results ↔ List.Forall₂ (fun a b => f a = .ok b) items results := by
  induction items generalizing results with
  | nil =>
    constructor
    · intro h
      obtain rfl := Except.ok.inj h
      exact .nil
    · rintro ⟨⟩
      rfl
  | cons first rest ih =>
    rw [List.mapM_cons]
    constructor
    · intro h
      obtain ⟨b, hb, h⟩ := bind_eq_ok.mp h
      obtain ⟨bs, hbs, h⟩ := bind_eq_ok.mp h
      obtain rfl := Except.ok.inj h
      exact .cons hb (ih.mp hbs)
    · rintro (_ | ⟨hb, hbs⟩)
      rw [hb, ok_bind, ih.mpr hbs]
      rfl

/-- Each result of a loop is that of one of its rounds. -/
theorem mem_of_mapM {f : α → Except ε β} {items : List α} {results : List β}
    (h : items.mapM f = .ok results) {result : β} (hresult : result ∈ results) :
    ∃ item ∈ items, f item = .ok result := by
  have hrounds := mapM_eq_ok.mp h
  clear h
  induction hrounds with
  | nil => cases hresult
  | cons hfirst _ ih =>
    rcases List.mem_cons.mp hresult with rfl | hmem
    · exact ⟨_, List.mem_cons_self, hfirst⟩
    · obtain ⟨item, hitem, hf⟩ := ih hmem
      exact ⟨item, List.mem_cons_of_mem _ hitem, hf⟩

/-- A loop keeps the results of its rounds in order. -/
theorem mapM_getElem? {f : α → Except ε β} {items : List α} {results : List β}
    (h : items.mapM f = .ok results) {i : Nat} {item : α} {result : β}
    (hitem : items[i]? = some item) (hresult : results[i]? = some result) :
    f item = .ok result := by
  have hrounds := mapM_eq_ok.mp h
  clear h
  induction hrounds generalizing i with
  | nil => simp at hitem
  | cons hfirst _ ih =>
    cases i with
    | zero =>
      obtain rfl := Option.some.inj hitem
      obtain rfl := Option.some.inj hresult
      exact hfirst
    | succ i => exact ih hitem hresult

/-- A loop whose rounds come to known results. -/
theorem mapM_eq_map {f : α → Except ε β} {g : α → β} {items : List α} {results : List β}
    (h : items.mapM f = .ok results) (hround : ∀ item ∈ items, ∀ b, f item = .ok b → b = g item) :
    results = items.map g := by
  have hrounds := mapM_eq_ok.mp h
  clear h
  induction hrounds with
  | nil => rfl
  | cons hfirst _ ih =>
    rw [List.forall_mem_cons] at hround
    rw [List.map_cons, hround.1 _ hfirst, ih hround.2]

/-- A loop none of whose rounds fails. -/
theorem mapM_eq_ok_map {f : α → Except ε β} {g : α → β} {items : List α}
    (h : ∀ a ∈ items, f a = .ok (g a)) : items.mapM f = .ok (items.map g) := by
  induction items with
  | nil => rfl
  | cons first rest ih =>
    rw [List.forall_mem_cons] at h
    rw [List.mapM_cons, h.1, ih h.2]
    rfl

/-- A loop whose rounds follow those of another loop. -/
theorem mapM_follows {ε' : Type} {f : α → Except ε β} {g : α → Except ε' σ} {k : β → σ}
    {items : List α} {results : List β} (h : items.mapM f = .ok results)
    (hround : ∀ a ∈ items, ∀ b, f a = .ok b → g a = .ok (k b)) :
    items.mapM g = .ok (results.map k) := by
  have hrounds := mapM_eq_ok.mp h
  clear h
  induction hrounds with
  | nil => rfl
  | cons hfirst _ ih =>
    rw [List.forall_mem_cons] at hround
    rw [List.mapM_cons, hround.1 _ hfirst, ih hround.2]
    rfl

/-- The results of some of the rounds of a loop. -/
theorem mapM_filter {f : α → Except ε β} {p : α → Bool} {q : β → Bool} {items : List α}
    {results : List β} (h : items.mapM f = .ok results)
    (hround : ∀ a ∈ items, ∀ b, f a = .ok b → q b = p a) :
    (items.filter p).mapM f = .ok (results.filter q) := by
  have hrounds := mapM_eq_ok.mp h
  clear h
  induction hrounds with
  | nil => rfl
  | cons hfirst _ ih =>
    rw [List.forall_mem_cons] at hround
    rw [List.filter_cons, List.filter_cons, hround.1 _ hfirst]
    split
    · rw [List.mapM_cons, hfirst, ih hround.2]
      rfl
    · exact ih hround.2

theorem mapM_congr_mem {f g : α → Except ε β} {items : List α} (h : ∀ a ∈ items, f a = g a) :
    items.mapM f = items.mapM g := by
  induction items with
  | nil => rfl
  | cons first rest ih =>
    rw [List.forall_mem_cons] at h
    rw [List.mapM_cons, List.mapM_cons, h.1, ih h.2]

/-- A loop whose rounds change their results changes the results of the loop. -/
theorem mapM_map_result {f : α → Except ε β} {g : β → σ} {items : List α} :
    items.mapM (fun a => (f a).map g) = (items.mapM f).map (List.map g) := by
  induction items with
  | nil => rfl
  | cons first rest ih =>
    rw [List.mapM_cons, List.mapM_cons, ih]
    cases f first with
    | error e => rfl
    | ok b =>
      cases rest.mapM f with
      | error e => rfl
      | ok bs => rfl

/-- A loop over the results of a loop, whose rounds take back those of the first. -/
theorem mapM_mapM {f : α → Except ε β} {g : β → Except ε σ} {k : α → σ} {items : List α}
    {results : List β} (hround : ∀ a b, f a = .ok b → g b = .ok (k a))
    (h : items.mapM f = .ok results) : results.mapM g = .ok (items.map k) := by
  have hrounds := mapM_eq_ok.mp h
  clear h
  induction hrounds with
  | nil => rfl
  | cons hfirst _ ih =>
    rw [List.mapM_cons, hround _ _ hfirst, ih]
    rfl

theorem mapM_inverse {f : α → Except ε β} {g : β → Except ε α} {items : List α}
    {results : List β} (hround : ∀ a b, f a = .ok b → g b = .ok a)
    (h : items.mapM f = .ok results) : results.mapM g = .ok items := by
  have hback := mapM_mapM (k := id) hround h
  rwa [List.map_id] at hback

/-- Whatever value the computation ends in, `P` holds of it. -/
def Yields (P : α → Prop) (x : Except ε α) : Prop := ∀ a, x = .ok a → P a

namespace Yields

variable {P : α → Prop} {Q : β → Prop}

/-- What a value is known by, where nothing more is. -/
theorem self (x : Except ε α) : Yields (fun a => x = .ok a) x := fun _ h => h

theorem ok {a : α} (h : P a) : Yields P (.ok a : Except ε α) := by
  rintro _ ⟨⟩
  exact h

theorem pure {a : α} (h : P a) : Yields P (Pure.pure a : Except ε α) := ok h

theorem error (e : ε) : Yields P (.error e : Except ε α) := by
  rintro _ ⟨⟩

/-- A step, and what comes after it for the values that the step can end in. -/
theorem bind {x : Except ε β} {f : β → Except ε α} (hx : Yields Q x)
    (hf : ∀ b, Q b → Yields P (f b)) : Yields P (x >>= f) := by
  intro a h
  obtain ⟨b, hb, h⟩ := bind_eq_ok.mp h
  exact hf b (hx b hb) a h

/-- A step of whose value nothing has to be known. -/
theorem step {x : Except ε β} {f : β → Except ε α} (hf : ∀ b, Yields P (f b)) :
    Yields P (x >>= f) :=
  bind (Q := fun _ => True) (fun _ _ => trivial) fun b _ => hf b

theorem map {x : Except ε β} {f : β → α} (h : Yields (fun b => P (f b)) x) :
    Yields P (x.map f) := by
  intro a ha
  obtain ⟨b, hb, rfl⟩ := map_eq_ok.mp ha
  exact h b hb

theorem mapM {f : σ → Except ε α} {items : List σ} (h : ∀ item, Yields P (f item)) :
    Yields (fun results => ∀ a ∈ results, P a) (items.mapM f) := by
  intro results hresults a ha
  obtain ⟨item, -, hitem⟩ := mem_of_mapM hresults ha
  exact h item a hitem

/-- What every round of a loop keeps. -/
theorem foldlM {f : α → σ → Except ε α} {items : List σ} {start : α} (hstart : P start)
    (h : ∀ a item, P a → Yields P (f a item)) : Yields P (items.foldlM f start) := by
  induction items generalizing start with
  | nil => exact ok hstart
  | cons item rest ih =>
    rw [List.foldlM_cons]
    exact (h start item hstart).bind fun a ha => ih ha

end Yields

/-- The computation ends in a value. -/
def Succeeds (x : Except ε α) : Prop := ∃ a, x = .ok a

namespace Succeeds

@[simp] theorem ok (a : α) : Succeeds (.ok a : Except ε α) := ⟨a, rfl⟩

@[simp] theorem pure (a : α) : Succeeds (Pure.pure a : Except ε α) := ⟨a, rfl⟩

@[simp] theorem not_error (e : ε) : ¬ Succeeds (.error e : Except ε α) := by
  rintro ⟨a, h⟩
  cases h

theorem isOk_iff {x : Except ε α} : x.isOk = true ↔ Succeeds x := by
  cases x with
  | error e => simp [Except.isOk, Except.toBool]
  | ok a => simp [Except.isOk, Except.toBool]

@[simp] theorem map_iff {x : Except ε α} {f : α → β} : Succeeds (x.map f) ↔ Succeeds x := by
  cases x with
  | error e => simp [Except.map]
  | ok a => simp [Except.map]

theorem mapError_iff {ε' : Type} {x : Except ε α} {f : ε → ε'} :
    Succeeds (x.mapError f) ↔ Succeeds x := by
  cases x with
  | error e => simp [Except.mapError]
  | ok a => simp [Except.mapError]

/-- A step whose continuation succeeds for every value, or for none. -/
theorem bind_iff {x : Except ε α} {f : α → Except ε β} {P : Prop}
    (h : ∀ a, Succeeds (f a) ↔ P) : Succeeds (x >>= f) ↔ Succeeds x ∧ P := by
  cases x with
  | error e => simp [bind, Except.bind]
  | ok a => simpa [bind, Except.bind] using h a

theorem bind_pure_iff {x : Except ε α} {f : α → β} :
    Succeeds (x >>= fun a => Pure.pure (f a)) ↔ Succeeds x := by
  rw [bind_iff (fun a => iff_true_intro (pure (f a))), and_true]

theorem mapM_iff {f : α → Except ε β} {items : List α} :
    Succeeds (items.mapM f) ↔ ∀ item ∈ items, Succeeds (f item) := by
  induction items with
  | nil => simp
  | cons item rest ih =>
    rw [List.mapM_cons, bind_iff (fun _ => bind_pure_iff), ih, List.forall_mem_cons]

/-- A fold whose rounds succeed whatever the accumulator is, or fail whatever it is. -/
theorem foldlM_iff {f : σ → α → Except ε σ} {P : α → Prop} {items : List α}
    (h : ∀ item ∈ items, ∀ s, Succeeds (f s item) ↔ P item) {start : σ} :
    Succeeds (items.foldlM f start) ↔ ∀ item ∈ items, P item := by
  induction items generalizing start with
  | nil => simp
  | cons item rest ih =>
    rw [List.forall_mem_cons] at h
    rw [List.foldlM_cons, bind_iff (fun _ => ih h.2), h.1, List.forall_mem_cons]

end Succeeds

end Voom.Lib
