-- SUMMARY: The gates of the scanned roots, and the buffer that holds work items until their root is walked.
import Mathlib.Data.List.Count
import Voom.Domain.Path

/-!
# Root gates

Every scanned root has a gate that opens when its walk is complete. Work items of
a root whose gate is closed wait in a holding buffer, in the order they came.
-/

namespace Voom.Process

/-! ## The root of a path -/

/-- `max_by_key` on the number of components, which keeps the last of several maxima. -/
def longerRoot (best : Option Path) (root : Path) : Option Path :=
  match best with
  | none => some root
  | some b => if b.components.length ≤ root.components.length then some root else some b

/-- The configured root with the longest prefix of the path. -/
def rootForPath (roots : List Path) (path : Path) : Option Path :=
  (roots.filter fun r => path.startsWith r).foldl longerRoot none

/-! ## Gates -/

/-- The gate of each root, `true` when open. -/
structure RootGate where
  entries : List (Path × Bool)
  deriving DecidableEq, Repr

namespace RootGate

def new (roots : List Path) : RootGate := ⟨roots.map fun r => (r, false)⟩

/-- `open`: a root without a gate is ignored. -/
def openRoot (g : RootGate) (root : Path) : RootGate :=
  ⟨g.entries.map fun e => if e.1 = root then (e.1, true) else e⟩

def isOpen (g : RootGate) (root : Path) : Bool := g.entries.any fun e => e.1 = root && e.2

theorem isOpen_iff {g : RootGate} {root : Path} : g.isOpen root = true ↔ (root, true) ∈ g.entries := by
  simp only [isOpen, List.any_eq_true, Bool.and_eq_true, decide_eq_true_eq]
  constructor
  · rintro ⟨⟨r, b⟩, he, rfl, rfl⟩
    exact he
  · intro h
    exact ⟨_, h, rfl, rfl⟩

@[simp] theorem isOpen_new (roots : List Path) (root : Path) : (new roots).isOpen root = false := by
  simp [new, isOpen]

/-- Only the root that is opened becomes open. -/
theorem isOpen_openRoot {g : RootGate} {root r : Path} (h : (g.openRoot root).isOpen r = true) :
    r = root ∨ g.isOpen r = true := by
  simp only [isOpen_iff, openRoot, List.mem_map] at h ⊢
  obtain ⟨e, he, heq⟩ := h
  split at heq
  · rename_i hroot
    cases heq
    exact .inl hroot
  · cases heq
    exact .inr he

end RootGate

/-! ## The holding buffer -/

/-- Items by root, in the order they were pushed. -/
abbrev HoldingBuffer (α : Type*) := List (Path × α)

namespace HoldingBuffer

variable {α : Type*}

def push (b : HoldingBuffer α) (root : Path) (item : α) : HoldingBuffer α := b ++ [(root, item)]

/-- The items of a root, and the buffer without them. -/
def drainRoot (b : HoldingBuffer α) (root : Path) : List α × HoldingBuffer α :=
  ((b.filter fun e => e.1 = root).map Prod.snd, b.filter fun e => e.1 ≠ root)

def drainAll (b : HoldingBuffer α) : List α := b.map Prod.snd

theorem mem_drainRoot_fst {b : HoldingBuffer α} {root : Path} {item : α} :
    item ∈ (b.drainRoot root).1 ↔ (root, item) ∈ b := by
  simp [drainRoot]

theorem mem_drainRoot_snd {b : HoldingBuffer α} {root : Path} {e : Path × α} :
    e ∈ (b.drainRoot root).2 ↔ e ∈ b ∧ e.1 ≠ root := by
  simp [drainRoot]

/-- Draining a root moves its items and keeps the others. -/
theorem countP_drainRoot (b : HoldingBuffer α) (root : Path) (p : α → Bool) :
    (b.drainRoot root).1.countP p + (b.drainRoot root).2.drainAll.countP p =
      b.drainAll.countP p := by
  induction b with
  | nil => rfl
  | cons e b ih =>
    simp only [drainRoot, drainAll] at ih ⊢
    by_cases h : e.1 = root
    · simp [h, List.countP_cons]
      simp at ih
      omega
    · simp [h, List.countP_cons]
      simp at ih
      omega

theorem length_drainRoot (b : HoldingBuffer α) (root : Path) :
    (b.drainRoot root).1.length + (b.drainRoot root).2.length = b.length := by
  have h := countP_drainRoot b root fun _ => true
  simpa [drainAll] using h

end HoldingBuffer

end Voom.Process
