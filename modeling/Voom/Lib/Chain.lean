-- SUMMARY: Chains in a table: rows that point to other rows by key, forward only, and how tables keep that.
import Voom.Lib.Table

/-!
# Chains of rows

The rows of a table may point to one another by key. Where every pointer goes
to a row that was inserted later (`Forward`), following pointers ends; where
every pointer names a row (`Linked`), it ends at a row without one. Changing
other columns, deleting rows and appending a row as the target of a pointer
keep the pointers forward.
-/

namespace Voom.Lib.Chain

variable {α κ : Type*} [DecidableEq κ] (key : α → κ) (link : α → Option κ)

/-- No row points to itself or to a row inserted before it. -/
structure Forward (rows : List α) : Prop where
  later : rows.Pairwise fun r r' => link r' ≠ some (key r)
  other : ∀ r ∈ rows, link r ≠ some (key r)

/-- Every pointer names a row. -/
def Linked (rows : List α) : Prop :=
  ∀ r ∈ rows, ∀ k, link r = some k → ∃ r' ∈ rows, key r' = k

/-- The row a row points to. -/
def next (rows : List α) (r : α) : Option α :=
  (link r).bind fun k => rows.find? fun r' => key r' = k

/-- Follow pointers for a number of steps, until there is none to follow. -/
def follow (rows : List α) : Nat → α → Option α
  | 0, r => some r
  | n + 1, r => (next key link rows r).bind (follow rows n)

variable {key link} {rows : List α}

/-! ## Following pointers ends -/

theorem next_some {r r' : α} (h : next key link rows r = some r') :
    r' ∈ rows ∧ link r = some (key r') := by
  unfold next at h
  obtain ⟨k, hk, hfind⟩ := Option.bind_eq_some_iff.mp h
  have hkey : key r' = k := by simpa using List.find?_some hfind
  exact ⟨List.mem_of_find?_eq_some hfind, hkey ▸ hk⟩

namespace Forward

/-- The next row of a row stands after it. -/
theorem next_later (h : Forward key link rows) {before after : List α} {r r' : α}
    (hrows : rows = before ++ r :: after) (hnext : next key link rows r = some r') : r' ∈ after := by
  obtain ⟨hr', hlink⟩ := next_some hnext
  have hpairs := h.later
  rw [hrows, List.pairwise_append] at hpairs
  rw [hrows, List.mem_append, List.mem_cons] at hr'
  rcases hr' with hr' | rfl | hr'
  · exact absurd hlink (hpairs.2.2 r' hr' r List.mem_cons_self)
  · exact absurd hlink (h.other r' (by simp [hrows]))
  · exact hr'

theorem follow_ends_from (h : Forward key link rows) (n : Nat) {before after : List α} {r : α}
    (hrows : rows = before ++ r :: after) (hn : after.length ≤ n) :
    follow key link rows (n + 1) r = none := by
  induction n generalizing before after r with
  | zero =>
    unfold follow
    cases hnext : next key link rows r with
    | none => rfl
    | some r' =>
      have hlater := h.next_later hrows hnext
      rw [List.length_eq_zero_iff.mp (Nat.le_zero.mp hn)] at hlater
      cases hlater
  | succ n ih =>
    unfold follow
    cases hnext : next key link rows r with
    | none => rfl
    | some r' =>
      obtain ⟨between, rest, hafter⟩ := List.append_of_mem (h.next_later hrows hnext)
      have hlen : rest.length ≤ n := by
        rw [hafter, List.length_append, List.length_cons] at hn
        omega
      have hrows' : rows = (before ++ r :: between) ++ r' :: rest := by
        rw [hrows, hafter, List.append_assoc, List.cons_append]
      exact ih hrows' hlen

/-- From any row, as many steps as there are rows leave the table. -/
theorem follow_ends (h : Forward key link rows) {r : α} (hr : r ∈ rows) :
    follow key link rows rows.length r = none := by
  obtain ⟨before, after, hrows⟩ := List.append_of_mem hr
  have hlen : rows.length = before.length + after.length + 1 := by
    rw [hrows, List.length_append, List.length_cons]
    omega
  rw [hlen]
  exact h.follow_ends_from _ hrows (Nat.le_add_left _ _)

/-! ## Changing the table -/

omit [DecidableEq κ] in
theorem nil : Forward key link ([] : List α) := ⟨List.Pairwise.nil, nofun⟩

omit [DecidableEq κ] in
theorem sublist (h : Forward key link rows) {rows' : List α} (hsub : rows'.Sublist rows) :
    Forward key link rows' :=
  ⟨h.later.sublist hsub, fun r hr => h.other r (hsub.subset hr)⟩

omit [DecidableEq κ] in
/-- Changing rows without pointing them elsewhere. -/
theorem map (h : Forward key link rows) {f : α → α} (hkey : ∀ r ∈ rows, key (f r) = key r)
    (hlink : ∀ r ∈ rows, link (f r) = link r ∨ link (f r) = none) :
    Forward key link (rows.map f) := by
  have hne : ∀ r ∈ rows, ∀ r' ∈ rows, link r' ≠ some (key r) → link (f r') ≠ some (key (f r)) := by
    intro r hr r' hr' hne
    rw [hkey r hr]
    rcases hlink r' hr' with heq | heq <;> rw [heq]
    · exact hne
    · exact nofun
  refine ⟨?_, ?_⟩
  · rw [List.pairwise_map]
    exact h.later.imp_of_mem fun hr hr' => hne _ hr _ hr'
  · intro x hx
    obtain ⟨r, hr, rfl⟩ := List.mem_map.mp hx
    exact hne r hr r hr (h.other r hr)

omit [DecidableEq κ] in
theorem append (h : Forward key link rows) {r : α} (hr : link r = none) :
    Forward key link (rows ++ [r]) := by
  refine ⟨?_, ?_⟩
  · rw [List.pairwise_append]
    refine ⟨h.later, List.pairwise_singleton _ _, fun x _ y hy => ?_⟩
    rw [List.mem_singleton.mp hy, hr]
    exact nofun
  · intro x hx
    rcases List.mem_append.mp hx with hx | hx
    · exact h.other x hx
    · rw [List.mem_singleton.mp hx, hr]
      exact nofun

/-- Pointing one row at a row that is inserted with a fresh key. -/
theorem supersede (h : Forward key link rows) {k : κ} {f : α → α} {r : α}
    (hkey : ∀ x, key (f x) = key x) (hlink : ∀ x, link (f x) = some (key r)) (hr : link r = none)
    (hfresh : ∀ x ∈ rows, key x ≠ key r) :
    Forward key link (Table.modify key k f rows ++ [r]) := by
  have hrow : ∀ x, key (if key x = k then f x else x) = key x := by
    intro x
    split
    · exact hkey x
    · rfl
  have hne : ∀ x ∈ rows, ∀ y ∈ rows, link y ≠ some (key x) →
      link (if key y = k then f y else y) ≠ some (key (if key x = k then f x else x)) := by
    intro x hx y _ hne
    rw [hrow]
    split
    · rw [hlink]
      exact fun heq => hfresh x hx (Option.some.inj heq).symm
    · exact hne
  refine append ⟨?_, ?_⟩ hr
  · unfold Table.modify
    rw [List.pairwise_map]
    exact h.later.imp_of_mem fun hx hy => hne _ hx _ hy
  · intro x hx
    obtain ⟨y, hy, rfl⟩ := Table.mem_modify.mp hx
    exact hne y hy y hy (h.other y hy)

end Forward

namespace Linked

omit [DecidableEq κ] in
theorem map (h : Linked key link rows) {f : α → α} (hkey : ∀ r ∈ rows, key (f r) = key r)
    (hlink : ∀ r ∈ rows, link (f r) = link r ∨ link (f r) = none) :
    Linked key link (rows.map f) := by
  intro x hx k hk
  obtain ⟨r, hr, rfl⟩ := List.mem_map.mp hx
  rcases hlink r hr with heq | heq
  · obtain ⟨r', hr', hkey'⟩ := h r hr k (heq ▸ hk)
    exact ⟨f r', List.mem_map_of_mem hr', (hkey r' hr').trans hkey'⟩
  · rw [heq] at hk
    cases hk

omit [DecidableEq κ] in
/-- Deleting rows that no remaining row points to. -/
theorem filter (h : Linked key link rows) {keep : α → Bool}
    (hcut : ∀ r ∈ rows, keep r = true → ∀ r' ∈ rows, keep r' = false → link r ≠ some (key r')) :
    Linked key link (rows.filter keep) := by
  intro r hr k hk
  obtain ⟨hr, hkept⟩ := List.mem_filter.mp hr
  obtain ⟨r', hr', rfl⟩ := h r hr k hk
  refine ⟨r', List.mem_filter.mpr ⟨hr', ?_⟩, rfl⟩
  by_contra hdrop
  exact hcut r hr hkept r' hr' (Bool.eq_false_iff.mpr hdrop) hk

omit [DecidableEq κ] in
theorem append (h : Linked key link rows) {r : α} (hr : link r = none) :
    Linked key link (rows ++ [r]) := by
  intro x hx k hk
  rcases List.mem_append.mp hx with hx | hx
  · obtain ⟨r', hr', hkey⟩ := h x hx k hk
    exact ⟨r', List.mem_append_left _ hr', hkey⟩
  · rw [List.mem_singleton.mp hx, hr] at hk
    cases hk

theorem supersede (h : Linked key link rows) {k : κ} {f : α → α} {r : α}
    (hkey : ∀ x, key (f x) = key x) (hlink : ∀ x, link (f x) = some (key r)) (hr : link r = none) :
    Linked key link (Table.modify key k f rows ++ [r]) := by
  intro x hx k' hk'
  rcases List.mem_append.mp hx with hx | hx
  · obtain ⟨y, hy, rfl⟩ := Table.mem_modify.mp hx
    split at hk'
    · rw [hlink] at hk'
      exact ⟨r, List.mem_append_right _ (List.mem_singleton_self r), Option.some.inj hk'⟩
    · obtain ⟨z, hz, hzk⟩ := h y hy k' hk'
      refine ⟨_, List.mem_append_left _ (Table.mem_modify.mpr ⟨z, hz, rfl⟩), ?_⟩
      split
      · exact (hkey z).trans hzk
      · exact hzk
  · rw [List.mem_singleton.mp hx, hr] at hk'
    cases hk'

end Linked

end Voom.Lib.Chain
