-- SUMMARY: Transactions: statements run one after the other on a working copy, committed whole or rolled back.
import Mathlib.Tactic.TypeStar

/-!
# Transactions

The body of a transaction is a sequence of statements over a state; a failing
statement ends it with the statements before it already done. Running it as a
transaction either commits its state or, on an error, rolls everything back.
-/

namespace Voom.Lib

/-- The body of a transaction: an error leaves the statements before it done. -/
abbrev Tx (ε σ : Type) := ExceptT ε (StateM σ)

namespace Tx

variable {ε σ α β : Type}

/-- Run a transaction; dropped on an error, it is rolled back. -/
def commit (tx : Tx ε σ α) (s : σ) : Except ε α × σ :=
  match tx s with
  | (.ok a, s') => (.ok a, s')
  | (.error e, _) => (.error e, s)

/-- An operation that already returns nothing but its error when it fails. -/
def ofOperation (f : σ → Except ε (σ × α)) : Tx ε σ α := fun s =>
  match f s with
  | .error e => (.error e, s)
  | .ok (s', a) => (.ok a, s')

/-- A statement that cannot fail. -/
def statement (f : σ → σ) : Tx ε σ Unit := fun s => (.ok (), f s)

/-- A statement that a constraint may refuse. -/
def guarded (refuses : σ → Bool) (error : ε) (f : σ → σ) : Tx ε σ Unit := fun s =>
  if refuses s then (.error error, s) else (.ok (), f s)

theorem guarded_apply {refuses : σ → Bool} {error : ε} {f : σ → σ} {s : σ} {b : Bool}
    (h : refuses s = b) :
    guarded refuses error f s = if b then (.error error, s) else (.ok (), f s) := by
  subst h
  rfl

theorem bind_apply (tx : Tx ε σ α) (f : α → Tx ε σ β) (s : σ) :
    (tx >>= f) s = match tx s with
      | (.ok a, s') => f a s'
      | (.error e, s') => (.error e, s') := by
  have hbind : (tx >>= f) s =
      StateT.bind (m := Id) tx (fun r => ExceptT.bindCont f r) s := rfl
  rw [hbind]
  unfold StateT.bind
  rcases tx s with ⟨result | result, s'⟩ <;> rfl

/-- A failed transaction changes nothing. -/
theorem commit_error {tx : Tx ε σ α} {s s' : σ} {e : ε} (h : tx.commit s = (.error e, s')) :
    s' = s := by
  unfold commit at h
  split at h <;> cases h
  rfl

theorem commit_discard (tx : Tx ε σ α) (s : σ) :
    commit (do discard <| tx) s = ((tx.commit s).1.map fun _ => (), (tx.commit s).2) := by
  have hbody : (do discard <| tx : Tx ε σ Unit) s = ((tx s).1.map fun _ => (), (tx s).2) := by
    have hbind : (do discard <| tx : Tx ε σ Unit) s = (tx >>= fun _ => pure ()) s := rfl
    rw [hbind, bind_apply]
    rcases tx s with ⟨result | result, s'⟩ <;> rfl
  unfold commit
  rw [hbody]
  rcases tx s with ⟨result | result, s'⟩ <;> rfl

theorem commit_ofOperation (f : σ → Except ε (σ × α)) (s : σ) :
    (ofOperation f).commit s =
      match f s with
      | .error e => (.error e, s)
      | .ok (s', a) => (.ok a, s') := by
  unfold commit ofOperation
  cases f s <;> rfl

end Tx

end Voom.Lib
