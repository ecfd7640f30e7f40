-- SUMMARY: File transitions: the provenance records the store keeps of a file's changes.
import Voom.Domain.Media

namespace Voom

/-- What initiated a transition. -/
inductive TransitionSource where
  | discovery | voom | external | unknown
  deriving DecidableEq, Repr, Inhabited

inductive ProcessingOutcome where
  | success | failure | skipped
  deriving DecidableEq, Repr, Inhabited

/-- A recorded change of a file. -/
structure FileTransition where
  fileId : Uuid
  /-- Path after the transition. -/
  path : Path
  /-- Path before it, set only when it changed. -/
  fromPath : Option Path := none
  fromHash : Option Hash := none
  toHash : Hash
  fromSize : Option Nat := none
  toSize : Nat
  source : TransitionSource
  sourceDetail : Option String := none
  planId : Option Uuid := none
  outcome : Option ProcessingOutcome := none
  policyName : Option String := none
  phaseName : Option String := none
  errorMessage : Option String := none
  deriving DecidableEq, Repr

/-- How a phase ended, as later phases' conditions see it. -/
inductive EvaluationOutcome where
  | executed (modified : Bool)
  | skipped
  | safeguardFailed
  | executionFailed
  deriving DecidableEq, Repr, Inhabited

def EvaluationOutcome.isFailure : EvaluationOutcome → Bool
  | .safeguardFailed | .executionFailed => true
  | .executed _ | .skipped => false

end Voom
