-- SUMMARY: The verifier plugin: verification and quarantine of a file, decided by the first action of a plan.
import Voom.Domain.Events

namespace Voom.Executors.Verifier

/-- What the handlers meet. Running a verification and moving a file are outcomes. -/
structure Env where
  hasStore : Bool
  verify : VerificationMode → Except VoomError Unit
  insertVerification : Except VoomError Unit
  quarantineDir : Option Path
  quarantineFile : Path → Except VoomError Path
  setFileStatus : Except VoomError Unit

/-- A verification that was recorded, or a file that was moved and marked. -/
inductive Deed where
  | verified (mode : VerificationMode)
  | quarantined (reason : String)
  deriving DecidableEq, Repr

def pluginName : String := "verifier"

def pluginErr (message : String) : VoomError := .plugin pluginName message

/-- A claiming result with one event. -/
def claimWith (event : Event) : EventResult :=
  { pluginName, claimed := true, producedEvents := [event] }

def handleVerifyPlan (env : Env) (plan : Plan) : Except VoomError (Option (EventResult × Deed)) :=
  match plan.actions with
  | [] => .ok none
  | action :: _ =>
    match action.parameters with
    | .verifyMedia mode =>
      if !env.hasStore then
        .error (pluginErr "verifier has no storage handle; cannot persist verification record")
      else do
        env.verify mode
        env.insertVerification
        return some (claimWith (.verifyCompleted plan.file.id plan.file.path mode), .verified mode)
    | _ => .ok none

def handleQuarantinePlan (env : Env) (plan : Plan) :
    Except VoomError (Option (EventResult × Deed)) :=
  match plan.actions with
  | [] => .ok none
  | action :: _ =>
    match action.parameters with
    | .quarantine reason =>
      if !env.hasStore then
        .error (pluginErr "verifier has no storage handle; cannot mark file quarantined")
      else
        match env.quarantineDir with
        | none =>
          .error (pluginErr
            "quarantine_dir is not configured; set [plugin.verifier].quarantine_dir")
        | some dir => do
          let dst ← env.quarantineFile dir
          env.setFileStatus
          return some (claimWith (.fileQuarantined plan.file.id plan.file.path dst reason),
            .quarantined reason)
    | _ => .ok none

/-- The first action decides. -/
def handlePlanCreated (env : Env) (plan : Plan) : Except VoomError (Option (EventResult × Deed)) :=
  if plan.isEmpty || plan.isSkipped then .ok none
  else
    match plan.actions with
    | [] => .ok none
    | first :: _ =>
      match first.operation with
      | .verifyMedia => handleVerifyPlan env plan
      | .quarantine => handleQuarantinePlan env plan
      | _ => .ok none

end Voom.Executors.Verifier
