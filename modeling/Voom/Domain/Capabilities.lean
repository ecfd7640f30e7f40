-- SUMMARY: What a plugin can do, and how a query asks for it.
import Voom.Domain.Plan

namespace Voom

/-- How many plugins may claim a capability. -/
inductive CapabilityResolution where
  | exclusive | sharded | competing
  deriving DecidableEq, Repr

inductive Capability where
  | discover (schemes : List String)
  | introspect (formats : List String)
  | evaluatePolicy
  | execute (operations : List OperationType) (formats : List String)
  | store (backend : String)
  | detectTools
  | manageJobs
  | serveHttp
  | orchestratePhases
  | backup
  | enrichMetadata (source : String)
  | transcribe
  | synthesize
  | generateSubtitle
  | healthCheck
  | verify (modes : List VerificationMode)
  deriving DecidableEq, Repr

/-- What a caller asks for. -/
inductive CapabilityQuery where
  | exclusive (kind : String)
  | sharded (kind key : String)
  | competing (kind : String)
  deriving DecidableEq, Repr

namespace Capability

def kind : Capability → String
  | .discover _ => "discover"
  | .introspect _ => "introspect"
  | .evaluatePolicy => "evaluate_policy"
  | .execute _ _ => "execute"
  | .store _ => "store"
  | .detectTools => "detect_tools"
  | .manageJobs => "manage_jobs"
  | .serveHttp => "serve_http"
  | .orchestratePhases => "orchestrate_phases"
  | .backup => "backup"
  | .enrichMetadata _ => "enrich_metadata"
  | .transcribe => "transcribe"
  | .synthesize => "synthesize"
  | .generateSubtitle => "generate_subtitle"
  | .healthCheck => "health_check"
  | .verify _ => "verify"

def resolution : Capability → CapabilityResolution
  | .discover _ => .sharded
  | .introspect _ => .competing
  | .evaluatePolicy => .exclusive
  | .execute _ _ => .competing
  | .store _ => .exclusive
  | .detectTools => .competing
  | .manageJobs => .exclusive
  | .serveHttp => .exclusive
  | .orchestratePhases => .exclusive
  | .backup => .competing
  | .enrichMetadata _ => .sharded
  | .transcribe => .competing
  | .synthesize => .competing
  | .generateSubtitle => .competing
  | .healthCheck => .competing
  | .verify _ => .competing

/-- Does a sharded capability have the key? -/
def hasKey (key : String) : Capability → Bool
  | .discover schemes => schemes.contains key
  | .enrichMetadata source => source = key
  | _ => false

def matchesQuery (cap : Capability) : CapabilityQuery → Bool
  | .exclusive kind => cap.kind = kind ∧ cap.resolution = .exclusive
  | .competing kind => cap.kind = kind ∧ cap.resolution = .competing
  | .sharded kind key => cap.kind = kind ∧ cap.resolution = .sharded ∧ cap.hasKey key

/-- The first key that two sharded capabilities have in common. -/
def shardedCollisionKey : Capability → Capability → Option String
  | .discover schemes, .discover schemes' => schemes.find? schemes'.contains
  | .enrichMetadata source, .enrichMetadata source' => if source = source' then some source else none
  | _, _ => none

end Capability

end Voom
