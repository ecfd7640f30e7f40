-- SUMMARY: The limiter of hardware encoders: the resource of a plan, and the limits that executors announce.
import Mathlib.Data.List.MinMax
import Voom.Evaluator.Condition
import Voom.Wit.Events

/-!
# PlanExecutionLimiter

Executors announce how many plans may use a hardware encoder at a time. The
process command takes the lowest announced limit of each of four resources, and
a plan that transcodes video waits for a permit of the resource it is classified
to, if that is limited.
-/

namespace Voom.JobManager

/-! ## The capabilities of the executors -/

/-- The latest announcement of each executor. The program keeps them in a hash map;
the list is its order of iteration. -/
structure CapabilityMap where
  executors : List Wit.ExecutorCapabilitiesEvent := []

namespace CapabilityMap

def register (caps : CapabilityMap) (event : Wit.ExecutorCapabilitiesEvent) : CapabilityMap :=
  { executors := caps.executors.filter (·.pluginName ≠ event.pluginName) ++ [event] }

/-- The announcements in the order they are collected. -/
def collect (events : List Wit.ExecutorCapabilitiesEvent) : CapabilityMap :=
  events.foldl register {}

def parallelLimit (caps : CapabilityMap) (resource : String) : Option Nat :=
  (((caps.executors.flatMap (·.parallelLimits)).filter fun limit =>
    limit.resource = resource ∧ 0 < limit.maxParallel).map (·.maxParallel)).min?

/-- What the evaluator asks of the capabilities. -/
def forEvaluator (caps : CapabilityMap) : Evaluator.CapabilityMap :=
  { executors := caps.executors.map fun event => (event.pluginName, event.hwAccels) }

/-- The latest announcement of an executor is in the map. -/
theorem mem_collect {front behind : List Wit.ExecutorCapabilitiesEvent}
    {event : Wit.ExecutorCapabilitiesEvent}
    (hlatest : ∀ later ∈ behind, later.pluginName ≠ event.pluginName) :
    event ∈ (collect (front ++ event :: behind)).executors := by
  rw [collect, List.foldl_append, List.foldl_cons]
  have hmem : event ∈ ((front.foldl register {}).register event).executors :=
    List.mem_append_right _ List.mem_cons_self
  revert hmem
  generalize (front.foldl register {}).register event = caps
  intro hmem
  induction behind generalizing caps with
  | nil => exact hmem
  | cons later behind ih =>
    refine ih (fun e he => hlatest e (List.mem_cons_of_mem _ he)) (caps.register later) ?_
    have hne := hlatest later List.mem_cons_self
    exact List.mem_append_left _ (List.mem_filter.mpr ⟨hmem, decide_eq_true hne.symm⟩)

theorem parallelLimit_pos {caps : CapabilityMap} {resource : String} {n : Nat}
    (h : caps.parallelLimit resource = some n) : 0 < n := by
  obtain ⟨limit, hlimit, rfl⟩ := List.mem_map.mp (List.min?_mem h)
  exact (of_decide_eq_true (List.mem_filter.mp hlimit).2).2

/-- The lowest limit is at most every one that is announced. -/
theorem parallelLimit_le {caps : CapabilityMap} {event : Wit.ExecutorCapabilitiesEvent}
    {limit : Wit.ExecutorParallelLimit} (hevent : event ∈ caps.executors)
    (hlimit : limit ∈ event.parallelLimits) (hpos : 0 < limit.maxParallel) :
    ∃ n, caps.parallelLimit limit.resource = some n ∧ n ≤ limit.maxParallel := by
  have hmem : limit.maxParallel ∈ ((caps.executors.flatMap (·.parallelLimits)).filter fun l =>
      l.resource = limit.resource ∧ 0 < l.maxParallel).map (·.maxParallel) :=
    List.mem_map.mpr ⟨limit, List.mem_filter.mpr
      ⟨List.mem_flatMap.mpr ⟨event, hevent, hlimit⟩, decide_eq_true ⟨rfl, hpos⟩⟩, rfl⟩
  cases hmin : caps.parallelLimit limit.resource with
  | none =>
    rw [parallelLimit, List.min?_eq_none_iff] at hmin
    rw [hmin] at hmem
    cases hmem
  | some n => exact ⟨n, rfl, (List.min?_eq_some_iff.mp hmin).2 _ hmem⟩

end CapabilityMap

/-! ## The resource of a plan -/

/-- `hw_resource_for_backend`. -/
def hwResourceForBackend : String → Option String
  | "nvenc" => some "hw:nvenc"
  | "qsv" => some "hw:qsv"
  | "vaapi" => some "hw:vaapi"
  | "videotoolbox" => some "hw:videotoolbox"
  | _ => none

/-- What one action says about the resource of its plan. -/
def actionResource (defaultResource : Option String) (action : PlannedAction) : Option String :=
  match action.operation, action.parameters with
  | .transcodeVideo, .transcode _ settings =>
    match settings.hw with
    | some "nvenc" => some "hw:nvenc"
    | some "qsv" => some "hw:qsv"
    | some "vaapi" => some "hw:vaapi"
    | some "videotoolbox" => some "hw:videotoolbox"
    | some "auto" | none => defaultResource
    | _ => none
  | _, _ => none

/-- `PlanParallelResource::from_plan_with_default`: the first action that says
something decides. -/
def planParallelResource (plan : Plan) (defaultResource : Option String) : Option String :=
  plan.actions.findSome? (actionResource defaultResource)

/-! ## The limiter -/

/-- The limits of the semaphores, and the resource of plans that name none. -/
structure PlanExecutionLimiter where
  limits : String → Option Nat := fun _ => none
  defaultResource : Option String := none

namespace PlanExecutionLimiter

/-- A limit of zero is ignored, a later one replaces an earlier one. -/
def semaphores (limits : List (String × Nat)) : String → Option Nat :=
  limits.foldl (fun semaphores limit =>
    if limit.2 = 0 then semaphores else Function.update semaphores limit.1 (some limit.2))
    fun _ => none

def fromLimitsWithDefault (limits : List (String × Nat)) (defaultResource : Option String) :
    PlanExecutionLimiter where
  limits := semaphores limits
  defaultResource := defaultResource.filter fun resource => (semaphores limits resource).isSome

/-- The resource whose permit a plan waits for in `acquire_for_plan`, if any. -/
def slotFor (limiter : PlanExecutionLimiter) (plan : Plan) : Option String :=
  (planParallelResource plan limiter.defaultResource).filter fun resource =>
    (limiter.limits resource).isSome

/-! ## The limiter of the process command -/

def hwResources : List String := ["hw:nvenc", "hw:qsv", "hw:vaapi", "hw:videotoolbox"]

def limitedHwResources (caps : CapabilityMap) : List (String × Nat) :=
  hwResources.filterMap fun resource => (caps.parallelLimit resource).map (resource, ·)

/-- The limiter that `run` makes from the capabilities. -/
def ofCapabilities (caps : CapabilityMap) : PlanExecutionLimiter :=
  fromLimitsWithDefault (limitedHwResources caps)
    (hwResourceForBackend caps.forEvaluator.bestHwaccel)

theorem semaphores_append (limits : List (String × Nat)) (resource : String) (n : Nat) :
    semaphores (limits ++ [(resource, n)]) =
      if n = 0 then semaphores limits else Function.update (semaphores limits) resource (some n) := by
  rw [semaphores, List.foldl_append]
  rfl

/-- Each limit is one of those given, and positive. -/
theorem mem_of_semaphores {limits : List (String × Nat)} {resource : String} {n : Nat}
    (h : semaphores limits resource = some n) : (resource, n) ∈ limits ∧ 0 < n := by
  induction limits using List.reverseRecOn with
  | nil => cases h
  | append_singleton limits limit ih =>
    obtain ⟨resource', n'⟩ := limit
    rw [semaphores_append] at h
    by_cases hzero : n' = 0
    · rw [if_pos hzero] at h
      exact ⟨List.mem_append_left _ (ih h).1, (ih h).2⟩
    · rw [if_neg hzero] at h
      by_cases hresource : resource = resource'
      · subst hresource
        rw [Function.update_self] at h
        obtain rfl := Option.some.inj h
        exact ⟨List.mem_append_right _ List.mem_cons_self, Nat.pos_of_ne_zero hzero⟩
      · rw [Function.update_of_ne hresource] at h
        exact ⟨List.mem_append_left _ (ih h).1, (ih h).2⟩

/-- A positive limit that is given makes a semaphore. -/
theorem semaphores_isSome {limits : List (String × Nat)} {resource : String} {n : Nat}
    (h : (resource, n) ∈ limits) (hpos : 0 < n) : (semaphores limits resource).isSome = true := by
  induction limits using List.reverseRecOn with
  | nil => cases h
  | append_singleton limits limit ih =>
    obtain ⟨resource', n'⟩ := limit
    rw [semaphores_append]
    by_cases hresource : resource = resource'
    · subst hresource
      by_cases hzero : n' = 0
      · rw [if_pos hzero]
        obtain h | h := List.mem_append.mp h
        · exact ih h
        · obtain ⟨-, rfl⟩ := Prod.mk.inj (List.mem_singleton.mp h)
          exact absurd hzero hpos.ne'
      · rw [if_neg hzero, Function.update_self]
        rfl
    · have hother : (semaphores limits resource).isSome = true := by
        obtain h | h := List.mem_append.mp h
        · exact ih h
        · exact absurd (Prod.mk.inj (List.mem_singleton.mp h)).1 hresource
      by_cases hzero : n' = 0
      · rwa [if_pos hzero]
      · rwa [if_neg hzero, Function.update_of_ne hresource]

theorem limits_pos {caps : CapabilityMap} {resource : String} {n : Nat}
    (h : (ofCapabilities caps).limits resource = some n) : 0 < n :=
  (mem_of_semaphores h).2

/-- The limit of a hardware resource is at most every one that is announced for it. -/
theorem limits_le {caps : CapabilityMap} {event : Wit.ExecutorCapabilitiesEvent}
    {limit : Wit.ExecutorParallelLimit} (hevent : event ∈ caps.executors)
    (hlimit : limit ∈ event.parallelLimits) (hpos : 0 < limit.maxParallel)
    (hhw : limit.resource ∈ hwResources) :
    ∃ n, (ofCapabilities caps).limits limit.resource = some n ∧ n ≤ limit.maxParallel := by
  obtain ⟨n, hn, hle⟩ := CapabilityMap.parallelLimit_le hevent hlimit hpos
  have hmem : (limit.resource, n) ∈ limitedHwResources caps :=
    List.mem_filterMap.mpr ⟨limit.resource, hhw, by rw [hn]; rfl⟩
  obtain ⟨m, hm⟩ := Option.isSome_iff_exists.mp
    (semaphores_isSome hmem (CapabilityMap.parallelLimit_pos hn))
  refine ⟨m, hm, ?_⟩
  obtain ⟨resource, -, hresource⟩ := List.mem_filterMap.mp (mem_of_semaphores hm).1
  obtain ⟨m', hm', heq⟩ := Option.map_eq_some_iff.mp hresource
  obtain ⟨rfl, rfl⟩ := Prod.mk.inj heq
  rw [hn] at hm'
  obtain rfl := Option.some.inj hm'
  exact hle

end PlanExecutionLimiter

end Voom.JobManager
