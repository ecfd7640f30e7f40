-- SUMMARY: The search for a CRF by measured VMAF scores, and when it stays inside its bounds.
import Mathlib.Data.Rat.Cast.Order
import Voom.Domain.Json
import Voom.Lib.Logged
import Voom.Lib.Outcome

/-!
# VMAF iteration

A sample is encoded with one CRF after the other, and the bounds of the search move past each
CRF whose score is off the target. Scores need not fall as the CRF grows. `Window` is what the
bounds say of the CRFs that the answers so far leave open; it breaks down where an answer at one
end of the window contradicts the answer that put the end there.
-/

namespace Voom.Executors.VmafIterate

open Lib

def defaultStartCrf : Nat := 23

def minCrf : Nat := 0

def maxCrf : Nat := 51

/-- `u32::MAX`. -/
def u32Max : Nat := 4294967295

/-- Optional hard bitrate ceilings for iterative sample encodes. -/
structure BitrateBounds where
  minBitrate : Option String := none
  maxBitrate : Option String := none
  deriving DecidableEq, Repr

/-- Result from a successful VMAF iteration run. -/
structure IterationResult where
  finalCrf : Nat
  finalBitrate : Option String
  achievedVmaf : F64
  iterations : Nat
  deriving DecidableEq, Repr

/-- VMAF model presets supported by the measurement primitive. -/
inductive VmafModel where
  | v061
  | v4k
  | phone
  deriving DecidableEq, Repr

inductive VmafError where
  | libvmafUnavailable
  | modelNotFound (model : VmafModel)
  | ffmpegFailed (exitStatus : Int) (stderr : String)
  | parseFailed (message : String)
  | ioFailed (error : String)
  deriving DecidableEq, Repr

inductive SampleError where
  | invalidInput (message : String)
  | ffmpegFailed (exitStatus : Int) (stderr : String)
  | parseFailed (message : String)
  | ioFailed (error : String)
  deriving DecidableEq, Repr

inductive IterationError where
  | invalidInput (message : String)
  | sample (error : SampleError)
  | vmaf (error : VmafError)
  | ioFailed (error : String)
  | maxIterationsExceeded (result : IterationResult)
  deriving DecidableEq, Repr

/-- Why a run ends without a result. A build without overflow checks goes on with a wrapped
CRF where this one stops with `overflow`. -/
inductive Stop where
  | failed (error : IterationError)
  | overflow
  deriving DecidableEq, Repr

/-- What encoding and measuring come to in each iteration. Both may keep a state of their own,
so the answers are free to differ between iterations with one CRF. -/
structure EncodeAttempt where
  encodeSample : (iteration crf : Nat) → BitrateBounds → Except VmafError (Option String)
  computeVmaf : (iteration crf : Nat) → VmafModel → Except VmafError F64

/-! ## The loop -/

/-- `(achieved - f64::from(target_vmaf)).abs() <= TARGET_TOLERANCE`. The difference of two
doubles within a factor of two of each other is exact, and farther ones are not near 2. -/
def converged (targetVmaf : Nat) : F64 → Bool
  | .finite achieved => decide (-2 ≤ achieved - targetVmaf ∧ achieved - targetVmaf ≤ 2)
  | _ => false

/-- `achieved < f64::from(target_vmaf)`. -/
def isBelow (targetVmaf : Nat) (achieved : F64) : Bool := F64.lt achieved (.finite targetVmaf)

/-- The new `low` and `high`. -/
def updateBounds (achieved : F64) (targetVmaf crf low high : Nat) : Nat × Nat :=
  if isBelow targetVmaf achieved then (low, crf - 1)
  else (min (min (crf + 1) u32Max) maxCrf, high)

/-- `low + ((high - low) / 2)`, if neither operation leaves the type. -/
def nextCrf (low high : Nat) : Option Nat :=
  if high < low then none
  else
    let crf := low + (high - low) / 2
    if crf ≤ u32Max then some crf else none

/-- The variables of the loop. -/
structure Search where
  low : Nat := minCrf
  high : Nat := maxCrf
  crf : Nat := defaultStartCrf
  last : Option IterationResult := none

/-- A CRF that was tried, with the bounds at that time and what came of it. -/
structure Probe where
  low : Nat
  high : Nat
  crf : Nat
  iteration : Nat
  outcome : Except VmafError IterationResult

def validateInputs (targetVmaf maxIterations : Nat) : Except IterationError Unit :=
  if ¬(60 ≤ targetVmaf ∧ targetVmaf ≤ 100) then
    .error (.invalidInput "target_vmaf must be from 60 to 100")
  else if maxIterations = 0 then
    .error (.invalidInput "max_iterations must be greater than zero")
  else .ok ()

section

variable (targetVmaf : Nat) (bounds : BitrateBounds) (attempt : EncodeAttempt) (model : VmafModel)

/-- Encode a sample and measure it. -/
def measure (iteration crf : Nat) : Except VmafError IterationResult := do
  let bitrate ← attempt.encodeSample iteration crf bounds
  let achieved ← attempt.computeVmaf iteration crf model
  return { finalCrf := crf, finalBitrate := bitrate, achievedVmaf := achieved,
           iterations := iteration }

def probeAt (iteration : Nat) (s : Search) : Probe where
  low := s.low
  high := s.high
  crf := s.crf
  iteration := iteration
  outcome := measure bounds attempt model iteration s.crf

/-- What the loop comes to once the iterations are used up. -/
def exhausted : Option IterationResult → Stop
  | some result => .failed (.maxIterationsExceeded result)
  | none => .failed (.invalidInput "max_iterations must be greater than zero")

/-- One iteration: what the run comes to if it ends here, else the variables of the next. -/
def iterate (iteration : Nat) (s : Search) : Except (Except Stop IterationResult) Search :=
  match measure bounds attempt model iteration s.crf with
  | .error e => .error (.error (.failed (.vmaf e)))
  | .ok result =>
    if converged targetVmaf result.achievedVmaf then .error (.ok result)
    else
      let (low, high) := updateBounds result.achievedVmaf targetVmaf s.crf s.low s.high
      match nextCrf low high with
      | none => .error (.error .overflow)
      | some crf => .ok { low, high, crf, last := some result }

/-- The loop of `run_bisection` from an iteration on, with the CRFs it tries. -/
def bisect : (remaining iteration : Nat) → Search → Logged Probe (Except Stop IterationResult)
  | 0, _, s => .silent (.error (exhausted s.last))
  | remaining + 1, iteration, s =>
    let probe := probeAt bounds attempt model iteration s
    match iterate targetVmaf bounds attempt model iteration s with
    | .error outcome => ⟨outcome, [probe]⟩
    | .ok next =>
      let rest := bisect remaining (iteration + 1) next
      ⟨rest.value, probe :: rest.log⟩

def runBisection (maxIterations : Nat) : Logged Probe (Except Stop IterationResult) :=
  bisect targetVmaf bounds attempt model maxIterations 1 {}

end

/-- What the file system and the sample extractor come to. -/
structure WorkDir where
  createDirAll : Except String Unit
  extract : Except SampleError Unit
  removeDirAll : Except String Unit

def iterateInDir (targetVmaf : Nat) (bounds : BitrateBounds) (sample : Except SampleError Unit)
    (maxIterations : Nat) (attempt : EncodeAttempt) (model : VmafModel) :
    Except Stop IterationResult :=
  match sample with
  | .error e => .error (.failed (.sample e))
  | .ok () => (runBisection targetVmaf bounds attempt model maxIterations).value

def cleanupWorkDir (result : Except Stop IterationResult) (cleanup : Except String Unit) :
    Except Stop IterationResult :=
  match result, cleanup with
  | .ok value, .ok () => .ok value
  | .ok _, .error e => .error (.failed (.ioFailed e))
  | .error e, _ => .error e

def iterateToTargetWith (targetVmaf : Nat) (bounds : BitrateBounds) (dir : WorkDir)
    (maxIterations : Nat) (attempt : EncodeAttempt) (model : VmafModel) :
    Except Stop IterationResult :=
  match validateInputs targetVmaf maxIterations with
  | .error e => .error (.failed e)
  | .ok () =>
    match dir.createDirAll with
    | .error e => .error (.failed (.ioFailed e))
    | .ok () =>
      cleanupWorkDir (iterateInDir targetVmaf bounds dir.extract maxIterations attempt
        model) dir.removeDirAll

/-! ## The window -/

/-- The answer of a probe that is off the target leaves the CRF open: a score below the target
asks for a smaller CRF, any other for a larger one. -/
def Probe.LeavesOpen (targetVmaf : Nat) (p : Probe) (crf : Nat) : Prop :=
  ∀ result, p.outcome = .ok result →
    if isBelow targetVmaf result.achievedVmaf then crf < p.crf else p.crf < crf

/-- The CRF is consistent with the answers so far. -/
def Consistent (targetVmaf : Nat) (earlier : List Probe) (crf : Nat) : Prop :=
  crf ≤ maxCrf ∧ ∀ p ∈ earlier, p.LeavesOpen targetVmaf crf

/-- What a probe should be like, after earlier ones. -/
structure Probe.Safe (targetVmaf : Nat) (earlier : List Probe) (p : Probe) : Prop where
  inRange : minCrf ≤ p.crf ∧ p.crf ≤ maxCrf
  ordered : p.low ≤ p.high
  fresh : (∃ crf, Consistent targetVmaf earlier crf ∧ ∀ q ∈ earlier, q.crf ≠ crf) →
    ∀ q ∈ earlier, q.crf ≠ p.crf

/-- The result was measured at one of the probes. -/
def Measured (bounds : BitrateBounds) (attempt : EncodeAttempt) (model : VmafModel)
    (probes : List Probe) (result : IterationResult) : Prop :=
  ∃ p ∈ probes, result.finalCrf = p.crf ∧ result.iterations = p.iteration ∧
    attempt.encodeSample p.iteration p.crf bounds = .ok result.finalBitrate ∧
    attempt.computeVmaf p.iteration p.crf model = .ok result.achievedVmaf

/-- A run that stays in range. -/
structure InRange (targetVmaf : Nat) (bounds : BitrateBounds) (attempt : EncodeAttempt)
    (model : VmafModel) (run : Logged Probe (Except Stop IterationResult)) : Prop where
  noOverflow : run.value ≠ .error .overflow
  safe : ∀ earlier p later, run.log = earlier ++ p :: later → p.Safe targetVmaf earlier
  measured : ∀ result, run.value = .ok result ∨
      run.value = .error (.failed (.maxIterationsExceeded result)) →
    Measured bounds attempt model run.log result

/-- The answer contradicts the one that put this end of the window where it is. -/
def Probe.Crosses (targetVmaf : Nat) (p : Probe) : Prop :=
  ∃ result, p.outcome = .ok result ∧ converged targetVmaf result.achievedVmaf = false ∧
    if isBelow targetVmaf result.achievedVmaf then p.crf = p.low ∧ minCrf < p.low
    else p.crf = p.high ∧ p.high < maxCrf

/-- What the bounds say after earlier probes: they enclose what those leave open, or nothing
is left open, an end of the scale having been tried. -/
structure Window (targetVmaf : Nat) (earlier : List Probe) (low high : Nat) : Prop where
  ordered : low ≤ high
  inRange : high ≤ maxCrf
  encloses : (∀ crf, Consistent targetVmaf earlier crf ↔ low ≤ crf ∧ crf ≤ high) ∨
    ∀ crf, ¬Consistent targetVmaf earlier crf

theorem Window.initial {targetVmaf : Nat} : Window targetVmaf [] minCrf maxCrf where
  ordered := by decide
  inRange := Nat.le_refl _
  encloses := .inl fun crf => by simp [Consistent, minCrf]

theorem consistent_append {targetVmaf : Nat} {earlier : List Probe} {p : Probe} {crf : Nat} :
    Consistent targetVmaf (earlier ++ [p]) crf ↔
      Consistent targetVmaf earlier crf ∧ p.LeavesOpen targetVmaf crf := by
  unfold Consistent
  constructor
  · rintro ⟨hmax, hopen⟩
    exact ⟨⟨hmax, fun q hq => hopen q (List.mem_append_left _ hq)⟩,
      hopen p (List.mem_append_right _ List.mem_cons_self)⟩
  · rintro ⟨⟨hmax, hopen⟩, hp⟩
    refine ⟨hmax, fun q hq => ?_⟩
    rcases List.mem_append.mp hq with hq | hq
    · exact hopen q hq
    · obtain rfl := List.mem_singleton.mp hq
      exact hp

/-- A measured probe does not leave its own CRF open. -/
theorem Consistent.ne {targetVmaf : Nat} {earlier : List Probe} {crf : Nat}
    (h : Consistent targetVmaf earlier crf) {q : Probe} (hq : q ∈ earlier)
    {result : IterationResult} (hresult : q.outcome = .ok result) : q.crf ≠ crf := by
  intro heq
  have hopen := h.2 q hq result hresult
  split at hopen <;> omega

/-- One answer that does not cross the window narrows it. -/
theorem Window.step {targetVmaf : Nat} {earlier : List Probe} {p : Probe}
    {result : IterationResult} (h : Window targetVmaf earlier p.low p.high)
    (hcrf : p.low ≤ p.crf ∧ p.crf ≤ p.high) (hresult : p.outcome = .ok result)
    (hoff : converged targetVmaf result.achievedVmaf = false)
    (hcross : ¬p.Crosses targetVmaf) :
    Window targetVmaf (earlier ++ [p])
      (updateBounds result.achievedVmaf targetVmaf p.crf p.low p.high).1
      (updateBounds result.achievedVmaf targetVmaf p.crf p.low p.high).2 := by
  obtain ⟨hordered, hrange, hencloses⟩ := h
  have hnew : ∀ crf, Consistent targetVmaf (earlier ++ [p]) crf ↔ Consistent targetVmaf earlier crf ∧
      if isBelow targetVmaf result.achievedVmaf then crf < p.crf else p.crf < crf := by
    intro crf
    rw [consistent_append]
    simp [Probe.LeavesOpen, hresult]
  have hstays : ¬if isBelow targetVmaf result.achievedVmaf then p.crf = p.low ∧ minCrf < p.low
      else p.crf = p.high ∧ p.high < maxCrf :=
    fun hend => hcross ⟨result, hresult, hoff, hend⟩
  unfold updateBounds
  cases hbelow : isBelow targetVmaf result.achievedVmaf with
  | true =>
    simp only [hbelow, if_true, minCrf, maxCrf] at hstays hnew hrange ⊢
    refine ⟨by omega, by simp only [maxCrf]; omega, ?_⟩
    rcases hencloses with hopen | hclosed
    · by_cases hzero : p.crf = 0
      · -- the smallest CRF scores below the target: nothing is left
        exact .inr fun crf hcrf => by have := (hnew crf).mp hcrf; omega
      · exact .inl fun crf => by rw [hnew crf, hopen crf]; omega
    · exact .inr fun crf hcrf => hclosed crf ((hnew crf).mp hcrf).1
  | false =>
    simp only [hbelow, Bool.false_eq_true, if_false, minCrf, maxCrf, u32Max] at hstays hnew hrange ⊢
    refine ⟨by omega, by simp only [maxCrf]; omega, ?_⟩
    rcases hencloses with hopen | hclosed
    · by_cases hlast : p.crf = 51
      · exact .inr fun crf hcrf => by
          have hmax : crf ≤ 51 := hcrf.1
          have := (hnew crf).mp hcrf
          omega
      · exact .inl fun crf => by rw [hnew crf, hopen crf]; omega
    · exact .inr fun crf hcrf => hclosed crf ((hnew crf).mp hcrf).1

/-- An answer that crosses the window leaves bounds the next CRF cannot be computed from. -/
theorem nextCrf_of_crosses {targetVmaf : Nat} {p : Probe} {result : IterationResult}
    (hresult : p.outcome = .ok result) (hcross : p.Crosses targetVmaf) :
    nextCrf (updateBounds result.achievedVmaf targetVmaf p.crf p.low p.high).1
      (updateBounds result.achievedVmaf targetVmaf p.crf p.low p.high).2 = none := by
  obtain ⟨_, hsame, _, hend⟩ := hcross
  obtain rfl := Except.ok.inj (hresult.symm.trans hsame)
  unfold updateBounds nextCrf
  simp only [minCrf, maxCrf, u32Max] at *
  cases hbelow : isBelow targetVmaf result.achievedVmaf with
  | true =>
    simp only [hbelow, if_true] at hend ⊢
    exact if_pos (by omega)
  | false =>
    simp only [hbelow, Bool.false_eq_true, if_false] at hend ⊢
    exact if_pos (by omega)

/-- From an ordered window the next CRF is computed, and lies in the window. -/
theorem nextCrf_of_window {low high : Nat} (hordered : low ≤ high) (hrange : high ≤ maxCrf) :
    ∃ crf, nextCrf low high = some crf ∧ low ≤ crf ∧ crf ≤ high := by
  refine ⟨low + (high - low) / 2, ?_, by omega, by omega⟩
  unfold nextCrf
  rw [if_neg (by omega)]
  exact if_pos (by simp only [maxCrf, u32Max] at *; omega)

/-! ## Runs -/

section

variable {targetVmaf : Nat} {bounds : BitrateBounds} {attempt : EncodeAttempt} {model : VmafModel}

theorem measure_eq_ok {iteration crf : Nat} {result : IterationResult}
    (h : measure bounds attempt model iteration crf = .ok result) :
    result.finalCrf = crf ∧ result.iterations = iteration ∧
      attempt.encodeSample iteration crf bounds = .ok result.finalBitrate ∧
      attempt.computeVmaf iteration crf model = .ok result.achievedVmaf := by
  obtain ⟨bitrate, hbitrate, h⟩ := bind_eq_ok.mp h
  obtain ⟨achieved, hachieved, h⟩ := bind_eq_ok.mp h
  obtain rfl := Except.ok.inj h
  exact ⟨rfl, rfl, hbitrate, hachieved⟩

/-- An iteration that goes on was off the target and left bounds with a next CRF. -/
theorem iterate_eq_ok {iteration : Nat} {s next : Search}
    (h : iterate targetVmaf bounds attempt model iteration s = .ok next) :
    ∃ result, measure bounds attempt model iteration s.crf = .ok result ∧
      converged targetVmaf result.achievedVmaf = false ∧
      updateBounds result.achievedVmaf targetVmaf s.crf s.low s.high = (next.low, next.high) ∧
      nextCrf next.low next.high = some next.crf ∧ next.last = some result := by
  unfold iterate at h
  split at h
  · cases h
  · rename_i result hmeasure
    split at h
    · cases h
    · rename_i hoff
      dsimp only at h
      split at h
      · cases h
      · rename_i crf hnext
        obtain rfl := Except.ok.inj h
        exact ⟨result, hmeasure, by simpa using hoff, rfl, hnext, rfl⟩

/-- An iteration ends the run with an error, with a result on the target, or with bounds from
which no CRF can be computed. -/
theorem iterate_eq_error {iteration : Nat} {s : Search} {outcome : Except Stop IterationResult}
    (h : iterate targetVmaf bounds attempt model iteration s = .error outcome) :
    (∃ e, measure bounds attempt model iteration s.crf = .error e ∧
      outcome = .error (.failed (.vmaf e))) ∨
    ∃ result, measure bounds attempt model iteration s.crf = .ok result ∧
      ((converged targetVmaf result.achievedVmaf = true ∧ outcome = .ok result) ∨
      (converged targetVmaf result.achievedVmaf = false ∧ outcome = .error .overflow ∧
        nextCrf (updateBounds result.achievedVmaf targetVmaf s.crf s.low s.high).1
          (updateBounds result.achievedVmaf targetVmaf s.crf s.low s.high).2 = none)) := by
  unfold iterate at h
  split at h
  · rename_i e hmeasure
    obtain rfl := Except.error.inj h
    exact .inl ⟨e, hmeasure, rfl⟩
  · rename_i result hmeasure
    refine .inr ⟨result, hmeasure, ?_⟩
    split at h
    · rename_i hon
      obtain rfl := Except.error.inj h
      exact .inl ⟨hon, rfl⟩
    · rename_i hoff
      dsimp only at h
      split at h
      · rename_i hnone
        obtain rfl := Except.error.inj h
        exact .inr ⟨by simpa using hoff, rfl, hnone⟩
      · cases h

theorem mem_bisect_log {remaining iteration : Nat} {s : Search} {p : Probe}
    (hp : p ∈ (bisect targetVmaf bounds attempt model (remaining + 1) iteration s).log) :
    p = probeAt bounds attempt model iteration s ∨
      ∃ next, iterate targetVmaf bounds attempt model iteration s = .ok next ∧
        p ∈ (bisect targetVmaf bounds attempt model remaining (iteration + 1) next).log := by
  rw [bisect] at hp
  cases hstep : iterate targetVmaf bounds attempt model iteration s with
  | error outcome =>
    simp only [hstep] at hp
    exact .inl (List.mem_singleton.mp hp)
  | ok next =>
    simp only [hstep] at hp
    rcases List.mem_cons.mp hp with hp | hp
    · exact .inl hp
    · exact .inr ⟨next, rfl, hp⟩

/-- A probe that crosses the window is the last one. -/
theorem bisect_value_of_crosses {remaining iteration : Nat} {s : Search} {p : Probe}
    (hp : p ∈ (bisect targetVmaf bounds attempt model remaining iteration s).log)
    (hcross : p.Crosses targetVmaf) :
    (bisect targetVmaf bounds attempt model remaining iteration s).value = .error .overflow := by
  induction remaining generalizing iteration s with
  | zero => cases hp
  | succ remaining ih =>
    rcases mem_bisect_log hp with rfl | ⟨next, hstep, hp⟩
    · obtain ⟨result, hresult, hoff, -⟩ := id hcross
      have hnone : nextCrf
          (updateBounds result.achievedVmaf targetVmaf s.crf s.low s.high).1
          (updateBounds result.achievedVmaf targetVmaf s.crf s.low s.high).2 = none :=
        nextCrf_of_crosses hresult hcross
      rw [bisect]
      cases hstep : iterate targetVmaf bounds attempt model iteration s with
      | error outcome =>
        rcases iterate_eq_error hstep with ⟨e, he, -⟩ | ⟨other, hother, hend⟩
        · exact absurd (hresult.symm.trans he) nofun
        · obtain rfl := Except.ok.inj (hresult.symm.trans hother)
          rcases hend with ⟨hon, -⟩ | ⟨-, hout, -⟩
          · exact absurd (hoff.symm.trans hon) nofun
          · exact hout
      | ok next =>
        obtain ⟨other, hother, -, hbounds, hnext, -⟩ := iterate_eq_ok hstep
        obtain rfl := Except.ok.inj (hresult.symm.trans hother)
        rw [hbounds] at hnone
        exact absurd (hnext.symm.trans hnone) nofun
    · rw [bisect]
      simp only [hstep]
      exact ih hp

/-- The invariant of the loop: the CRF to try next lies in the window the answers so far leave. -/
structure Search.Ready (targetVmaf : Nat) (earlier : List Probe) (s : Search) : Prop where
  window : Window targetVmaf earlier s.low s.high
  inside : s.low ≤ s.crf ∧ s.crf ≤ s.high
  answered : ∀ q ∈ earlier, ∃ result, q.outcome = .ok result

theorem Search.Ready.safe {earlier : List Probe} {s : Search} (h : s.Ready targetVmaf earlier)
    (iteration : Nat) :
    (probeAt bounds attempt model iteration s).Safe targetVmaf earlier := by
  have hrange := h.window.inRange
  have hinside := h.inside
  refine ⟨⟨Nat.zero_le _, hinside.2.trans hrange⟩, h.window.ordered, ?_⟩
  rintro ⟨crf, hopen, -⟩ q hq
  obtain ⟨result, hresult⟩ := h.answered q hq
  rcases h.window.encloses with hencloses | hclosed
  · exact ((hencloses s.crf).mpr hinside).ne hq hresult
  · exact absurd hopen (hclosed crf)

theorem Search.Ready.step {earlier : List Probe} {s next : Search} {iteration : Nat}
    (h : s.Ready targetVmaf earlier)
    (hcross : ¬(probeAt bounds attempt model iteration s).Crosses targetVmaf)
    (hstep : iterate targetVmaf bounds attempt model iteration s = .ok next) :
    next.Ready targetVmaf (earlier ++ [probeAt bounds attempt model iteration s]) := by
  obtain ⟨result, hresult, hoff, hbounds, hnext, -⟩ := iterate_eq_ok hstep
  have hwindow : Window targetVmaf (earlier ++ [probeAt bounds attempt model iteration s])
      (updateBounds result.achievedVmaf targetVmaf s.crf s.low s.high).1
      (updateBounds result.achievedVmaf targetVmaf s.crf s.low s.high).2 :=
    Window.step h.window h.inside hresult hoff hcross
  rw [hbounds] at hwindow
  obtain ⟨crf, hcrf, hinside⟩ := nextCrf_of_window hwindow.ordered hwindow.inRange
  obtain rfl := Option.some.inj (hnext.symm.trans hcrf)
  refine ⟨hwindow, hinside, fun q hq => ?_⟩
  rcases List.mem_append.mp hq with hq | hq
  · exact h.answered q hq
  · obtain rfl := List.mem_singleton.mp hq
    exact ⟨result, hresult⟩

/-- As long as no probe crosses the window, all are safe and the arithmetic stays in range. -/
theorem bisect_safe {remaining iteration : Nat} {s : Search} {earlier : List Probe}
    (hready : s.Ready targetVmaf earlier)
    (hcross : ∀ p ∈ (bisect targetVmaf bounds attempt model remaining iteration s).log,
      ¬p.Crosses targetVmaf) :
    (bisect targetVmaf bounds attempt model remaining iteration s).value ≠ .error .overflow ∧
      ∀ before p after,
        (bisect targetVmaf bounds attempt model remaining iteration s).log =
          before ++ p :: after →
        p.Safe targetVmaf (earlier ++ before) := by
  induction remaining generalizing iteration s earlier with
  | zero =>
    refine ⟨?_, fun before p after hlog => by simp [bisect] at hlog⟩
    unfold bisect exhausted
    cases s.last with
    | none => exact nofun
    | some result => exact nofun
  | succ remaining ih =>
    rw [bisect] at hcross ⊢
    cases hstep : iterate targetVmaf bounds attempt model iteration s with
    | error outcome =>
      simp only [hstep] at hcross ⊢
      have hfirst := hcross _ List.mem_cons_self
      constructor
      · rcases iterate_eq_error hstep with ⟨e, -, rfl⟩ | ⟨result, hresult, hend⟩
        · exact nofun
        · rcases hend with ⟨-, rfl⟩ | ⟨hoff, -, hnone⟩
          · exact nofun
          · -- the bounds after an answer that does not cross are those of a window
            have hwindow := Window.step (p := probeAt bounds attempt model iteration s)
              hready.window hready.inside hresult hoff hfirst
            obtain ⟨crf, hcrf, -⟩ := nextCrf_of_window hwindow.ordered hwindow.inRange
            exact absurd (hcrf.symm.trans hnone) nofun
      · intro before p after hlog
        obtain ⟨rfl, hrest⟩ | ⟨rest, rfl, hrest⟩ := List.cons_eq_append_iff.mp hlog
        · obtain ⟨rfl, -⟩ := List.cons.inj hrest
          rw [List.append_nil]
          exact hready.safe iteration
        · simp at hrest
    | ok next =>
      simp only [hstep] at hcross ⊢
      rw [List.forall_mem_cons] at hcross
      obtain ⟨hvalue, hsafe⟩ := ih (hready.step hcross.1 hstep) hcross.2
      refine ⟨hvalue, fun before p after hlog => ?_⟩
      obtain ⟨rfl, hrest⟩ | ⟨rest, rfl, hrest⟩ := List.cons_eq_append_iff.mp hlog
      · obtain ⟨rfl, -⟩ := List.cons.inj hrest
        rw [List.append_nil]
        exact hready.safe iteration
      · have hp := hsafe rest p after hrest
        rwa [List.append_assoc] at hp

theorem Measured.mono {probes more : List Probe} {result : IterationResult}
    (h : Measured bounds attempt model probes result) (hsub : probes ⊆ more) :
    Measured bounds attempt model more result := by
  obtain ⟨p, hp, hresult⟩ := h
  exact ⟨p, hsub hp, hresult⟩

theorem measured_probeAt {iteration : Nat} {s : Search} {result : IterationResult}
    (h : measure bounds attempt model iteration s.crf = .ok result) {probes : List Probe}
    (hmem : probeAt bounds attempt model iteration s ∈ probes) :
    Measured bounds attempt model probes result := by
  obtain ⟨hcrf, hiteration, hencode, hscore⟩ := measure_eq_ok h
  exact ⟨_, hmem, hcrf, hiteration, hencode, hscore⟩

/-- Whatever result a run reports was measured on the way. -/
theorem bisect_measured {remaining iteration : Nat} {s : Search} {earlier : List Probe}
    (hlast : ∀ result, s.last = some result → Measured bounds attempt model earlier result)
    {result : IterationResult}
    (hvalue : (bisect targetVmaf bounds attempt model remaining iteration s).value = .ok result ∨
      (bisect targetVmaf bounds attempt model remaining iteration s).value =
        .error (.failed (.maxIterationsExceeded result))) :
    Measured bounds attempt model
      (earlier ++ (bisect targetVmaf bounds attempt model remaining iteration s).log) result := by
  induction remaining generalizing iteration s earlier with
  | zero =>
    unfold bisect exhausted at hvalue
    cases hcase : s.last with
    | none => simp [hcase] at hvalue
    | some last =>
      simp only [hcase, Logged.silent_value, reduceCtorEq, Except.error.injEq, Stop.failed.injEq,
        IterationError.maxIterationsExceeded.injEq, false_or] at hvalue
      subst hvalue
      exact (hlast _ hcase).mono (List.subset_append_left _ _)
  | succ remaining ih =>
    rw [bisect] at hvalue ⊢
    cases hstep : iterate targetVmaf bounds attempt model iteration s with
    | error outcome =>
      simp only [hstep] at hvalue ⊢
      rcases iterate_eq_error hstep with ⟨e, -, rfl⟩ | ⟨last, hmeasure, hend⟩
      · simp at hvalue
      · rcases hend with ⟨-, rfl⟩ | ⟨-, rfl, -⟩
        · obtain rfl : last = result := by simpa using hvalue
          exact measured_probeAt hmeasure (List.mem_append_right _ List.mem_cons_self)
        · simp at hvalue
    | ok next =>
      simp only [hstep] at hvalue ⊢
      obtain ⟨last, hmeasure, -, -, -, hnext⟩ := iterate_eq_ok hstep
      have hmem : probeAt bounds attempt model iteration s ∈
          earlier ++ [probeAt bounds attempt model iteration s] :=
        List.mem_append_right _ List.mem_cons_self
      have hlast' : ∀ result, next.last = some result → Measured bounds attempt model
          (earlier ++ [probeAt bounds attempt model iteration s]) result := by
        intro other hother
        obtain rfl := Option.some.inj (hnext.symm.trans hother)
        exact measured_probeAt hmeasure hmem
      have hrest := ih hlast' hvalue
      rwa [List.append_assoc] at hrest

end

/-- A run stays in range exactly if none of its probes is answered against the answer that put
an end of the window there: at the lower end, above zero, with a score below the target, or at
the upper end, below the maximum, with one that is not. -/
theorem runBisection_inRange_iff (targetVmaf : Nat) (bounds : BitrateBounds)
    (attempt : EncodeAttempt) (model : VmafModel) (maxIterations : Nat) :
    InRange targetVmaf bounds attempt model
        (runBisection targetVmaf bounds attempt model maxIterations) ↔
      ∀ p ∈ (runBisection targetVmaf bounds attempt model maxIterations).log,
        ¬p.Crosses targetVmaf := by
  constructor
  · intro h p hp hcross
    exact h.noOverflow (bisect_value_of_crosses hp hcross)
  · intro hcross
    have hready : Search.Ready targetVmaf [] {} :=
      ⟨Window.initial, by decide, nofun⟩
    have hlast : ∀ result, Search.last {} = some result → Measured bounds attempt model [] result :=
      fun _ hsome => nomatch hsome
    obtain ⟨hvalue, hsafe⟩ := bisect_safe hready hcross
    refine ⟨hvalue, fun earlier p later hlog => ?_, fun result hresult => ?_⟩
    · simpa using hsafe earlier p later hlog
    · exact bisect_measured (s := {}) hlast hresult

/-- Scores in the order of the iterations. -/
def scored (scores : List Rat) : EncodeAttempt where
  encodeSample _ _ _ := .ok none
  computeVmaf iteration _ _ := .ok (.finite (scores.getD (iteration - 1) 0))

/-- A score above the target at 23, then four below it, the last one at 24. -/
theorem runBisection_leaves_range :
    ¬InRange 90 {} (scored [95, 80, 80, 80, 80]) .v061
      (runBisection 90 {} (scored [95, 80, 80, 80, 80]) .v061 5) :=
  fun h => h.noOverflow (by decide +kernel)

end Voom.Executors.VmafIterate
