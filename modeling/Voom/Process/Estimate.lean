-- SUMMARY: The preflight estimate of plans, and the gate that skips plans with too little to save.
import Mathlib.Algebra.Order.Floor.Defs
import Mathlib.Data.Rat.Floor
import Voom.Domain.Plan
import Voom.Lib.MachineInt

/-!
# Estimates

An estimate of a plan takes the largest of its actions' output sizes, and an action that is no
transcode counts with the size of the file. Sizes and ratios are exact rationals here. Integers
wrap as in a build without overflow checks; a build with checks stops where one does.
-/

namespace Voom.Process.Estimate

open Lib.MachineInt

/-- `2^63`: the signed integers start over from here. -/
def i64Half : Nat := 9223372036854775808

/-- `2^64`. -/
def u64Size : Nat := 18446744073709551616

/-- `as i64`, and what an `i64` operation leaves. -/
def asI64 (x : Int) : Int := wrapSigned i64Half x

/-- What a `u64` operation leaves. -/
def wrapU64 (n : Nat) : Nat := n % u64Size

/-- `.sum()` of `u64`s. -/
def sumU64 (xs : List Nat) : Nat := wrapSum u64Size xs

/-- `.round() as u64`: halves go away from zero, and the cast saturates. -/
def roundU64 (x : Rat) : Nat := min ⌊x + 1 / 2⌋.toNat (u64Size - 1)

/-! ## The cost model -/

/-- Stable key used to match historical samples to planned operations. -/
structure EstimateOperationKey where
  phaseName : String
  codec : String
  preset : String
  backend : String
  deriving DecidableEq, Repr

/-- Historical cost-model sample for one operation key. -/
structure CostModelSample where
  key : EstimateOperationKey
  pixelsPerSecond : Rat
  outputSizeRatio : Rat
  fixedOverheadMs : Nat

/-- Read-only cost model used by the estimator. -/
structure EstimateModel where
  samples : List CostModelSample := []

def EstimateModel.samplesFor (model : EstimateModel) (key : EstimateOperationKey) :
    List CostModelSample :=
  model.samples.filter (·.key = key)

def defaultFixedActionMs : Nat := 500

def defaultTranscodePixelsPerSecond : Rat := 2000000

def defaultTranscodeSizeRatio : Rat := 65 / 100

structure TranscodeProfile where
  pixelsPerSecond : Rat
  outputSizeRatio : Rat
  fixedOverheadMs : Nat

/-- The element in the middle of the sorted values; the caller has some. -/
def medianRat (values : List Rat) : Rat :=
  (values.mergeSort (fun a b => decide (a ≤ b)))[values.length / 2]?.getD 0

def medianU64 (values : List Nat) : Nat :=
  (values.mergeSort (fun a b => decide (a ≤ b)))[values.length / 2]?.getD 0

def TranscodeProfile.fromSamples (samples : List CostModelSample) : TranscodeProfile :=
  if samples.isEmpty then
    { pixelsPerSecond := defaultTranscodePixelsPerSecond
      outputSizeRatio := defaultTranscodeSizeRatio
      fixedOverheadMs := defaultFixedActionMs }
  else
    { pixelsPerSecond := medianRat (samples.map (·.pixelsPerSecond))
      outputSizeRatio := medianRat (samples.map (·.outputSizeRatio))
      fixedOverheadMs := medianU64 (samples.map (·.fixedOverheadMs)) }

/-! ## One action -/

def videoDimensions (plan : Plan) : Option (Nat × Nat) :=
  plan.file.videoTracks.findSome? fun track =>
    track.width.bind fun width => track.height.map fun height => (width, height)

def missingVideoDimensions (plan : Plan) : Bool :=
  (videoDimensions plan).isNone || plan.file.duration.le (.finite 0)

/-- `duration.max(1.0)`, which a NaN does not win; `none` is infinite. -/
def atLeastOne : F64 → Option Rat
  | .finite seconds => some (max seconds 1)
  | .infinity false => none
  | .infinity true | .nan => some 1

def durationFallbackMs (plan : Plan) (profile : TranscodeProfile) : Nat :=
  let seconds := atLeastOne plan.file.duration
  wrapU64 (seconds.elim (u64Size - 1) (fun s => roundU64 (s * 1000)) + profile.fixedOverheadMs)

/-- `(pixels / pixels_per_second * 1_000.0).round() as u64`. A positive number of pixels divided
by zero is infinite, and zero divided by zero is cast to zero. -/
def encodeMs (pixels pixelsPerSecond : Rat) : Nat :=
  if pixelsPerSecond = 0 then if pixels = 0 then 0 else u64Size - 1
  else roundU64 (pixels / pixelsPerSecond * 1000)

def estimateTranscodeMs (plan : Plan) (profile : TranscodeProfile) : Nat :=
  match videoDimensions plan with
  | none => wrapU64 (profile.fixedOverheadMs + durationFallbackMs plan profile)
  | some (width, height) =>
    let perFrame : Rat := width * height
    let encode :=
      match atLeastOne plan.file.duration with
      | some seconds => encodeMs (perFrame * seconds) profile.pixelsPerSecond
      -- Infinitely many pixels, or a NaN of them; both casts saturate.
      | none => if perFrame = 0 ∨ profile.pixelsPerSecond < 0 then 0 else u64Size - 1
    wrapU64 (profile.fixedOverheadMs + encode)

/-- Estimate for one planned action. -/
structure ActionEstimate where
  operation : OperationType
  codec : Option String
  backend : Option String
  bytesOut : Nat
  computeTimeMs : Nat
  highUncertainty : Bool

def estimateAction (plan : Plan) (action : PlannedAction) (model : EstimateModel) :
    ActionEstimate :=
  match action.parameters with
  | .transcode codec settings =>
    let preset := settings.preset.getD "default"
    let backend := settings.hw.getD "software"
    let samples := model.samplesFor ⟨plan.phaseName, codec, preset, backend⟩
    let profile := TranscodeProfile.fromSamples samples
    { operation := action.operation
      codec := some codec
      backend := some backend
      bytesOut := roundU64 (plan.file.size * profile.outputSizeRatio)
      computeTimeMs := estimateTranscodeMs plan profile
      highUncertainty := decide (samples.length < 5) || missingVideoDimensions plan }
  | _ =>
    { operation := action.operation
      codec := none
      backend := none
      bytesOut := plan.file.size
      computeTimeMs := defaultFixedActionMs
      highUncertainty := false }

/-! ## Plans and runs -/

/-- Estimate for one planned file/phase pair. -/
structure FileEstimate where
  fileId : Uuid
  path : String
  phaseName : String
  bytesIn : Nat
  bytesOut : Nat
  bytesSaved : Int
  computeTimeMs : Nat
  highUncertainty : Bool
  netByteLoss : Bool
  actions : List ActionEstimate

def estimateFile (plan : Plan) (model : EstimateModel) : FileEstimate :=
  let actions := plan.actions.map (estimateAction plan · model)
  let bytesOut := ((actions.map (·.bytesOut)).max?).getD plan.file.size
  let bytesSaved := asI64 (asI64 plan.file.size - asI64 bytesOut)
  { fileId := plan.file.id
    path := plan.file.path.display
    phaseName := plan.phaseName
    bytesIn := plan.file.size
    bytesOut
    bytesSaved
    computeTimeMs := sumU64 (actions.map (·.computeTimeMs))
    highUncertainty := actions.any (·.highUncertainty)
    netByteLoss := decide (bytesSaved < 0)
    actions }

/-- Aggregate estimate for a full planning run. -/
structure EstimateRun where
  fileCount : Nat
  bytesIn : Nat
  bytesOut : Nat
  bytesSaved : Int
  computeTimeMs : Nat
  wallTimeMs : Nat
  highUncertaintyFiles : Nat
  netLossFiles : Nat
  files : List FileEstimate

/-- Estimate all plans in one process or standalone estimate invocation. -/
def estimatePlans (plans : List Plan) (workers : Nat) (model : EstimateModel) : EstimateRun :=
  let files := plans.map (estimateFile · model)
  let bytesIn := sumU64 (files.map (·.bytesIn))
  let bytesOut := sumU64 (files.map (·.bytesOut))
  let computeTimeMs := sumU64 (files.map (·.computeTimeMs))
  let workers := max workers 1
  { fileCount := files.length
    bytesIn
    bytesOut
    bytesSaved := asI64 (asI64 bytesIn - asI64 bytesOut)
    computeTimeMs
    wallTimeMs := (computeTimeMs + workers - 1) / workers
    highUncertaintyFiles := files.countP (·.highUncertainty)
    netLossFiles := files.countP (·.netByteLoss)
    files }

/-- The gate before a plan is executed. -/
def savingsBelowThreshold (plan : Plan) (confirmSavings : Option Nat) (model : EstimateModel) :
    Bool :=
  match confirmSavings with
  | none => false
  | some threshold => decide ((estimatePlans [plan] 1 model).bytesSaved < asI64 threshold)

/-! ## What is expected of them -/

/-- The second list has further metadata edits in it: flags, titles, languages and tags. -/
inductive WithMetadata : List PlannedAction → List PlannedAction → Prop
  | nil : WithMetadata [] []
  | keep {as bs : List PlannedAction} (a : PlannedAction) (h : WithMetadata as bs) :
      WithMetadata (a :: as) (a :: bs)
  | insert {as bs : List PlannedAction} (a : PlannedAction)
      (hmetadata : a.operation.isMetadataOp = true) (h : WithMetadata as bs) :
      WithMetadata as (a :: bs)

/-- The gate compares the estimated saving with the threshold as integers, and edits of metadata
do not matter to it. -/
structure JudgesSizeChanges (model : EstimateModel) (plan : Plan) (threshold : Nat) : Prop where
  exact : savingsBelowThreshold plan (some threshold) model = true ↔
    (plan.file.size : Int) - (estimateFile plan model).bytesOut < threshold
  metadata : ∀ actions, WithMetadata plan.actions actions →
    (estimateFile { plan with actions } model).bytesOut = (estimateFile plan model).bytesOut ∧
    savingsBelowThreshold { plan with actions } (some threshold) model =
      savingsBelowThreshold plan (some threshold) model

/-- The sizes of the files less the estimated ones, as integers. -/
def totalSaved (plans : List Plan) (model : EstimateModel) : Int :=
  ((plans.map (·.file.size)).sum : Nat) -
    ((plans.map fun plan => (estimateFile plan model).bytesOut).sum : Nat)

/-- The totals of a run are the sums over its plans, in any order. -/
structure TotalsAdd (model : EstimateModel) (plans : List Plan) (workers : Nat) : Prop where
  bytesIn : (estimatePlans plans workers model).bytesIn = (plans.map (·.file.size)).sum
  bytesOut : (estimatePlans plans workers model).bytesOut =
    (plans.map fun plan => (estimateFile plan model).bytesOut).sum
  bytesSaved : (estimatePlans plans workers model).bytesSaved = totalSaved plans model
  computeTimeMs : (estimatePlans plans workers model).computeTimeMs =
    (plans.map fun plan => (estimateFile plan model).computeTimeMs).sum
  orderFree : ∀ plans', plans.Perm plans' →
    { estimatePlans plans' workers model with files := [] } =
      { estimatePlans plans workers model with files := [] }

/-- The saving and the threshold are on one side of `2^63`, or so far apart that going round does
not change their order. -/
def Comparable (saved : Int) (threshold : Nat) : Prop :=
  (threshold < i64Half ∧ -i64Half ≤ saved ∧ saved < i64Half) ∨
  (i64Half ≤ threshold ∧ i64Half ≤ saved) ∨
  (i64Half ≤ threshold ∧ -i64Half ≤ saved ∧ saved + u64Size < threshold) ∨
  (threshold < i64Half ∧ saved < -i64Half ∧ saved + u64Size < threshold)

/-- The totals of a run fit their types. -/
structure TotalsFit (model : EstimateModel) (plans : List Plan) : Prop where
  bytesIn : (plans.map (·.file.size)).sum < u64Size
  bytesOut : (plans.map fun plan => (estimateFile plan model).bytesOut).sum < u64Size
  computeTimeMs : (plans.map fun plan => (estimateFile plan model).computeTimeMs).sum < u64Size
  bytesSaved : -(i64Half : Int) ≤ totalSaved plans model ∧ totalSaved plans model < i64Half

/-! ## Sizes -/

/-- Edits of metadata have no transcode parameters. -/
theorem bytesOut_of_metadata {plan : Plan} {model : EstimateModel} {action : PlannedAction}
    (h : action.operation.isMetadataOp = true) :
    (estimateAction plan action model).bytesOut = plan.file.size := by
  have hchecked := action.checked
  unfold estimateAction
  cases hparameters : action.parameters with
  | transcode codec settings =>
    rw [hparameters] at hchecked
    cases hoperation : action.operation with
    | transcodeVideo => rw [hoperation] at h; cases h
    | transcodeAudio => rw [hoperation] at h; cases h
    | _ => rw [hoperation] at hchecked; cases hchecked
  | _ => rfl

theorem estimateFile_bytesOut (plan : Plan) (model : EstimateModel) :
    (estimateFile plan model).bytesOut =
      ((plan.actions.map fun action => (estimateAction plan action model).bytesOut).max?).getD
        plan.file.size := by
  simp only [estimateFile, List.map_map, Function.comp_def]

theorem roundU64_lt (x : Rat) : roundU64 x < u64Size := by
  unfold roundU64 u64Size
  omega

theorem estimateAction_bytesOut_lt {plan : Plan} (hsize : plan.file.size < u64Size)
    (action : PlannedAction) (model : EstimateModel) :
    (estimateAction plan action model).bytesOut < u64Size := by
  unfold estimateAction
  split
  · exact roundU64_lt _
  · exact hsize

theorem estimateFile_bytesOut_lt {plan : Plan} (hsize : plan.file.size < u64Size)
    (model : EstimateModel) : (estimateFile plan model).bytesOut < u64Size := by
  rw [estimateFile_bytesOut]
  cases hmax : (plan.actions.map fun action => (estimateAction plan action model).bytesOut).max? with
  | none => exact hsize
  | some largest =>
    obtain ⟨action, -, rfl⟩ := List.mem_map.mp (List.max?_mem hmax)
    exact estimateAction_bytesOut_lt hsize action model

/-- More elements do not change the largest one, if they are of a size that is reached. -/
theorem max?_getD_eq {xs ys : List Nat} {size : Nat} (hsub : ∀ x ∈ xs, x ∈ ys)
    (hnew : ∀ y ∈ ys, y ∈ xs ∨ y = size) (hreached : xs = [] ∨ ∃ x ∈ xs, size ≤ x) :
    ys.max?.getD size = xs.max?.getD size := by
  cases hys : ys.max? with
  | none =>
    obtain rfl := List.max?_eq_none_iff.mp hys
    have hxs : xs = [] := List.eq_nil_iff_forall_not_mem.mpr fun x hx => by cases hsub x hx
    rw [hxs]
    rfl
  | some m =>
    obtain ⟨hm, hmax⟩ := List.max?_eq_some_iff.mp hys
    rcases hreached with rfl | ⟨x, hx, hle⟩
    · exact (hnew m hm).resolve_left List.not_mem_nil
    · cases hxs : xs.max? with
      | none =>
        rw [List.max?_eq_none_iff.mp hxs] at hx
        cases hx
      | some k =>
        obtain ⟨hk, hkmax⟩ := List.max?_eq_some_iff.mp hxs
        apply Nat.le_antisymm
        · rcases hnew m hm with hmem | rfl
          · exact hkmax m hmem
          · exact hle.trans (hkmax x hx)
        · exact hmax k (hsub k hk)

theorem WithMetadata.mem {as bs : List PlannedAction} (h : WithMetadata as bs)
    {action : PlannedAction} (hmem : action ∈ as) : action ∈ bs := by
  induction h with
  | nil => exact hmem
  | keep a _ ih =>
    rcases List.mem_cons.mp hmem with rfl | hmem
    · exact List.mem_cons_self
    · exact List.mem_cons_of_mem _ (ih hmem)
  | insert a _ _ ih => exact List.mem_cons_of_mem _ (ih hmem)

theorem WithMetadata.new {as bs : List PlannedAction} (h : WithMetadata as bs)
    {action : PlannedAction} (hmem : action ∈ bs) :
    action ∈ as ∨ action.operation.isMetadataOp = true := by
  induction h with
  | nil => exact .inl hmem
  | keep a _ ih =>
    rcases List.mem_cons.mp hmem with rfl | hmem
    · exact .inl List.mem_cons_self
    · exact (ih hmem).imp_left (List.mem_cons_of_mem _)
  | insert a hmetadata _ ih =>
    rcases List.mem_cons.mp hmem with rfl | hmem
    · exact .inr hmetadata
    · exact ih hmem

theorem WithMetadata.refl (as : List PlannedAction) : WithMetadata as as := by
  induction as with
  | nil => exact .nil
  | cons a as ih => exact .keep a ih

/-- The estimated size does not depend on metadata edits if there is nothing to estimate or the
estimate of some action reaches the size of the file. -/
theorem bytesOut_withMetadata {plan : Plan} {model : EstimateModel}
    (hreached : plan.actions = [] ∨
      ∃ action ∈ plan.actions, plan.file.size ≤ (estimateAction plan action model).bytesOut)
    {actions : List PlannedAction} (h : WithMetadata plan.actions actions) :
    (estimateFile { plan with actions } model).bytesOut = (estimateFile plan model).bytesOut := by
  rw [estimateFile_bytesOut, estimateFile_bytesOut]
  apply max?_getD_eq
  · intro size hsize
    obtain ⟨action, haction, rfl⟩ := List.mem_map.mp hsize
    exact List.mem_map.mpr ⟨action, h.mem haction, rfl⟩
  · intro size hsize
    obtain ⟨action, haction, rfl⟩ := List.mem_map.mp hsize
    rcases h.new haction with hmem | hmetadata
    · exact .inl (List.mem_map.mpr ⟨action, hmem, rfl⟩)
    · exact .inr (bytesOut_of_metadata hmetadata)
  · rcases hreached with hnil | ⟨action, haction, hle⟩
    · exact .inl (by rw [hnil]; rfl)
    · exact .inr ⟨_, List.mem_map.mpr ⟨action, haction, rfl⟩, hle⟩

/-- An edit of metadata that any plan may get. -/
def flagEdit : PlannedAction := ⟨.setDefault, none, .empty, "", rfl⟩

/-- Where every action is estimated to shrink the file, a metadata edit undoes that. -/
theorem bytesOut_flagEdit {plan : Plan} {model : EstimateModel}
    (hshrinks : ∀ action ∈ plan.actions, (estimateAction plan action model).bytesOut < plan.file.size) :
    (estimateFile { plan with actions := flagEdit :: plan.actions } model).bytesOut =
      plan.file.size := by
  rw [estimateFile_bytesOut]
  have hmax : (List.map (fun action => (estimateAction { plan with actions := flagEdit :: plan.actions }
      action model).bytesOut) (flagEdit :: plan.actions)).max? = some plan.file.size := by
    rw [List.max?_eq_some_iff]
    constructor
    · exact List.mem_map.mpr ⟨flagEdit, List.mem_cons_self, rfl⟩
    · intro size hsize
      obtain ⟨action, haction, rfl⟩ := List.mem_map.mp hsize
      rcases List.mem_cons.mp haction with rfl | haction
      · exact Nat.le_refl _
      · exact Nat.le_of_lt (hshrinks action haction)
  rw [hmax]
  rfl

/-- A plan of shrinking actions is estimated to shrink. -/
theorem bytesOut_of_shrinks {plan : Plan} {model : EstimateModel} (hactions : plan.actions ≠ [])
    (hshrinks : ∀ action ∈ plan.actions, (estimateAction plan action model).bytesOut < plan.file.size) :
    (estimateFile plan model).bytesOut < plan.file.size := by
  rw [estimateFile_bytesOut]
  cases hmax : (plan.actions.map fun action => (estimateAction plan action model).bytesOut).max? with
  | none => exact absurd (List.map_eq_nil_iff.mp (List.max?_eq_none_iff.mp hmax)) hactions
  | some largest =>
    obtain ⟨action, haction, rfl⟩ := List.mem_map.mp (List.max?_mem hmax)
    exact hshrinks action haction

/-! ## The gate -/

/-- A signed cast of an integer of less than a whole turn. -/
theorem asI64_cases {x : Int} (hlow : -(u64Size : Int) < x) (hhigh : x < u64Size) :
    (x < -i64Half ∧ asI64 x = x + u64Size) ∨
    (-(i64Half : Int) ≤ x ∧ x < i64Half ∧ asI64 x = x) ∨
    ((i64Half : Int) ≤ x ∧ asI64 x = x - u64Size) := by
  unfold asI64 wrapSigned
  simp only [i64Half, u64Size] at *
  omega

/-- Casts keep the order of a saving and a threshold exactly if these are comparable. -/
theorem asI64_lt_iff {saved : Int} {threshold : Nat} (hlow : -(u64Size : Int) < saved)
    (hhigh : saved < u64Size) (hthreshold : threshold < u64Size) :
    (asI64 saved < asI64 threshold ↔ saved < threshold) ↔ Comparable saved threshold := by
  have hsaved := asI64_cases hlow hhigh
  have hcast := asI64_cases (x := threshold) (by simp only [u64Size]; omega)
    (by exact_mod_cast hthreshold)
  unfold Comparable
  simp only [i64Half, u64Size] at *
  omega

theorem savingsBelowThreshold_iff {plan : Plan} {threshold : Nat} {model : EstimateModel}
    (hsize : plan.file.size < u64Size) :
    savingsBelowThreshold plan (some threshold) model = true ↔
      asI64 (plan.file.size - (estimateFile plan model).bytesOut) < asI64 threshold := by
  have hout := estimateFile_bytesOut_lt hsize model
  have hin : (estimatePlans [plan] 1 model).bytesSaved =
      asI64 (plan.file.size - (estimateFile plan model).bytesOut) := by
    simp only [estimatePlans, List.map_cons, List.map_nil, sumU64, wrapSum_eq, List.sum_cons,
      List.sum_nil, Nat.add_zero, Nat.mod_eq_of_lt hout]
    rw [show (estimateFile plan model).bytesIn = plan.file.size from rfl, Nat.mod_eq_of_lt hsize]
    exact wrapSigned_sub _ _ _
  unfold savingsBelowThreshold
  rw [decide_eq_true_iff, hin]

theorem judgesSizeChanges_iff {model : EstimateModel} {plan : Plan} {threshold : Nat}
    (hsize : plan.file.size < u64Size) (hthreshold : threshold < u64Size) :
    JudgesSizeChanges model plan threshold ↔
      Comparable (plan.file.size - (estimateFile plan model).bytesOut) threshold ∧
      (plan.actions = [] ∨
        ∃ action ∈ plan.actions, plan.file.size ≤ (estimateAction plan action model).bytesOut) := by
  have hout := estimateFile_bytesOut_lt hsize model
  have hcomparable := @asI64_lt_iff (plan.file.size - (estimateFile plan model).bytesOut) _
    (by simp only [u64Size] at *; omega) (by simp only [u64Size] at *; omega) hthreshold
  constructor
  · rintro ⟨hexact, hmetadata⟩
    rw [savingsBelowThreshold_iff hsize] at hexact
    refine ⟨hcomparable.mp hexact, ?_⟩
    by_contra hnot
    rw [not_or] at hnot
    have hshrinks : ∀ action ∈ plan.actions,
        (estimateAction plan action model).bytesOut < plan.file.size := by
      intro action haction
      by_contra hle
      exact hnot.2 ⟨action, haction, Nat.le_of_not_lt hle⟩
    obtain ⟨hsame, -⟩ := hmetadata (flagEdit :: plan.actions) (.insert flagEdit rfl (.refl _))
    rw [bytesOut_flagEdit hshrinks] at hsame
    have hlt := bytesOut_of_shrinks hnot.1 hshrinks
    omega
  · rintro ⟨hfits, hreached⟩
    constructor
    · rw [savingsBelowThreshold_iff hsize]
      exact hcomparable.mpr hfits
    · intro actions hactions
      have hsame := bytesOut_withMetadata hreached hactions
      refine ⟨hsame, ?_⟩
      rw [Bool.eq_iff_iff, savingsBelowThreshold_iff hsize, savingsBelowThreshold_iff (by exact hsize),
        hsame]

/-! ## Totals -/

theorem sumU64_eq_iff {xs : List Nat} : sumU64 xs = xs.sum ↔ xs.sum < u64Size := by
  unfold sumU64
  rw [wrapSum_eq]
  constructor
  · intro h
    rw [← h]
    exact Nat.mod_lt _ (by decide)
  · exact Nat.mod_eq_of_lt

theorem sumU64_perm {xs ys : List Nat} (h : xs.Perm ys) : sumU64 xs = sumU64 ys := by
  unfold sumU64
  rw [wrapSum_eq, wrapSum_eq, h.sum_nat]

theorem estimatePlans_perm {plans plans' : List Plan} (h : plans.Perm plans') (workers : Nat)
    (model : EstimateModel) :
    { estimatePlans plans' workers model with files := [] } =
      { estimatePlans plans workers model with files := [] } := by
  have hfiles := (h.map (estimateFile · model)).symm
  simp only [estimatePlans, sumU64_perm (hfiles.map _), hfiles.length_eq, hfiles.countP_eq]

theorem asI64_sumU64 (xs : List Nat) : asI64 (sumU64 xs) = asI64 xs.sum := by
  have hturn : (2 * i64Half : Int) = u64Size := by decide
  apply wrapSigned_congr
  rw [hturn, sumU64, wrapSum_eq, Int.natCast_mod]
  exact Int.mod_modEq _ _

/-- The saving of a run is that of its true totals, taken round. -/
theorem estimatePlans_bytesSaved (plans : List Plan) (workers : Nat) (model : EstimateModel) :
    (estimatePlans plans workers model).bytesSaved = asI64 (totalSaved plans model) := by
  simp only [estimatePlans, List.map_map, Function.comp_def, asI64_sumU64]
  exact wrapSigned_sub _ _ _

theorem totalsAdd_iff (model : EstimateModel) (plans : List Plan) (workers : Nat) :
    TotalsAdd model plans workers ↔ TotalsFit model plans := by
  have hin : (estimatePlans plans workers model).bytesIn = sumU64 (plans.map (·.file.size)) := by
    simp only [estimatePlans, List.map_map, Function.comp_def, estimateFile]
  have hout : (estimatePlans plans workers model).bytesOut =
      sumU64 (plans.map fun plan => (estimateFile plan model).bytesOut) := by
    simp only [estimatePlans, List.map_map, Function.comp_def]
  have htime : (estimatePlans plans workers model).computeTimeMs =
      sumU64 (plans.map fun plan => (estimateFile plan model).computeTimeMs) := by
    simp only [estimatePlans, List.map_map, Function.comp_def]
  have hsaved : (estimatePlans plans workers model).bytesSaved = totalSaved plans model ↔
      -(i64Half : Int) ≤ totalSaved plans model ∧ totalSaved plans model < i64Half := by
    rw [estimatePlans_bytesSaved]
    have hhalf : (0 : Int) < i64Half := by decide
    exact wrapSigned_eq_self_iff hhalf
  constructor
  · rintro ⟨h₁, h₂, h₃, h₄, -⟩
    rw [hin] at h₁
    rw [hout] at h₂
    rw [htime] at h₄
    exact ⟨sumU64_eq_iff.mp h₁, sumU64_eq_iff.mp h₂, sumU64_eq_iff.mp h₄, hsaved.mp h₃⟩
  · rintro ⟨h₁, h₂, h₃, h₄⟩
    refine ⟨?_, ?_, hsaved.mpr h₄, ?_, fun plans' hperm => estimatePlans_perm hperm workers model⟩
    · rw [hin]
      exact sumU64_eq_iff.mpr h₁
    · rw [hout]
      exact sumU64_eq_iff.mpr h₂
    · rw [htime]
      exact sumU64_eq_iff.mpr h₃

/-- The gate judges size-changing work only exactly if the saving and the threshold can be
compared after the casts, and no transcode that is estimated to shrink the file stands alone; the
totals add up exactly if they fit their types. -/
theorem savingsGate_iff (model : EstimateModel) (plan : Plan) (threshold : Nat) (plans : List Plan)
    (workers : Nat) (hsize : plan.file.size < u64Size) (hthreshold : threshold < u64Size) :
    (JudgesSizeChanges model plan threshold ↔
      Comparable (plan.file.size - (estimateFile plan model).bytesOut) threshold ∧
      (plan.actions = [] ∨
        ∃ action ∈ plan.actions, plan.file.size ≤ (estimateAction plan action model).bytesOut)) ∧
    (TotalsAdd model plans workers ↔ TotalsFit model plans) :=
  ⟨judgesSizeChanges_iff hsize hthreshold, totalsAdd_iff model plans workers⟩

/-- A plan that shrinks a file of a thousand bytes, by the ratio for files without samples. -/
def shrinkingPlan : Plan :=
  { id := 0, file := { id := 0, path := ⟨["movie.mkv"]⟩, size := 1000 }, policyName := "archive",
    phaseName := "video",
    actions := [⟨.transcodeVideo, some 0, .transcode "hevc" {}, "", rfl⟩] }

/-- A plan with a metadata edit beside the transcode. -/
theorem savingsGate_mixedPlan :
    (JudgesSizeChanges {} { shrinkingPlan with actions := flagEdit :: shrinkingPlan.actions } 100 ↔
      Comparable (1000 - (estimateFile
        { shrinkingPlan with actions := flagEdit :: shrinkingPlan.actions } {}).bytesOut) 100 ∧
      (flagEdit :: shrinkingPlan.actions = [] ∨ ∃ action ∈ flagEdit :: shrinkingPlan.actions,
        1000 ≤ (estimateAction { shrinkingPlan with actions := flagEdit :: shrinkingPlan.actions }
          action {}).bytesOut)) ∧
    (TotalsAdd {} [shrinkingPlan] 1 ↔ TotalsFit {} [shrinkingPlan]) :=
  savingsGate_iff {} { shrinkingPlan with actions := flagEdit :: shrinkingPlan.actions } 100
    [shrinkingPlan] 1 (by decide) (by decide)

/-- A flag edit beside the transcode takes the saving away. -/
theorem savingsGate_flagEdit :
    ¬JudgesSizeChanges {} shrinkingPlan 100 := by
  intro h
  have hshrinks : ∀ action ∈ shrinkingPlan.actions,
      (estimateAction shrinkingPlan action {}).bytesOut < shrinkingPlan.file.size := by
    decide +kernel
  obtain ⟨hsame, -⟩ := h.metadata (flagEdit :: shrinkingPlan.actions) (.insert flagEdit rfl (.refl _))
  rw [bytesOut_flagEdit hshrinks] at hsame
  exact absurd hsame (Nat.ne_of_gt (bytesOut_of_shrinks (List.cons_ne_nil _ _) hshrinks))

end Voom.Process.Estimate
