-- SUMMARY: Turning detected crops into one crop that no sample would lose picture to.
import Mathlib.Order.Bounds.Basic
import Voom.Domain.Events
import Voom.Domain.Text
import Voom.Lib.Outcome

/-!
# Auto-crop

Crops are ordered edge by edge, and the crop of several samples is their greatest lower bound.
What follows only gives picture back, up to the last adjustment, which takes one column or row
where the output would be odd. `conservativeCrop_wellFormed_iff` says when that leaves a picture.
-/

namespace Voom.Executors.CropDetect

open Lib

/-- Crop rectangle expressed as pixels removed from each source edge. -/
@[ext]
structure CropRect where
  left : Nat
  top : Nat
  right : Nat
  bottom : Nat
  deriving DecidableEq, Repr

/-- The size of a source; the dimensions are `u32`. -/
structure CropDetectSource where
  width : Nat
  height : Nat
  width_lt : width < 2 ^ 32
  height_lt : height < 2 ^ 32

/-- A ratio as `parse` makes it. -/
structure AspectRatio where
  width : Nat
  height : Nat
  width_pos : 0 < width
  height_pos : 0 < height

structure CropDetectConfig where
  minimumCrop : Nat
  preserveBottomPixels : Nat
  aspectLocks : List AspectRatio

inductive Fault where
  | failed (error : VoomError)
  /-- A subtraction below zero. -/
  | underflow
  deriving DecidableEq, Repr

def invalidCrop (message : String) : Fault := .failed (.toolExecution "ffmpeg" message)

/-- `u32::MAX`. -/
def u32Max : Nat := 4294967295

def checkedSub (a b : Nat) : Option Nat := if b ≤ a then some (a - b) else none

/-- `a - b` of unsigned integers. -/
def sub (a b : Nat) : Except Fault Nat := if b ≤ a then .ok (a - b) else .error .underflow

def divCeil (a b : Nat) : Nat := (a + b - 1) / b

/-! ## Detected crops and settings -/

def AspectRatio.parse (value : String) : Option AspectRatio :=
  match value.toList.dropWhile (· ≠ '/') with
  | [] => none
  | _ :: after =>
    match parseUnsigned 32 (String.ofList (value.toList.takeWhile (· ≠ '/'))),
        parseUnsigned 32 (String.ofList after) with
    | some width, some height =>
      if h : 0 < width ∧ 0 < height then some ⟨width, height, h.1, h.2⟩ else none
    | _, _ => none

def defaultMinimumCrop : Nat := 4

def CropDetectConfig.ofSettings (settings : CropSettings) : CropDetectConfig where
  minimumCrop := settings.minimumCrop.getD defaultMinimumCrop
  preserveBottomPixels := settings.preserveBottomPixels.getD 0
  aspectLocks := settings.aspectLock.filterMap AspectRatio.parse

structure DetectedCrop where
  width : Nat
  height : Nat
  x : Nat
  y : Nat

def DetectedCrop.toRect (crop : DetectedCrop) (source : CropDetectSource) : Except Fault CropRect :=
  match (checkedSub source.width crop.x).bind (checkedSub · crop.width) with
  | none => .error (invalidCrop "crop width exceeds source width")
  | some right =>
    match (checkedSub source.height crop.y).bind (checkedSub · crop.height) with
    | none => .error (invalidCrop "crop height exceeds source height")
    | some bottom => .ok ⟨crop.x, crop.y, right, bottom⟩

/-! ## Adjustments -/

def CropRect.edgewiseMin (acc item : CropRect) : CropRect where
  left := min acc.left item.left
  top := min acc.top item.top
  right := min acc.right item.right
  bottom := min acc.bottom item.bottom

def applyMinimumCrop (rect : CropRect) (minimum : Nat) : CropRect :=
  let side value := if value < minimum then 0 else value
  ⟨side rect.left, side rect.top, side rect.right, side rect.bottom⟩

structure OutputDimensions where
  width : Nat
  height : Nat

def OutputDimensions.area (dims : OutputDimensions) : Nat := dims.width * dims.height

def outputDimensions (rect : CropRect) (source : CropDetectSource) :
    Except Fault OutputDimensions :=
  match (checkedSub source.width rect.left).bind (checkedSub · rect.right) with
  | none => .error (invalidCrop "crop removes all source width")
  | some width =>
    match (checkedSub source.height rect.top).bind (checkedSub · rect.bottom) with
    | none => .error (invalidCrop "crop removes all source height")
    | some height =>
      if width = 0 ∨ height = 0 then .error (invalidCrop "crop leaves empty output")
      else .ok { width, height }

/-- The value, rounded up to an even one, if it is a `u32`. -/
def evenU64ToU32 (value : Nat) : Option Nat :=
  let even := value + value % 2
  if even < 2 ^ 64 then if even < 2 ^ 32 then some even else none else none

/-- Give back pixels on both edges of an axis, evenly as far as they go. -/
def expandAxis (startCrop endCrop expandBy : Nat) : Except Fault (Option (Nat × Nat)) :=
  if min (startCrop + endCrop) u32Max < expandBy then .ok none
  else do
    let fromStart := min (expandBy / 2) startCrop
    let remaining ← sub expandBy fromStart
    let fromEnd := min remaining endCrop
    let remaining ← sub remaining fromEnd
    let spare ← sub startCrop fromStart
    if spare < remaining then return none
    else
      let newStart ← sub spare remaining
      let newEnd ← sub endCrop fromEnd
      return some (newStart, newEnd)

def snapToAspect (rect : CropRect) (source : CropDetectSource) (dims : OutputDimensions)
    (ratio : AspectRatio) : Except Fault (Option (CropRect × OutputDimensions)) :=
  let current := dims.width * ratio.height
  let target := dims.height * ratio.width
  if current = target then .ok (some (rect, dims))
  else if target < current then
    match evenU64ToU32 (divCeil (dims.width * ratio.height) ratio.width) with
    | none => .ok none
    | some height =>
      if source.height < height then .ok none
      else do
        let expandBy ← sub height dims.height
        match ← expandAxis rect.top rect.bottom expandBy with
        | none => return none
        | some (top, bottom) => return some ({ rect with top, bottom }, { dims with height })
  else
    match evenU64ToU32 (divCeil (dims.height * ratio.width) ratio.height) with
    | none => .ok none
    | some width =>
      if source.width < width then .ok none
      else do
        let expandBy ← sub width dims.width
        match ← expandAxis rect.left rect.right expandBy with
        | none => return none
        | some (left, right) => return some ({ rect with left, right }, { dims with width })

/-- The better of two candidates, by the pixels they give back; the earlier one if equal. -/
def better (original : OutputDimensions) (best : Option (CropRect × Nat))
    (found : Option (CropRect × OutputDimensions)) : Option (CropRect × Nat) :=
  match found with
  | none => best
  | some (candidate, dims) =>
    let expandedPixels := dims.area - original.area
    if best.all fun b => expandedPixels < b.2 then some (candidate, expandedPixels) else best

def snapToAspectLock (rect : CropRect) (source : CropDetectSource)
    (aspectLocks : List AspectRatio) : Except Fault CropRect :=
  if aspectLocks.isEmpty then .ok rect
  else do
    let original ← outputDimensions rect source
    let best ← aspectLocks.foldlM (fun best ratio => do
      let found ← snapToAspect rect source original ratio
      return better original best found) none
    return best.elim rect Prod.fst

def snapOutputToEven (rect : CropRect) (source : CropDetectSource) : Except Fault CropRect := do
  let dims ← outputDimensions rect source
  let right := if dims.width % 2 ≠ 0 then min (rect.right + 1) u32Max else rect.right
  let bottom := if dims.height % 2 ≠ 0 then min (rect.bottom + 1) u32Max else rect.bottom
  return { rect with right, bottom }

/-- The smallest crop of each edge, after the cutoff and with the bottom preserved. -/
def smallestCrop (first : CropRect) (rest : List CropRect) (config : CropDetectConfig) : CropRect :=
  let rect := applyMinimumCrop (rest.foldl CropRect.edgewiseMin first) config.minimumCrop
  { rect with bottom := rect.bottom - config.preserveBottomPixels }

def conservativeCrop (rects : List CropRect) (source : CropDetectSource)
    (config : CropDetectConfig) : Except Fault (Option CropRect) :=
  match rects with
  | [] => .ok none
  | first :: rest => do
    let rect ← snapToAspectLock (smallestCrop first rest config) source config.aspectLocks
    let rect ← snapOutputToEven rect source
    return some rect

/-! ## The order of crops -/

/-- A smaller crop removes no more from any edge. -/
instance : SemilatticeInf CropRect where
  le a b := a.left ≤ b.left ∧ a.top ≤ b.top ∧ a.right ≤ b.right ∧ a.bottom ≤ b.bottom
  inf := CropRect.edgewiseMin
  le_refl _ := ⟨Nat.le_refl _, Nat.le_refl _, Nat.le_refl _, Nat.le_refl _⟩
  le_trans _ _ _ h₁ h₂ := ⟨h₁.1.trans h₂.1, h₁.2.1.trans h₂.2.1, h₁.2.2.1.trans h₂.2.2.1,
    h₁.2.2.2.trans h₂.2.2.2⟩
  le_antisymm _ _ h₁ h₂ := CropRect.ext (h₁.1.antisymm h₂.1) (h₁.2.1.antisymm h₂.2.1)
    (h₁.2.2.1.antisymm h₂.2.2.1) (h₁.2.2.2.antisymm h₂.2.2.2)
  inf_le_left _ _ := ⟨Nat.min_le_left _ _, Nat.min_le_left _ _, Nat.min_le_left _ _,
    Nat.min_le_left _ _⟩
  inf_le_right _ _ := ⟨Nat.min_le_right _ _, Nat.min_le_right _ _, Nat.min_le_right _ _,
    Nat.min_le_right _ _⟩
  le_inf _ _ _ h₁ h₂ := ⟨Nat.le_min.mpr ⟨h₁.1, h₂.1⟩, Nat.le_min.mpr ⟨h₁.2.1, h₂.2.1⟩,
    Nat.le_min.mpr ⟨h₁.2.2.1, h₂.2.2.1⟩, Nat.le_min.mpr ⟨h₁.2.2.2, h₂.2.2.2⟩⟩

/-- The meet of a nonempty list lies above exactly the lower bounds of its items. -/
theorem le_foldl_edgewiseMin_iff {first rect : CropRect} {rest : List CropRect} :
    rect ≤ rest.foldl CropRect.edgewiseMin first ↔ ∀ item ∈ first :: rest, rect ≤ item := by
  induction rest generalizing first with
  | nil => simp
  | cons next rest ih =>
    have hmeet : rect ≤ first.edgewiseMin next ↔ rect ≤ first ∧ rect ≤ next := le_inf_iff
    simp only [List.foldl_cons, ih, List.forall_mem_cons, hmeet, and_assoc]

theorem applyMinimumCrop_le (rect : CropRect) (minimum : Nat) :
    applyMinimumCrop rect minimum ≤ rect := by
  have hside (value : Nat) : (if value < minimum then 0 else value) ≤ value := by
    split
    · exact Nat.zero_le _
    · exact Nat.le_refl _
  exact ⟨hside _, hside _, hside _, hside _⟩

/-- No sample would have its picture cropped. -/
theorem smallestCrop_le {first : CropRect} {rest : List CropRect} {config : CropDetectConfig}
    {item : CropRect} (hitem : item ∈ first :: rest) :
    smallestCrop first rest config ≤ item := by
  have hmeet := le_foldl_edgewiseMin_iff.mp (le_refl (rest.foldl CropRect.edgewiseMin first))
    item hitem
  have hcut := (applyMinimumCrop_le _ config.minimumCrop).trans hmeet
  obtain ⟨hleft, htop, hright, hbottom⟩ := hcut
  exact ⟨hleft, htop, hright, (Nat.sub_le _ _).trans hbottom⟩

theorem smallestCrop_perm {first first' : CropRect} {rest rest' : List CropRect}
    {config : CropDetectConfig} (h : (first :: rest).Perm (first' :: rest')) :
    smallestCrop first rest config = smallestCrop first' rest' config := by
  have hmeet : rest.foldl CropRect.edgewiseMin first = rest'.foldl CropRect.edgewiseMin first' := by
    apply eq_of_forall_le_iff
    intro rect
    rw [le_foldl_edgewiseMin_iff, le_foldl_edgewiseMin_iff]
    simp only [h.mem_iff]
  unfold smallestCrop
  rw [hmeet]

theorem conservativeCrop_perm {rects rects' : List CropRect} {source : CropDetectSource}
    {config : CropDetectConfig} (h : rects.Perm rects') :
    conservativeCrop rects source config = conservativeCrop rects' source config := by
  cases rects with
  | nil => rw [List.nil_perm.mp h]
  | cons first rest =>
    cases rects' with
    | nil => exact absurd (List.perm_nil.mp h) (List.cons_ne_nil _ _)
    | cons first' rest' =>
      simp only [conservativeCrop, smallestCrop_perm h]

/-! ## Each adjustment -/

theorem sub_eq_ok {a b : Nat} (h : b ≤ a) : sub a b = .ok (a - b) := if_pos h

theorem checkedSub_twice {size start stop left : Nat} :
    (checkedSub size start).bind (checkedSub · stop) = some left ↔ start + stop + left = size := by
  unfold checkedSub
  split
  · rw [Option.bind_some]
    split
    · rw [Option.some_inj]
      omega
    · exact ⟨nofun, fun h => by omega⟩
  · exact ⟨nofun, fun h => by omega⟩

/-- A detected crop that is accepted lies inside the source. -/
theorem DetectedCrop.toRect_inside {crop : DetectedCrop} {source : CropDetectSource}
    {rect : CropRect} (h : crop.toRect source = .ok rect) :
    rect.left + rect.right ≤ source.width ∧ rect.top + rect.bottom ≤ source.height := by
  unfold DetectedCrop.toRect at h
  split at h
  · cases h
  · rename_i right hright
    split at h
    · cases h
    · rename_i bottom hbottom
      obtain rfl := Except.ok.inj h
      have hwidth := checkedSub_twice.mp hright
      have hheight := checkedSub_twice.mp hbottom
      constructor
      · dsimp only
        omega
      · dsimp only
        omega

/-- What is left of a source, where something is. -/
theorem outputDimensions_eq_ok {rect : CropRect} {source : CropDetectSource}
    {dims : OutputDimensions} :
    outputDimensions rect source = .ok dims ↔
      rect.left + rect.right + dims.width = source.width ∧
      rect.top + rect.bottom + dims.height = source.height ∧ 0 < dims.width ∧ 0 < dims.height := by
  rcases dims with ⟨width, height⟩
  rw [← checkedSub_twice, ← checkedSub_twice]
  unfold outputDimensions
  cases (checkedSub source.width rect.left).bind (checkedSub · rect.right) with
  | none => simp
  | some width' =>
    cases (checkedSub source.height rect.top).bind (checkedSub · rect.bottom) with
    | none => simp
    | some height' =>
      dsimp only
      split
      · rename_i hempty
        simp only [reduceCtorEq, Option.some_inj, false_iff]
        omega
      · rename_i hempty
        simp only [Except.ok.injEq, OutputDimensions.mk.injEq, Option.some_inj]
        omega

theorem outputDimensions_eq_error {rect : CropRect} {source : CropDetectSource} {fault : Fault}
    (h : outputDimensions rect source = .error fault) : ∃ message, fault = invalidCrop message := by
  unfold outputDimensions at h
  split at h
  · exact ⟨_, (Except.error.inj h).symm⟩
  · split at h
    · exact ⟨_, (Except.error.inj h).symm⟩
    · split at h
      · exact ⟨_, (Except.error.inj h).symm⟩
      · cases h

/-- Expanding an axis gives back as many pixels as asked for, or does nothing. -/
theorem expandAxis_spec {startCrop endCrop expandBy : Nat} (hfits : startCrop + endCrop ≤ u32Max) :
    expandAxis startCrop endCrop expandBy = .ok none ∨
    ∃ newStart newEnd, expandAxis startCrop endCrop expandBy = .ok (some (newStart, newEnd)) ∧
      newStart ≤ startCrop ∧ newEnd ≤ endCrop ∧
      newStart + newEnd + expandBy = startCrop + endCrop := by
  unfold expandAxis
  rw [Nat.min_eq_left hfits]
  by_cases htoo : startCrop + endCrop < expandBy
  · exact .inl (if_pos htoo)
  · rw [if_neg htoo]
    have hstart : min (expandBy / 2) startCrop ≤ expandBy :=
      (Nat.min_le_left _ _).trans (Nat.div_le_self _ _)
    simp only [sub_eq_ok hstart, sub_eq_ok (Nat.min_le_left _ endCrop),
      sub_eq_ok (Nat.min_le_right _ startCrop), sub_eq_ok (Nat.min_le_right _ endCrop), ok_bind]
    split
    · exact .inl rfl
    · rename_i hspare
      -- what the end cannot give is taken from the start
      rw [sub_eq_ok (Nat.le_of_not_lt hspare), ok_bind]
      exact .inr ⟨_, _, rfl, by omega, by omega, by omega⟩

theorem le_evenU64ToU32 {value even : Nat} (h : evenU64ToU32 value = some even) : value ≤ even := by
  unfold evenU64ToU32 at h
  dsimp only at h
  split at h
  · split at h
    · obtain rfl := Option.some.inj h
      exact Nat.le_add_right _ _
    · cases h
  · cases h

/-- The side that makes up for the other under a ratio is no shorter than it was. -/
theorem le_of_aspect {long short a b even : Nat} (ha : 0 < a) (h : short * a < long * b)
    (heven : evenU64ToU32 (divCeil (long * b) a) = some even) : short ≤ even := by
  apply le_trans _ (le_evenU64ToU32 heven)
  unfold divCeil
  rw [Nat.le_div_iff_mul_le ha]
  omega

/-- Snapping to a ratio gives picture back, or finds no way to. -/
theorem snapToAspect_spec {rect : CropRect} {source : CropDetectSource} {dims : OutputDimensions}
    (hdims : outputDimensions rect source = .ok dims) (ratio : AspectRatio) :
    ∃ found, snapToAspect rect source dims ratio = .ok found ∧
      ∀ snapped ∈ found, snapped.1 ≤ rect := by
  obtain ⟨hwidth, hheight, -, -⟩ := outputDimensions_eq_ok.mp hdims
  have hsize := And.intro source.width_lt source.height_lt
  have hrow : rect.left + rect.right ≤ u32Max := by unfold u32Max; omega
  have hcolumn : rect.top + rect.bottom ≤ u32Max := by unfold u32Max; omega
  unfold snapToAspect
  dsimp only
  split
  · exact ⟨_, rfl, fun snapped hsnapped => by obtain rfl := Option.some.inj hsnapped; exact le_refl _⟩
  split
  · rename_i hwide
    split
    · exact ⟨_, rfl, nofun⟩
    · rename_i height heven
      split
      · exact ⟨_, rfl, nofun⟩
      · rw [sub_eq_ok (le_of_aspect ratio.width_pos hwide heven), ok_bind]
        rcases expandAxis_spec hcolumn with hnone | ⟨top, bottom, hsome, htop, hbottom, -⟩
        · rw [hnone]
          exact ⟨_, rfl, nofun⟩
        · rw [hsome]
          refine ⟨_, rfl, fun snapped hsnapped => ?_⟩
          obtain rfl := Option.some.inj hsnapped
          exact ⟨Nat.le_refl _, htop, Nat.le_refl _, hbottom⟩
  · rename_i hequal hwide
    split
    · exact ⟨_, rfl, nofun⟩
    · rename_i width heven
      split
      · exact ⟨_, rfl, nofun⟩
      · have htall : dims.width * ratio.height < dims.height * ratio.width := by omega
        rw [sub_eq_ok (le_of_aspect ratio.height_pos htall heven), ok_bind]
        rcases expandAxis_spec hrow with hnone | ⟨left, right, hsome, hleft, hright, -⟩
        · rw [hnone]
          exact ⟨_, rfl, nofun⟩
        · rw [hsome]
          refine ⟨_, rfl, fun snapped hsnapped => ?_⟩
          obtain rfl := Option.some.inj hsnapped
          exact ⟨hleft, Nat.le_refl _, hright, Nat.le_refl _⟩

/-- Of the locks the best is taken, each of which gives picture back. -/
theorem foldlM_snapToAspect {rect : CropRect} {source : CropDetectSource}
    {dims : OutputDimensions} (hdims : outputDimensions rect source = .ok dims)
    (locks : List AspectRatio) {best : Option (CropRect × Nat)}
    (hbest : ∀ candidate ∈ best, candidate.1 ≤ rect) :
    ∃ found, locks.foldlM (fun best ratio => do
        let found ← snapToAspect rect source dims ratio
        return better dims best found) best = .ok found ∧
      ∀ candidate ∈ found, candidate.1 ≤ rect := by
  induction locks generalizing best with
  | nil => exact ⟨best, rfl, hbest⟩
  | cons ratio locks ih =>
    obtain ⟨found, hfound, hle⟩ := snapToAspect_spec hdims ratio
    have hbetter : ∀ candidate ∈ better dims best found, candidate.1 ≤ rect := by
      unfold better
      split
      · exact hbest
      · dsimp only
        split
        · rintro _ ⟨⟩
          exact hle _ rfl
        · exact hbest
    rw [List.foldlM_cons, hfound]
    exact ih hbetter

/-- Locking the aspect ends in a crop that gives picture back, or in an error that says that
nothing would be left. -/
theorem snapToAspectLock_spec (rect : CropRect) (source : CropDetectSource)
    (locks : List AspectRatio) :
    (∃ snapped, snapToAspectLock rect source locks = .ok snapped ∧ snapped ≤ rect) ∨
      ∃ message, snapToAspectLock rect source locks = .error (invalidCrop message) := by
  unfold snapToAspectLock
  split
  · exact .inl ⟨rect, rfl, le_refl _⟩
  · cases hdims : outputDimensions rect source with
    | error fault =>
      obtain ⟨message, rfl⟩ := outputDimensions_eq_error hdims
      exact .inr ⟨message, rfl⟩
    | ok dims =>
      obtain ⟨found, hfound, hle⟩ := @foldlM_snapToAspect _ _ _ hdims locks none nofun
      rw [ok_bind, hfound, ok_bind]
      refine .inl ⟨_, rfl, ?_⟩
      cases found with
      | none => exact le_refl _
      | some candidate => exact hle _ rfl

theorem saturating_odd {edge left : Nat} (hfits : edge < u32Max) :
    (if left % 2 ≠ 0 then min (edge + 1) u32Max else edge) = edge + left % 2 := by
  split <;> omega

/-- The last adjustment takes a column and a row where these are odd. -/
theorem snapOutputToEven_eq_ok {rect even : CropRect} {source : CropDetectSource} :
    snapOutputToEven rect source = .ok even ↔
      ∃ dims, outputDimensions rect source = .ok dims ∧
        even = { rect with right := rect.right + dims.width % 2
                           bottom := rect.bottom + dims.height % 2 } := by
  have hsize := And.intro source.width_lt source.height_lt
  unfold snapOutputToEven
  rw [bind_eq_ok]
  apply exists_congr
  intro dims
  apply and_congr_right
  intro hdims
  obtain ⟨hwidth, hheight, hpos⟩ := outputDimensions_eq_ok.mp hdims
  have hright : rect.right < u32Max := by unfold u32Max; omega
  have hbottom : rect.bottom < u32Max := by unfold u32Max; omega
  simp only [saturating_odd hright, saturating_odd hbottom]
  exact ⟨fun h => (Except.ok.inj h).symm, fun h => congrArg Except.ok h.symm⟩

/-! ## The crop -/

/-- A crop that leaves a picture of even size and takes no more from an edge than a sample shows
to be black, up to the pixel that makes the size even. -/
structure WellFormed (rects : List CropRect) (source : CropDetectSource) (rect : CropRect) :
    Prop where
  leavesWidth : rect.left + rect.right < source.width
  leavesHeight : rect.top + rect.bottom < source.height
  evenWidth : (source.width - rect.left - rect.right) % 2 = 0
  evenHeight : (source.height - rect.top - rect.bottom) % 2 = 0
  edges : ∀ detected ∈ rects, rect.left ≤ detected.left ∧ rect.top ≤ detected.top ∧
    rect.right ≤ detected.right + 1 ∧ rect.bottom ≤ detected.bottom + 1

/-- What auto-crop should do with the crops of the samples. -/
structure Conservative (rects : List CropRect) (source : CropDetectSource)
    (config : CropDetectConfig) : Prop where
  noUnderflow : conservativeCrop rects source config ≠ .error .underflow
  orderFree : ∀ rects', rects.Perm rects' →
    conservativeCrop rects' source config = conservativeCrop rects source config
  wellFormed : ∀ rect, conservativeCrop rects source config = .ok (some rect) →
    WellFormed rects source rect

/-- The smallest crop of the samples, with its aspect locked, leaves a single column or row. -/
def LeavesLine (rects : List CropRect) (source : CropDetectSource) (config : CropDetectConfig) :
    Prop :=
  ∃ first rest rect dims, rects = first :: rest ∧
    snapToAspectLock (smallestCrop first rest config) source config.aspectLocks = .ok rect ∧
    outputDimensions rect source = .ok dims ∧ (dims.width = 1 ∨ dims.height = 1)

theorem conservativeCrop_ne_underflow (rects : List CropRect) (source : CropDetectSource)
    (config : CropDetectConfig) : conservativeCrop rects source config ≠ .error .underflow := by
  cases rects with
  | nil => exact nofun
  | cons first rest =>
    rw [conservativeCrop]
    rcases snapToAspectLock_spec (smallestCrop first rest config) source config.aspectLocks with
      ⟨rect, hrect, -⟩ | ⟨message, hmessage⟩
    · rw [hrect, ok_bind]
      unfold snapOutputToEven
      cases hdims : outputDimensions rect source with
      | error fault =>
        obtain ⟨message, rfl⟩ := outputDimensions_eq_error hdims
        exact nofun
      | ok dims => exact nofun
    · rw [hmessage]
      exact nofun

/-- A crop comes from the smallest crop, locked to an aspect and then made even. -/
theorem conservativeCrop_eq_some {rects : List CropRect} {source : CropDetectSource}
    {config : CropDetectConfig} {rect : CropRect} :
    conservativeCrop rects source config = .ok (some rect) ↔
      ∃ first rest locked dims, rects = first :: rest ∧
        snapToAspectLock (smallestCrop first rest config) source config.aspectLocks =
          .ok locked ∧
        outputDimensions locked source = .ok dims ∧
        rect = { locked with right := locked.right + dims.width % 2
                             bottom := locked.bottom + dims.height % 2 } := by
  constructor
  · intro h
    cases rects with
    | nil => cases h
    | cons first rest =>
      obtain ⟨locked, hlocked, h⟩ := bind_eq_ok.mp h
      obtain ⟨even, heven, h⟩ := bind_eq_ok.mp h
      obtain rfl := Option.some.inj (Except.ok.inj h)
      obtain ⟨dims, hdims, heq⟩ := snapOutputToEven_eq_ok.mp heven
      exact ⟨first, rest, locked, dims, rfl, hlocked, hdims, heq⟩
  · rintro ⟨first, rest, locked, dims, rfl, hlocked, hdims, heq⟩
    rw [conservativeCrop, hlocked, ok_bind, snapOutputToEven_eq_ok.mpr ⟨dims, hdims, heq⟩]
    rfl

/-- An edge of the crop that is made even is within a pixel of what each sample shows. -/
theorem edges_of_le {rect locked detected : CropRect} {dims : OutputDimensions}
    (hle : locked ≤ detected)
    (hrect : rect = { locked with right := locked.right + dims.width % 2
                                  bottom := locked.bottom + dims.height % 2 }) :
    rect.left ≤ detected.left ∧ rect.top ≤ detected.top ∧
      rect.right ≤ detected.right + 1 ∧ rect.bottom ≤ detected.bottom + 1 := by
  obtain ⟨hleft, htop, hright, hbottom⟩ := hle
  subst hrect
  refine ⟨hleft, htop, ?_, ?_⟩
  · exact Nat.add_le_add hright (Nat.le_of_lt_succ (Nat.mod_lt _ Nat.two_pos))
  · exact Nat.add_le_add hbottom (Nat.le_of_lt_succ (Nat.mod_lt _ Nat.two_pos))

/-- Auto-crop is conservative exactly if what it makes even is more than a line. -/
theorem conservativeCrop_conservative_iff (rects : List CropRect) (source : CropDetectSource)
    (config : CropDetectConfig) :
    Conservative rects source config ↔ ¬LeavesLine rects source config := by
  constructor
  · rintro h ⟨first, rest, locked, dims, hrects, hlocked, hdims, hline⟩
    obtain ⟨hwidth, hheight, -⟩ := outputDimensions_eq_ok.mp hdims
    have hcrop := h.wellFormed _
      (conservativeCrop_eq_some.mpr ⟨first, rest, locked, dims, hrects, hlocked, hdims, rfl⟩)
    have hleft := hcrop.leavesWidth
    have htop := hcrop.leavesHeight
    -- the adjustment takes the line that was left
    rcases hline with hline | hline
    · rw [hline] at hleft hwidth
      dsimp only at hleft
      omega
    · rw [hline] at htop hheight
      dsimp only at htop
      omega
  · intro hline
    refine ⟨conservativeCrop_ne_underflow rects source config,
      fun rects' hperm => (conservativeCrop_perm hperm).symm, fun rect hrect => ?_⟩
    obtain ⟨first, rest, locked, dims, hrects, hlocked, hdims, heq⟩ :=
      conservativeCrop_eq_some.mp hrect
    obtain ⟨hwidth, hheight, hwide, hhigh⟩ := outputDimensions_eq_ok.mp hdims
    have hmore : dims.width ≠ 1 ∧ dims.height ≠ 1 := by
      constructor
      · exact fun hone => hline ⟨first, rest, locked, dims, hrects, hlocked, hdims, .inl hone⟩
      · exact fun hone => hline ⟨first, rest, locked, dims, hrects, hlocked, hdims, .inr hone⟩
    have hlockedLe : locked ≤ smallestCrop first rest config := by
      rcases snapToAspectLock_spec (smallestCrop first rest config) source config.aspectLocks with
        ⟨snapped, hsnapped, hle⟩ | ⟨message, hmessage⟩
      · obtain rfl := Except.ok.inj (hsnapped.symm.trans hlocked)
        exact hle
      · exact absurd (hmessage.symm.trans hlocked) nofun
    refine ⟨?_, ?_, ?_, ?_, fun detected hdetected => ?_⟩
    · rw [heq]
      dsimp only
      omega
    · rw [heq]
      dsimp only
      omega
    · rw [heq]
      dsimp only
      omega
    · rw [heq]
      dsimp only
      omega
    · rw [hrects] at hdetected
      exact edges_of_le (hlockedLe.trans (smallestCrop_le hdetected)) heq

/-- One sample of a picture that is a column wide, in a source of odd width. -/
theorem conservativeCrop_takes_all :
    ¬Conservative [⟨4, 0, 0, 0⟩] ⟨5, 4, by decide, by decide⟩ (.ofSettings {}) := by
  intro h
  have hcrop : conservativeCrop [⟨4, 0, 0, 0⟩] ⟨5, 4, by decide, by decide⟩ (.ofSettings {}) =
      .ok (some ⟨4, 0, 1, 0⟩) := by decide
  exact absurd (h.wellFormed _ hcrop).leavesWidth (by decide)

end Voom.Executors.CropDetect
