-- SUMMARY: When the transcode settings that the validator accepts have an effect once they are compiled.
import Voom.Dsl.Totality

/-!
# Transcode settings

The validator looks at every occurrence of a key, and for the bit rates at the last one. The
compiler takes the first, and leaves a field out where it cannot read the value.
-/

namespace Voom.Dsl

/-! ## Effect -/

section

variable (settings : List (String × Value)) (compiled : CompiledTranscodeSettings)

/-- A list has an entry for each that is written under its key. -/
def holdsEntries (key : String) (entries : List String) : Bool :=
  match getSetting settings key with
  | some (.list items) => entries.length = items.length
  | _ => false

/-- The keys that the validator knows, with whether what they stand for is set. -/
def transcodeFields : List (String × Bool) :=
  let crop {α : Type} (field : CropSettings → Option α) := (compiled.crop.bind field).isSome
  [ ("preserve", holdsEntries settings "preserve" compiled.preserve),
    ("crf", compiled.crf.isSome),
    ("preset", compiled.preset.isSome),
    ("bitrate", compiled.bitrate.isSome),
    ("target_vmaf", compiled.targetVmaf.isSome),
    ("max_bitrate", compiled.maxBitrate.isSome),
    ("min_bitrate", compiled.minBitrate.isSome),
    ("sample_strategy", compiled.sampleStrategy.isSome),
    ("fallback", compiled.fallback.isSome),
    ("channels", compiled.channels.isSome),
    ("hw", compiled.hw.isSome),
    ("hw_fallback", compiled.hwFallback.isSome),
    ("max_resolution", compiled.maxResolution.isSome),
    ("scale_algorithm", compiled.scaleAlgorithm.isSome),
    ("hdr_mode", compiled.hdrMode.isSome),
    ("preserve_hdr", compiled.preserveHdr.isSome),
    ("tonemap", compiled.tonemap.isSome),
    ("hdr_color_metadata", compiled.hdrColorMetadata.isSome),
    ("dolby_vision", compiled.dolbyVision.isSome),
    ("tune", compiled.tune.isSome),
    ("crop", compiled.crop.isSome),
    ("crop_sample_duration", crop (·.sampleDurationSecs)),
    ("crop_sample_count", crop (·.sampleCount)),
    ("crop_threshold", crop (·.threshold)),
    ("crop_minimum", crop (·.minimumCrop)),
    ("crop_preserve_bottom_pixels", crop (·.preserveBottomPixels)),
    ("crop_aspect_lock",
      compiled.crop.any fun crop => holdsEntries settings "crop_aspect_lock" crop.aspectLock),
    ("normalize", compiled.loudness.isSome) ]

/-- The content type of an override's key. -/
def overrideContent (key : String) : Option String :=
  (stripStart "target_vmaf_when " key).bind (stripStart "content.")

/-- The keys whose value is one of a few names, with these and the field. -/
def namedSettings : List (String × List String × (CompiledTranscodeSettings → Option String)) :=
  [ ("hw", validHwValues, (·.hw)),
    ("hdr_mode", ["preserve", "tonemap"], (·.hdrMode)),
    ("tonemap", ["bt2390", "hable", "mobius", "reinhard", "clip"], (·.tonemap)),
    ("hdr_color_metadata", ["copy"], (·.hdrColorMetadata)),
    ("dolby_vision", ["copy_rpu"], (·.dolbyVision)),
    ("tune",
      ["film", "animation", "grain", "stillimage", "fastdecode", "zerolatency", "psnr", "ssim"],
      (·.tune)),
    ("scale_algorithm",
      ["lanczos", "bicubic", "bilinear", "neighbor", "area", "spline", "sinc"],
      (·.scaleAlgorithm)) ]

def cropKeys : List String :=
  ["crop_sample_duration", "crop_sample_count", "crop_threshold", "crop_minimum",
    "crop_preserve_bottom_pixels", "crop_aspect_lock"]

structure CropBounded (crop : CropSettings) : Prop where
  sampleDuration : ∀ n, crop.sampleDurationSecs = some n → n ≠ 0
  sampleCount : ∀ n, crop.sampleCount = some n → n ≠ 0
  threshold : ∀ n, crop.threshold = some n → n ≤ 255
  minimum : ∀ n, crop.minimumCrop = some n → n ≤ 4294967295
  bottomPixels : ∀ n, crop.preserveBottomPixels = some n → n ≤ 4294967295
  aspectLock : ∀ ratio ∈ crop.aspectLock, isCropRatio ratio = true

/-- Every key that is present sets its field, and the fields keep the bounds of the validator. -/
structure TakesEffect : Prop where
  set : ∀ field ∈ transcodeFields settings compiled, ∀ value, (field.1, value) ∈ settings →
    field.2 = true
  known : ∀ entry ∈ settings, entry.1 ∈ (transcodeFields settings compiled).map (·.1) ∨
    ∃ content, overrideContent entry.1 = some content ∧
      content ∈ (compiled.vmafOverrides.getD []).map (·.1)
  targetVmaf : ∀ target, compiled.targetVmaf = some target → 60 ≤ target ∧ target ≤ 100
  overrides : ∀ entry ∈ compiled.vmafOverrides.getD [], 60 ≤ entry.2 ∧ entry.2 ≤ 100
  minBitrate : ∀ raw, compiled.minBitrate = some raw → (parseBitrate raw).isSome = true
  maxBitrate : ∀ raw, compiled.maxBitrate = some raw → (parseBitrate raw).isSome = true
  bitrates : ∀ low high, compiled.minBitrate.bind parseBitrate = some low →
    compiled.maxBitrate.bind parseBitrate = some high → low ≤ high
  fallback : ∀ fallback, compiled.fallback = some fallback → fallback.crf ≤ 51
  crop : ∀ crop, compiled.crop = some crop → CropBounded crop
  maxResolution : ∀ name, compiled.maxResolution = some name → name ∈ validResolutions
  named : ∀ row ∈ namedSettings, ∀ name, row.2.2 compiled = some name → name ∈ row.2.1

/-- The compiler can read the first value of each key that the validator does not check in full,
and the first bit rates are in order. -/
structure Readable : Prop where
  preserve : ∀ value, getSetting settings "preserve" = some value →
    ∃ items, value = .list items ∧ ∀ item ∈ items, (valueAsString item).isSome = true
  crf : ∀ value, getSetting settings "crf" = some value → (valueAsU32 value).isSome = true
  preset : ∀ value, getSetting settings "preset" = some value → (valueAsName value).isSome = true
  bitrate : ∀ value, getSetting settings "bitrate" = some value →
    (valueAsString value).isSome = true
  channels : ∀ value, getSetting settings "channels" = some value →
    (valueAsName value).isSome = true ∨ (valueAsU32 value).isSome = true
  hwFallback : ∀ value, getSetting settings "hw_fallback" = some value →
    (valueAsBool value).isSome = true
  normalize : ∀ value, getSetting settings "normalize" = some value →
    ((valueAsName value).bind LoudnessPreset.parse).isSome = true
  fallbackPreset : ∀ items, getSetting settings "fallback" = some (.object items) →
    ((getSetting items "preset").bind valueAsName).isSome = true
  bitrates : ∀ low high,
    ((getSetting settings "min_bitrate").bind valueAsString).bind parseBitrate = some low →
    ((getSetting settings "max_bitrate").bind valueAsString).bind parseBitrate = some high →
      low ≤ high

/-! ## What the validator checks -/

/-- What an accepted list of settings for video is. -/
structure Checked : Prop where
  known : ∀ entry ∈ settings, isVmafOverrideKey entry.1 = true ∨ entry.1 ∈ knownTranscodeKeys
  named : ∀ row ∈ namedSettings, ∀ value, (row.1, value) ∈ settings →
    ∃ name, valueAsName value = some name ∧ name ∈ row.2.1
  maxResolution : ∀ value, ("max_resolution", value) ∈ settings →
    ∃ text, valueAsString value = some text ∧ text ∈ validResolutions
  preserveHdr : ∀ value, ("preserve_hdr", value) ∈ settings → (valueAsBool value).isSome = true
  targetVmaf : ∀ value, ("target_vmaf", value) ∈ settings →
    ∃ target, valueAsU32 value = some target ∧ 60 ≤ target ∧ target ≤ 100
  overrides : ∀ entry ∈ settings, isVmafOverrideKey entry.1 = true →
    ∃ content target, vmafOverride entry = some (content, target) ∧
      overrideContent entry.1 = some content ∧ 60 ≤ target ∧ target ≤ 100
  bitrate : ∀ key ∈ ["min_bitrate", "max_bitrate"], ∀ value, (key, value) ∈ settings →
    ∃ raw, valueAsString value = some raw ∧ (parseBitrate raw).isSome = true
  sampleStrategy : ∀ value, ("sample_strategy", value) ∈ settings →
    (parseSampleStrategy (some value)).isSome = true
  fallback : ∀ value, ("fallback", value) ∈ settings → ∃ items crf, value = .object items ∧
    (getSetting items "crf").bind valueAsU32 = some crf ∧ crf ≤ 51
  crop : ∀ value, ("crop", value) ∈ settings → valueAsName value = some "auto"
  cropEnabled : ∀ key ∈ cropKeys, ∀ value, (key, value) ∈ settings →
    ∃ mode, ("crop", mode) ∈ settings
  cropPositive : ∀ key ∈ ["crop_sample_duration", "crop_sample_count"],
    ∀ value, (key, value) ∈ settings → ∃ n, valueAsU32 value = some n ∧ n ≠ 0
  cropThreshold : ∀ value, ("crop_threshold", value) ∈ settings →
    ∃ n, valueAsU32 value = some n ∧ n ≤ 255
  cropPixels : ∀ key ∈ ["crop_minimum", "crop_preserve_bottom_pixels"],
    ∀ value, (key, value) ∈ settings → ∃ n, valueAsU32 value = some n ∧ n ≤ 4294967295
  aspectLock : ∀ value, ("crop_aspect_lock", value) ∈ settings → ∃ items, value = .list items ∧
    ∀ item ∈ items, ∃ ratio, valueAsString item = some ratio ∧ isCropRatio ratio = true

end

variable {settings : List (String × Value)} {codec key : String} {span : Span} {value : Value}

theorem validateIdentAgainst_eq_nil {input kind : String} {known : List String} :
    validateIdentAgainst input kind known span = [] ↔ input ∈ known := by
  unfold validateIdentAgainst
  by_cases hknown : input ∈ known
  · simp [hknown]
  · simp only [hknown, if_false, iff_false]
    split <;> simp

theorem validateIdentSetting_eq_nil {valid : List String} :
    validateIdentSetting value key valid span = [] ↔
      ∃ name, valueAsName value = some name ∧ name ∈ valid := by
  unfold validateIdentSetting
  cases valueAsName value with
  | none => simp
  | some name => simp [validateIdentAgainst_eq_nil]

theorem validateMaxResolution_eq_nil :
    validateMaxResolution value span = [] ↔
      ∃ text, valueAsString value = some text ∧ text ∈ validResolutions := by
  unfold validateMaxResolution
  cases valueAsString value with
  | none => simp
  | some text => simp

theorem validateVmafTarget_eq_nil :
    validateVmafTarget value key span = [] ↔
      ∃ target, valueAsU32 value = some target ∧ 60 ≤ target ∧ target ≤ 100 := by
  unfold validateVmafTarget
  cases valueAsU32 value with
  | none => simp
  | some target => simp

theorem validateCropPositiveInteger_eq_nil :
    validateCropPositiveInteger value key span = [] ↔
      ∃ n, valueAsU32 value = some n ∧ n ≠ 0 := by
  unfold validateCropPositiveInteger
  cases valueAsU32 value with
  | none => simp
  | some n => simp

theorem validateCropIntegerBounds_eq_nil {low high : Nat} :
    validateCropIntegerBounds value key low high span = [] ↔
      ∃ n, valueAsU32 value = some n ∧ low ≤ n ∧ n ≤ high := by
  unfold validateCropIntegerBounds
  cases valueAsU32 value with
  | none => simp
  | some n => simp

theorem validateCropAspectLock_eq_nil :
    validateCropAspectLock value span = [] ↔ ∃ items, value = .list items ∧
      ∀ item ∈ items, ∃ ratio, valueAsString item = some ratio ∧ isCropRatio ratio = true := by
  unfold validateCropAspectLock
  cases value with
  | list items =>
    simp only [List.flatMap_eq_nil_iff, Value.list.injEq, exists_eq_left']
    refine forall₂_congr fun item _ => ?_
    cases valueAsString item with
    | none => simp
    | some ratio => simp
  | _ => simp

theorem validateSampleStrategy_eq_nil (h : validateSampleStrategy value span = []) :
    (parseSampleStrategy (some value)).isSome = true := by
  cases value with
  | ident name =>
    have hname : name = "full" := by
      by_contra hother
      simp [validateSampleStrategy, hother] at h
    rw [hname]
    rfl
  | call name args =>
    by_cases hname : name = "scenes" ∨ name = "uniform"
    · simp only [validateSampleStrategy, hname, if_true, List.append_eq_nil_iff,
        errorUnless_eq_nil, Option.isSome_iff_exists] at h
      obtain ⟨⟨count, hcount⟩, ⟨duration, hduration⟩⟩ := h
      simp only [parseSampleStrategy, hname, if_true, hcount, hduration]
      by_cases hscenes : name = "scenes" <;> simp [hscenes]
    · simp [validateSampleStrategy, hname] at h
  | _ => simp [validateSampleStrategy] at h

theorem validateTranscodeFallback_eq_nil (h : validateTranscodeFallback value span = []) :
    ∃ items crf, value = .object items ∧
      (getSetting items "crf").bind valueAsU32 = some crf ∧ crf ≤ 51 := by
  cases value with
  | object items =>
    simp only [validateTranscodeFallback, List.append_eq_nil_iff] at h
    cases hcrf : (getSetting items "crf").bind valueAsU32 with
    | none => simp [hcrf] at h
    | some crf =>
      simp only [hcrf, errorUnless_eq_nil, decide_eq_true_eq] at h
      exact ⟨items, crf, rfl, hcrf, h.1⟩
  | _ => simp [validateTranscodeFallback] at h

/-! ### The errors of the loop -/

/-- A round adds its errors to those before. -/
theorem validateVmafSetting_errors (span : Span) (check : VmafCheck) (entry : String × Value) :
    (validateVmafSetting span check entry).errors =
      check.errors ++ (validateVmafSetting span {} entry).errors := by
  unfold validateVmafSetting
  dsimp only
  split
  · rfl
  · cases validateBitrateValue entry.2 "min_bitrate" span <;> simp
  · cases validateBitrateValue entry.2 "max_bitrate" span <;> simp
  · rfl
  · rfl
  · split <;> simp

theorem foldl_validateVmafSetting_errors (span : Span) (check : VmafCheck)
    (settings : List (String × Value)) :
    (settings.foldl (validateVmafSetting span) check).errors =
      check.errors ++ settings.flatMap fun entry => (validateVmafSetting span {} entry).errors := by
  induction settings generalizing check with
  | nil => simp
  | cons entry rest ih =>
    rw [List.foldl_cons, ih, validateVmafSetting_errors, List.flatMap_cons, List.append_assoc]

theorem validateVmafSetting_bitrate {entry : String × Value}
    (hkey : entry.1 = "min_bitrate" ∨ entry.1 = "max_bitrate")
    (h : (validateVmafSetting span {} entry).errors = []) :
    ∃ raw, valueAsString entry.2 = some raw ∧ (parseBitrate raw).isSome = true := by
  obtain ⟨key, value⟩ := entry
  have hrate {key : String} (h : ∃ rate, validateBitrateValue value key span = .ok rate) :
      ∃ raw, valueAsString value = some raw ∧ (parseBitrate raw).isSome = true := by
    obtain ⟨rate, hrate⟩ := h
    unfold validateBitrateValue at hrate
    cases htext : valueAsString value with
    | none => simp [htext] at hrate
    | some raw =>
      cases hparsed : parseBitrate raw with
      | none => simp [htext, hparsed] at hrate
      | some _ => exact ⟨raw, rfl, by rw [hparsed]; rfl⟩
  rcases hkey with hkey | hkey
  all_goals
    obtain rfl : key = _ := hkey
    simp only [validateVmafSetting] at h
    split at h
    · exact hrate ⟨_, ‹_›⟩
    · cases h

/-- A key for an override is none of the others. -/
theorem validateVmafSetting_override {entry : String × Value} {path : String}
    (hpath : stripStart "target_vmaf_when " entry.1 = some path) :
    (validateVmafSetting span {} entry).errors = validateVmafOverride path entry.2 span := by
  unfold validateVmafSetting
  dsimp only
  split
  case h_6 => simp [hpath]
  all_goals
    rename_i hkey
    rw [hkey] at hpath
    cases hpath

theorem Checked.of_valid (h : validateTranscodeOperation "video" codec settings span = []) :
    Checked settings := by
  simp only [validateTranscodeOperation, if_true, List.append_eq_nil_iff, validateTranscodeKeys,
    validateHwSettings, validateVideoTranscodeSettings, validateVmafTranscodeSettings,
    foldl_validateVmafSetting_errors, List.nil_append, List.flatMap_eq_nil_iff] at h
  obtain ⟨⟨⟨-, hkeys⟩, hhw, -⟩, hvideo, hvmaf, -⟩ := h
  have hcrop {key : String} {errors : List DslError}
      (h : validateCropEnabled (settings.any fun entry =>
        entry.1 = "crop" ∧ valueAsName entry.2 = some "auto") key span ++ errors = []) :
      (∃ mode, ("crop", mode) ∈ settings) ∧ errors = [] := by
    rw [List.append_eq_nil_iff, validateCropEnabled, errorUnless_eq_nil, List.any_eq_true] at h
    obtain ⟨⟨⟨key, mode⟩, hentry, hmode⟩, herrors⟩ := h
    simp only [decide_eq_true_eq] at hmode
    exact ⟨⟨mode, hmode.1 ▸ hentry⟩, herrors⟩
  constructor
  case known =>
    intro entry hentry
    have hkey := hkeys entry hentry
    split at hkey
    · cases hkey
    · split at hkey
      · exact .inl ‹_›
      · exact .inr (validateIdentAgainst_eq_nil.mp hkey)
  case named =>
    intro row hrow value hmem
    simp only [namedSettings, List.mem_cons, List.not_mem_nil, or_false] at hrow
    rcases hrow with rfl | rfl | rfl | rfl | rfl | rfl | rfl
    · exact validateIdentSetting_eq_nil.mp (hhw _ hmem)
    all_goals exact validateIdentSetting_eq_nil.mp (hvideo _ hmem)
  case maxResolution =>
    exact fun value hmem => validateMaxResolution_eq_nil.mp (hvideo _ hmem)
  case preserveHdr =>
    exact fun value hmem => errorUnless_eq_nil.mp (hvideo _ hmem)
  case targetVmaf =>
    exact fun value hmem => validateVmafTarget_eq_nil.mp (hvmaf _ hmem)
  case overrides =>
    intro entry hentry hoverride
    obtain ⟨path, hpath⟩ := Option.isSome_iff_exists.mp hoverride
    have herrors := hvmaf entry hentry
    rw [validateVmafSetting_override hpath, validateVmafOverride, List.append_eq_nil_iff,
      errorUnless_eq_nil, validateVmafTarget_eq_nil] at herrors
    obtain ⟨hcontent, target, htarget, hbounds⟩ := herrors
    obtain ⟨content, hcontent⟩ := Option.isSome_iff_exists.mp hcontent
    refine ⟨content, target, ?_, ?_, hbounds⟩
    · simp [vmafOverride, hpath, hcontent, htarget]
    · simp [overrideContent, hpath, hcontent]
  case bitrate =>
    intro key hkey value hmem
    exact validateVmafSetting_bitrate (List.mem_pair.mp hkey) (hvmaf _ hmem)
  case sampleStrategy =>
    exact fun value hmem => validateSampleStrategy_eq_nil (hvmaf _ hmem)
  case fallback =>
    exact fun value hmem => validateTranscodeFallback_eq_nil (hvmaf _ hmem)
  case crop =>
    exact fun value hmem => of_decide_eq_true (errorUnless_eq_nil.mp (hvideo _ hmem))
  case cropEnabled =>
    intro key hkey value hmem
    simp only [cropKeys, List.mem_cons, List.not_mem_nil, or_false] at hkey
    rcases hkey with rfl | rfl | rfl | rfl | rfl | rfl
    all_goals exact (hcrop (hvideo _ hmem)).1
  case cropPositive =>
    intro key hkey value hmem
    rcases List.mem_pair.mp hkey with rfl | rfl
    all_goals exact validateCropPositiveInteger_eq_nil.mp (hcrop (hvideo _ hmem)).2
  case cropThreshold =>
    intro value hmem
    obtain ⟨n, hn, -, hbound⟩ := validateCropIntegerBounds_eq_nil.mp (hcrop (hvideo _ hmem)).2
    exact ⟨n, hn, hbound⟩
  case cropPixels =>
    intro key hkey value hmem
    rcases List.mem_pair.mp hkey with rfl | rfl
    all_goals
      obtain ⟨n, hn, -, hbound⟩ := validateCropIntegerBounds_eq_nil.mp (hcrop (hvideo _ hmem)).2
      exact ⟨n, hn, hbound⟩
  case aspectLock =>
    exact fun value hmem => validateCropAspectLock_eq_nil.mp (hcrop (hvideo _ hmem)).2

/-! ## What the compiler reads -/

theorem mem_of_getSetting (h : getSetting settings key = some value) : (key, value) ∈ settings := by
  obtain ⟨entry, hfind, rfl⟩ := Option.map_eq_some_iff.mp h
  have hkey : entry.1 = key := by simpa using List.find?_some hfind
  rw [← hkey]
  exact List.mem_of_find?_eq_some hfind

theorem getSetting_of_mem (h : (key, value) ∈ settings) :
    ∃ first, getSetting settings key = some first := by
  unfold getSetting
  cases hfind : settings.find? (·.1 = key) with
  | none => simpa using List.find?_eq_none.mp hfind _ h
  | some entry => exact ⟨entry.2, rfl⟩

/-- What every occurrence of a key has can be read from the first one. -/
theorem read_of_checked {β : Type} {read : Value → Option β} {P : β → Prop}
    (hchecked : ∀ value, (key, value) ∈ settings → ∃ b, read value = some b ∧ P b) :
    (∀ value, (key, value) ∈ settings → ((getSetting settings key).bind read).isSome = true) ∧
      ∀ b, (getSetting settings key).bind read = some b → P b := by
  constructor
  · intro value hmem
    obtain ⟨first, hfirst⟩ := getSetting_of_mem hmem
    obtain ⟨b, hb, -⟩ := hchecked first (mem_of_getSetting hfirst)
    rw [hfirst, Option.bind_some, hb]
    rfl
  · intro b hb
    obtain ⟨first, hfirst, hread⟩ := Option.bind_eq_some_iff.mp hb
    obtain ⟨b', hb', hP⟩ := hchecked first (mem_of_getSetting hfirst)
    obtain rfl := Option.some.inj (hread.symm.trans hb')
    exact hP

/-- The first occurrence of a key that is present can be read exactly if it can be wherever it is
the first. -/
theorem read_iff_first {β : Type} {read : Value → Option β} :
    (∀ value, (key, value) ∈ settings → ((getSetting settings key).bind read).isSome = true) ↔
      ∀ value, getSetting settings key = some value → (read value).isSome = true := by
  constructor
  · intro hread value hvalue
    simpa [hvalue] using hread value (mem_of_getSetting hvalue)
  · intro hfirst value hmem
    obtain ⟨first, hget⟩ := getSetting_of_mem hmem
    rw [hget, Option.bind_some]
    exact hfirst first hget

theorem holdsEntries_iff {field : List String}
    (hfield : ∀ items, getSetting settings key = some (.list items) →
      field = items.filterMap valueAsString) :
    holdsEntries settings key field = true ↔
      ∃ items, getSetting settings key = some (.list items) ∧
        ∀ item ∈ items, (valueAsString item).isSome = true := by
  unfold holdsEntries
  split
  · rename_i items hitems
    rw [decide_eq_true_eq, hfield items hitems, List.filterMap_length_eq_length, hitems]
    simp
  · rename_i hother
    constructor
    · intro h
      cases h
    · rintro ⟨items, hitems, -⟩
      exact absurd hitems (hother items)

/-! ### Overrides -/

theorem mem_insertOverride {content : String} {target : Nat} {overrides : List (String × Nat)}
    {entry : String × Nat} (h : entry ∈ insertOverride content target overrides) :
    entry = (content, target) ∨ entry ∈ overrides := by
  induction overrides with
  | nil => exact .inl (List.mem_singleton.mp h)
  | cons first rest ih =>
    unfold insertOverride at h
    split at h
    · exact (List.mem_cons.mp h).imp_right (List.mem_cons_of_mem _)
    · rcases List.mem_cons.mp h with rfl | hrest
      · exact .inr List.mem_cons_self
      · exact (ih hrest).imp_right (List.mem_cons_of_mem _)

theorem map_fst_insertOverride (content : String) (target : Nat)
    (overrides : List (String × Nat)) (other : String) :
    other ∈ (insertOverride content target overrides).map (·.1) ↔
      other = content ∨ other ∈ overrides.map (·.1) := by
  induction overrides with
  | nil => simp [insertOverride]
  | cons first rest ih =>
    unfold insertOverride
    split
    · rename_i hsame
      simp [hsame]
    · rw [List.map_cons, List.mem_cons, ih, List.map_cons, List.mem_cons]
      tauto

theorem mem_foldl_insertOverride {entries overrides : List (String × Nat)} {entry : String × Nat}
    (h : entry ∈ entries.foldl
      (fun overrides entry => insertOverride entry.1 entry.2 overrides) overrides) :
    entry ∈ overrides ∨ entry ∈ entries := by
  induction entries generalizing overrides with
  | nil => exact .inl h
  | cons first rest ih =>
    rcases ih h with hinsert | hrest
    · rcases mem_insertOverride hinsert with rfl | hold
      · exact .inr List.mem_cons_self
      · exact .inl hold
    · exact .inr (List.mem_cons_of_mem _ hrest)

theorem map_fst_foldl_insertOverride (entries overrides : List (String × Nat)) (content : String) :
    content ∈ (entries.foldl
        (fun overrides entry => insertOverride entry.1 entry.2 overrides) overrides).map (·.1) ↔
      content ∈ overrides.map (·.1) ∨ content ∈ entries.map (·.1) := by
  induction entries generalizing overrides with
  | nil => simp
  | cons first rest ih =>
    rw [List.foldl_cons, ih, map_fst_insertOverride, List.map_cons, List.mem_cons]
    tauto

theorem parseVmafOverrides_getD (settings : List (String × Value)) :
    (parseVmafOverrides settings).getD [] = (settings.filterMap vmafOverride).foldl
      (fun overrides entry => insertOverride entry.1 entry.2 overrides) [] := by
  unfold parseVmafOverrides
  dsimp only
  split
  · rename_i hnil
    exact hnil.symm
  · rfl

/-! ### Crop -/

/-- A compiled crop has its fields from the first occurrences of the keys. -/
theorem compileCropSettings_some {crop : CropSettings}
    (h : compileCropSettings settings = some crop) :
    crop =
      { sampleDurationSecs := (getSetting settings "crop_sample_duration").bind valueAsU32
        sampleCount := (getSetting settings "crop_sample_count").bind valueAsU32
        threshold := ((getSetting settings "crop_threshold").bind valueAsU32).filter (· < 256)
        minimumCrop := (getSetting settings "crop_minimum").bind valueAsU32
        preserveBottomPixels :=
          (getSetting settings "crop_preserve_bottom_pixels").bind valueAsU32
        aspectLock :=
          match getSetting settings "crop_aspect_lock" with
          | some (.list items) => items.filterMap valueAsString
          | _ => [] } := by
  unfold compileCropSettings at h
  split at h
  · exact (Option.some.inj h).symm
  · cases h

theorem Checked.exists_crop (hchecked : Checked settings) {mode : Value}
    (hmem : ("crop", mode) ∈ settings) : ∃ crop, compileCropSettings settings = some crop := by
  obtain ⟨first, hfirst⟩ := getSetting_of_mem hmem
  have hauto := hchecked.crop first (mem_of_getSetting hfirst)
  unfold compileCropSettings
  rw [hfirst, Option.bind_some, hauto, if_pos rfl]
  exact ⟨_, rfl⟩

/-- A key of the crop gives its field, once the crop is compiled. -/
theorem Checked.crop_isSome {α : Type} {field : CropSettings → Option α}
    (hchecked : Checked settings) (hkey : key ∈ cropKeys)
    (hfield : ∀ crop, compileCropSettings settings = some crop →
      ∀ value, (key, value) ∈ settings → (field crop).isSome = true) :
    ∀ value, (key, value) ∈ settings →
      ((compileCropSettings settings).bind field).isSome = true := by
  intro value hmem
  obtain ⟨mode, hmode⟩ := hchecked.cropEnabled key hkey value hmem
  obtain ⟨crop, hcrop⟩ := hchecked.exists_crop hmode
  rw [hcrop, Option.bind_some]
  exact hfield crop hcrop value hmem

/-- A threshold that is accepted fits a byte. -/
theorem Checked.threshold_filter (hchecked : Checked settings) :
    ((getSetting settings "crop_threshold").bind valueAsU32).filter (· < 256) =
      (getSetting settings "crop_threshold").bind valueAsU32 := by
  cases hread : (getSetting settings "crop_threshold").bind valueAsU32 with
  | none => rfl
  | some n =>
    have hbound := (read_of_checked hchecked.cropThreshold).2 n hread
    rw [Option.filter_some, if_pos]
    simpa using Nat.lt_succ_of_le hbound

theorem Checked.cropBounded (hchecked : Checked settings) {crop : CropSettings}
    (h : compileCropSettings settings = some crop) : CropBounded crop := by
  obtain rfl := compileCropSettings_some h
  constructor
  case sampleDuration =>
    exact (read_of_checked (hchecked.cropPositive _ List.mem_cons_self)).2
  case sampleCount =>
    exact (read_of_checked (hchecked.cropPositive _ (by simp))).2
  case threshold =>
    rw [hchecked.threshold_filter]
    exact (read_of_checked hchecked.cropThreshold).2
  case minimum =>
    exact (read_of_checked (hchecked.cropPixels _ List.mem_cons_self)).2
  case bottomPixels =>
    exact (read_of_checked (hchecked.cropPixels _ (by simp))).2
  case aspectLock =>
    intro ratio hratio
    dsimp only at hratio
    split at hratio
    · rename_i items hitems
      obtain ⟨items', hlist, hratios⟩ := hchecked.aspectLock _ (mem_of_getSetting hitems)
      obtain rfl := Value.list.inj hlist
      obtain ⟨item, hitem, htext⟩ := List.mem_filterMap.mp hratio
      obtain ⟨ratio', htext', hok⟩ := hratios item hitem
      obtain rfl := Option.some.inj (htext.symm.trans htext')
      exact hok
    · cases hratio

theorem Checked.fallback_read (hchecked : Checked settings) (h : ("fallback", value) ∈ settings) :
    (parseTranscodeFallback (some value)).isSome = true ↔
      ∀ items, value = .object items →
        ((getSetting items "preset").bind valueAsName).isSome = true := by
  obtain ⟨items, crf, rfl, hcrf, -⟩ := hchecked.fallback value h
  simp only [parseTranscodeFallback, hcrf, Value.object.injEq, forall_eq']
  cases (getSetting items "preset").bind valueAsName <;> simp

theorem Checked.fallback_crf (hchecked : Checked settings) {fallback : TranscodeFallback}
    (h : parseTranscodeFallback (getSetting settings "fallback") = some fallback) :
    fallback.crf ≤ 51 := by
  cases hget : getSetting settings "fallback" with
  | none => simp [hget, parseTranscodeFallback] at h
  | some value =>
    obtain ⟨items, crf, rfl, hcrf, hbound⟩ := hchecked.fallback value (mem_of_getSetting hget)
    rw [hget] at h
    simp only [parseTranscodeFallback, hcrf] at h
    cases hpreset : (getSetting items "preset").bind valueAsName with
    | none => simp [hpreset] at h
    | some preset =>
      simp only [hpreset] at h
      obtain rfl := Option.some.inj h
      exact hbound

theorem normalizeFromPreset_isSome (value : Value) :
    ((valueAsName value).bind normalizeFromPreset).isSome = true ↔
      ((valueAsName value).bind LoudnessPreset.parse).isSome = true := by
  cases valueAsName value <;> simp [normalizeFromPreset]

theorem compileChannels_isSome (value : Value) :
    (compileChannels value).isSome = true ↔
      (valueAsName value).isSome = true ∨ (valueAsU32 value).isSome = true := by
  cases value <;> simp [compileChannels, valueAsName, valueAsU32]

/-! ## When the settings take effect -/

theorem Checked.known_fields (hchecked : Checked settings) : ∀ entry ∈ settings,
    entry.1 ∈ (transcodeFields settings (compileTranscodeSettings settings)).map (·.1) ∨
      ∃ content, overrideContent entry.1 = some content ∧
        content ∈ ((compileTranscodeSettings settings).vmafOverrides.getD []).map (·.1) := by
  intro entry hentry
  rcases hchecked.known entry hentry with hoverride | hknown
  · right
    obtain ⟨content, target, hread, hcontent, -⟩ := hchecked.overrides entry hentry hoverride
    refine ⟨content, hcontent, ?_⟩
    have hmem : (content, target) ∈ settings.filterMap vmafOverride :=
      List.mem_filterMap.mpr ⟨entry, hentry, hread⟩
    change content ∈ ((parseVmafOverrides settings).getD []).map (·.1)
    rw [parseVmafOverrides_getD, map_fst_foldl_insertOverride]
    exact .inr (List.mem_map_of_mem hmem)
  · exact .inl hknown

theorem Checked.overrides_bounded (hchecked : Checked settings) :
    ∀ entry ∈ (compileTranscodeSettings settings).vmafOverrides.getD [],
      60 ≤ entry.2 ∧ entry.2 ≤ 100 := by
  intro entry hentry
  change entry ∈ (parseVmafOverrides settings).getD [] at hentry
  rw [parseVmafOverrides_getD] at hentry
  have hmem := (mem_foldl_insertOverride hentry).resolve_left List.not_mem_nil
  obtain ⟨setting, hsetting, hread⟩ := List.mem_filterMap.mp hmem
  -- Only a key for an override is read as one.
  have hkey : isVmafOverrideKey setting.1 = true := by
    obtain ⟨path, hpath, -⟩ := Option.bind_eq_some_iff.mp hread
    rw [isVmafOverrideKey, hpath]
    rfl
  obtain ⟨content, target, hread', -, hbounds⟩ := hchecked.overrides setting hsetting hkey
  obtain rfl := Option.some.inj (hread.symm.trans hread')
  exact hbounds

/-- Settings that take effect can be read where they come first. -/
theorem TakesEffect.readable (hchecked : Checked settings)
    (heffect : TakesEffect settings (compileTranscodeSettings settings)) : Readable settings := by
  have hset := heffect.set
  simp only [transcodeFields, List.forall_mem_cons] at hset
  obtain ⟨hpreserve, hcrf, hpreset, hbitrate, -, -, -, -, hfallback, hchannels, -, hhwFallback,
    -, -, -, -, -, -, -, -, -, -, -, -, -, -, -, hnormalize, -⟩ := hset
  constructor
  case preserve =>
    intro value hvalue
    have hholds := hpreserve value (mem_of_getSetting hvalue)
    rw [holdsEntries_iff fun items hitems => by simp [compileTranscodeSettings, hitems]] at hholds
    obtain ⟨items, hitems, hall⟩ := hholds
    exact ⟨items, Option.some.inj (hvalue.symm.trans hitems), hall⟩
  case crf => exact read_iff_first.mp hcrf
  case preset => exact read_iff_first.mp hpreset
  case bitrate => exact read_iff_first.mp hbitrate
  case channels =>
    intro value hvalue
    exact (compileChannels_isSome value).mp (read_iff_first.mp hchannels value hvalue)
  case hwFallback => exact read_iff_first.mp hhwFallback
  case normalize =>
    intro value hvalue
    have hread : (((getSetting settings "normalize").bind valueAsName).bind
        normalizeFromPreset).isSome = true := hnormalize value (mem_of_getSetting hvalue)
    rw [hvalue, Option.bind_some] at hread
    exact (normalizeFromPreset_isSome value).mp hread
  case fallbackPreset =>
    intro items hitems
    have hmem := mem_of_getSetting hitems
    have hsome : (parseTranscodeFallback (getSetting settings "fallback")).isSome = true :=
      hfallback _ hmem
    rw [hitems] at hsome
    exact (hchecked.fallback_read hmem).mp hsome items rfl
  case bitrates => exact heffect.bitrates

/-- Checked settings that can be read where they come first take effect. -/
theorem Readable.takesEffect (hchecked : Checked settings) (hreadable : Readable settings) :
    TakesEffect settings (compileTranscodeSettings settings) := by
  have hnamed := fun row hrow => read_of_checked (hchecked.named row hrow)
  simp only [namedSettings, List.forall_mem_cons] at hnamed
  obtain ⟨hhw, hhdrMode, htonemap, hcolor, hdolby, htune, hscale, -⟩ := hnamed
  have hpositive := fun key hkey => read_of_checked (hchecked.cropPositive key hkey)
  have hpixels := fun key hkey => read_of_checked (hchecked.cropPixels key hkey)
  have hrates := fun key hkey => read_of_checked (hchecked.bitrate key hkey)
  simp only [List.forall_mem_cons] at hpositive hpixels hrates
  have hresolution := read_of_checked hchecked.maxResolution
  have hvmaf := read_of_checked hchecked.targetVmaf
  constructor
  case set =>
    simp only [transcodeFields, List.forall_mem_cons]
    refine ⟨?setPreserve, read_iff_first.mpr hreadable.crf, read_iff_first.mpr hreadable.preset,
      read_iff_first.mpr hreadable.bitrate, hvmaf.1, hrates.2.1.1, hrates.1.1, ?setStrategy,
      ?setFallback, ?setChannels, hhw.1, read_iff_first.mpr hreadable.hwFallback, hresolution.1,
      hscale.1, hhdrMode.1, ?setPreserveHdr, htonemap.1, hcolor.1, hdolby.1, htune.1, ?setCrop,
      hchecked.crop_isSome (by decide) ?setDuration, hchecked.crop_isSome (by decide) ?setCount,
      hchecked.crop_isSome (by decide) ?setThreshold, hchecked.crop_isSome (by decide) ?setMinimum,
      hchecked.crop_isSome (by decide) ?setBottom, ?setAspect, ?setNormalize,
      List.forall_mem_nil _⟩
    case setPreserve =>
      intro value hmem
      obtain ⟨first, hfirst⟩ := getSetting_of_mem hmem
      obtain ⟨items, rfl, hall⟩ := hreadable.preserve first hfirst
      refine (holdsEntries_iff fun items hitems => ?_).mpr ⟨items, hfirst, hall⟩
      simp [compileTranscodeSettings, hitems]
    case setStrategy =>
      intro value hmem
      obtain ⟨first, hfirst⟩ := getSetting_of_mem hmem
      have hread := hchecked.sampleStrategy first (mem_of_getSetting hfirst)
      rwa [← hfirst] at hread
    case setFallback =>
      intro value hmem
      obtain ⟨first, hfirst⟩ := getSetting_of_mem hmem
      have hread := (hchecked.fallback_read (mem_of_getSetting hfirst)).mpr
        fun items hitems => hreadable.fallbackPreset items (hitems ▸ hfirst)
      rwa [← hfirst] at hread
    case setChannels =>
      exact read_iff_first.mpr fun value hvalue =>
        (compileChannels_isSome value).mpr (hreadable.channels value hvalue)
    case setPreserveHdr =>
      exact read_iff_first.mpr fun value hvalue =>
        hchecked.preserveHdr value (mem_of_getSetting hvalue)
    case setCrop =>
      intro value hmem
      exact Option.isSome_iff_exists.mpr (hchecked.exists_crop hmem)
    case setDuration =>
      intro crop hcrop
      rw [compileCropSettings_some hcrop]
      exact hpositive.1.1
    case setCount =>
      intro crop hcrop
      rw [compileCropSettings_some hcrop]
      exact hpositive.2.1.1
    case setThreshold =>
      intro crop hcrop
      rw [compileCropSettings_some hcrop]
      dsimp only
      rw [hchecked.threshold_filter]
      exact (read_of_checked hchecked.cropThreshold).1
    case setMinimum =>
      intro crop hcrop
      rw [compileCropSettings_some hcrop]
      exact hpixels.1.1
    case setBottom =>
      intro crop hcrop
      rw [compileCropSettings_some hcrop]
      exact hpixels.2.1.1
    case setAspect =>
      intro value hmem
      obtain ⟨mode, hmode⟩ := hchecked.cropEnabled _ (by decide) value hmem
      obtain ⟨crop, hcrop⟩ := hchecked.exists_crop hmode
      obtain ⟨first, hfirst⟩ := getSetting_of_mem hmem
      obtain ⟨items, rfl, hratios⟩ := hchecked.aspectLock first (mem_of_getSetting hfirst)
      change (compileCropSettings settings).any _ = true
      rw [hcrop, Option.any_some, compileCropSettings_some hcrop]
      refine (holdsEntries_iff fun items hitems => by rw [hitems]).mpr ⟨items, hfirst, ?_⟩
      intro item hitem
      obtain ⟨ratio, hratio, -⟩ := hratios item hitem
      rw [hratio]
      rfl
    case setNormalize =>
      intro value hmem
      obtain ⟨first, hfirst⟩ := getSetting_of_mem hmem
      have hread := (normalizeFromPreset_isSome first).mpr (hreadable.normalize first hfirst)
      change (((getSetting settings "normalize").bind valueAsName).bind
        normalizeFromPreset).isSome = true
      rwa [hfirst, Option.bind_some]
  case known => exact hchecked.known_fields
  case targetVmaf => exact hvmaf.2
  case overrides => exact hchecked.overrides_bounded
  case minBitrate => exact hrates.1.2
  case maxBitrate => exact hrates.2.1.2
  case bitrates => exact hreadable.bitrates
  case fallback => exact fun fallback hfallback => hchecked.fallback_crf hfallback
  case crop => exact fun crop hcrop => hchecked.cropBounded hcrop
  case maxResolution => exact hresolution.2
  case named =>
    simp only [namedSettings, List.forall_mem_cons]
    exact ⟨hhw.2, hhdrMode.2, htonemap.2, hcolor.2, hdolby.2, htune.2, hscale.2,
      List.forall_mem_nil _⟩

/-- The compiled operation has an effect for every setting, within the bounds of the validator. -/
def CompilesInFull (env : CompileEnv) (codec : String) (settings : List (String × Value)) : Prop :=
  ∃ compiled, compileOperation env (.transcode "video" codec settings) =
      .ok (.transcode .video (canonicalCodec codec) compiled) ∧
    TakesEffect settings compiled

/-- Settings that the validator accepts take effect exactly if the compiler can read the first
value of each key that is not checked in full, and the first bit rates are in order. -/
theorem compilesInFull_iff (env : CompileEnv) (span : Span)
    (hvalid : validateTranscodeOperation "video" codec settings span = []) :
    CompilesInFull env codec settings ↔ Readable settings := by
  have hchecked := Checked.of_valid hvalid
  have hcompiles : compileOperation env (.transcode "video" codec settings) =
      .ok (.transcode .video (canonicalCodec codec) (compileTranscodeSettings settings)) := rfl
  constructor
  · rintro ⟨compiled, hcompiled, heffect⟩
    obtain ⟨-, -, rfl⟩ := CompiledOperation.transcode.inj
      (Except.ok.inj (hcompiles.symm.trans hcompiled))
    exact heffect.readable hchecked
  · intro hreadable
    exact ⟨_, hcompiles, hreadable.takesEffect hchecked⟩

namespace Encodes

def number (n : Nat) : Value := .number (.finite n) (toString n)

/-- A fallback with the preset of an encoder that counts its presets. -/
def countedPreset : List (String × Value) :=
  [("fallback", .object [("crf", number 24), ("preset", number 5)])]

def namedPreset : List (String × Value) :=
  [("crf", number 24), ("preset", .ident "slow"),
    ("fallback", .object [("crf", number 24), ("preset", .ident "slow")])]

end Encodes

theorem namedPreset_compiles :
    CompilesInFull ⟨fun _ => .ok (), fun _ => ""⟩ "av1" Encodes.namedPreset := by
  refine (compilesInFull_iff _ ⟨0, 0, 1, 1⟩ (by decide)).mpr ?_
  constructor
  case crf | preset =>
    intro value hvalue
    obtain rfl := Option.some.inj hvalue
    rfl
  case fallbackPreset =>
    intro items hitems
    obtain rfl := Value.object.inj (Option.some.inj hitems)
    rfl
  all_goals
    intro value
    simp [getSetting, Encodes.namedPreset]

/-- The validator accepts a number for the preset of the fallback, the compiler drops the
fallback. -/
theorem countedPreset_dropped :
    validateTranscodeOperation "video" "av1" Encodes.countedPreset ⟨0, 0, 1, 1⟩ = [] ∧
      ¬ CompilesInFull ⟨fun _ => .ok (), fun _ => ""⟩ "av1" Encodes.countedPreset := by
  refine ⟨by decide, ?_⟩
  rintro ⟨compiled, hcompiled, heffect⟩
  obtain ⟨-, -, rfl⟩ := CompiledOperation.transcode.inj (Except.ok.inj hcompiled)
  have hset := heffect.set ("fallback", _) (by simp [transcodeFields]; rfl) _ List.mem_cons_self
  cases hset

end Voom.Dsl
