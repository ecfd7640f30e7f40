-- SUMMARY: The subtitle files the generator plugin writes, and what is read back from them.
import Mathlib.Algebra.Order.Floor.Ring
import Mathlib.Data.List.DropRight
import Mathlib.Data.Rat.Floor
import Mathlib.Tactic.Linarith
import Voom.Domain.Json
import Voom.Domain.Text
import Voom.Lib.Runs

/-!
# Subtitles

The segments of a transcript in a foreign language become the cues of an SRT
file. Their texts are pasted between the number and time lines as they are, so a
text with a blank line in front of other lines is not read back, and neither is
a time of more milliseconds than 64 bits hold.
-/

namespace Voom.Plugins

open Lib

/-! ## Writing -/

/-- A segment in a foreign language, with times in seconds. -/
structure SrtSegment where
  start : Rat
  stop : Rat
  text : String
  deriving DecidableEq, Repr

/-- `as u64`: the fraction is cut off, and what does not fit becomes the nearest number that does. -/
def toU64 (x : Rat) : Nat := min ⌊x⌋₊ (2 ^ 64 - 1)

/-- `{:02}` and `{:03}`. -/
def padded (width n : Nat) : List Char := (Nat.toDigits 10 n).leftpad width '0'

def formatTimestamp (seconds : Rat) : List Char :=
  let totalMs := toU64 (seconds * 1000)
  let hours := totalMs / 3600000
  let minutes := totalMs % 3600000 / 60000
  let secs := totalMs % 60000 / 1000
  let ms := totalMs % 1000
  padded 2 hours ++ ':' :: padded 2 minutes ++ ':' :: padded 2 secs ++ ',' :: padded 3 ms

/-- The time line of a segment. -/
def timeLine (seg : SrtSegment) : List Char :=
  formatTimestamp seg.start ++ " --> ".toList ++ formatTimestamp seg.stop

/-- A segment with its place: a blank line stands before all but the first. -/
def formatSegment (seg : SrtSegment) (i : Nat) : List Char :=
  (if i > 0 then ['\n'] else []) ++
    (Nat.toDigits 10 (i + 1) ++ '\n' :: (timeLine seg ++ '\n' :: (seg.text.toList ++ ['\n'])))

def formatSrt (segments : List SrtSegment) : List Char :=
  segments.zipIdx.flatMap fun (seg, i) => formatSegment seg i

/-- The segments with a text in another language than the transcript. -/
def foreignSegments (primaryLanguage : String) (transcript : Json) : List SrtSegment :=
  let detectedLanguage := ((transcript.get "language").bind Json.asStr).getD primaryLanguage
  let segments := ((transcript.get "segments").bind Json.asArray).getD []
  segments.filterMap fun seg => do
    let lang ← (seg.get "language").bind Json.asStr
    let text ← (seg.get "text").bind Json.asStr
    if text = "" ∨ lang = detectedLanguage then none
    else
      let start ← (seg.get "start").bind Json.asF64
      let stop ← (seg.get "end").bind Json.asF64
      return { start, stop, text }

/-! ## Reading -/

/-- A cue, with times in milliseconds. -/
structure Cue where
  number : Nat
  start : Nat
  stop : Nat
  text : List Char
  deriving DecidableEq, Repr

def readTimestamp (text : List Char) : Option Nat :=
  match text.splitOn ':' with
  | [hours, minutes, rest] =>
    match rest.splitOn ',' with
    | [secs, ms] => do
      let hours ← digitsValue hours
      let minutes ← digitsValue minutes
      let secs ← digitsValue secs
      let ms ← digitsValue ms
      if minutes < 60 ∧ secs < 60 ∧ ms < 1000 then
        some (3600000 * hours + 60000 * minutes + 1000 * secs + ms)
      else none
    | _ => none
  | _ => none

def readTimeLine (line : List Char) : Option (Nat × Nat) :=
  match line.splitOn ' ' with
  | [start, arrow, stop] => do
    if arrow = "-->".toList then return (← readTimestamp start, ← readTimestamp stop) else none
  | _ => none

/-- A cue is a number line, a time line and lines of text. -/
def readCue : List (List Char) → Option Cue
  | number :: times :: text => do
    let number ← digitsValue number
    let (start, stop) ← readTimeLine times
    return ⟨number, start, stop, ['\n'].intercalate text⟩
  | _ => none

/-- The cues of a file are separated by blank lines. -/
def readSrt (content : List Char) : Option (List Cue) :=
  (runs List.isEmpty (content.splitOn '\n')).mapM readCue

/-- A text without the line breaks around it. -/
def trimBreaks (text : List Char) : List Char :=
  (text.rdropWhile (· = '\n')).dropWhile (· = '\n')

/-- A cue is that of a segment: its number, its times cut to milliseconds, its text up to line breaks
around it. -/
structure CueOf (number : Nat) (seg : SrtSegment) (cue : Cue) : Prop where
  number : cue.number = number
  start : cue.start = ⌊seg.start * 1000⌋₊
  stop : cue.stop = ⌊seg.stop * 1000⌋₊
  text : trimBreaks cue.text = trimBreaks seg.text.toList

/-- The lines of a text. -/
def textLines (seg : SrtSegment) : List (List Char) := seg.text.toList.splitOn '\n'

/-- No blank line stands in front of another line of the text. -/
def SrtSegment.textTogether (seg : SrtSegment) : Bool :=
  ((textLines seg).dropWhile (!List.isEmpty ·)).all List.isEmpty

/-- Its times in milliseconds fit into 64 bits. -/
def SrtSegment.timesFit (seg : SrtSegment) : Bool :=
  ⌊seg.start * 1000⌋₊ < 2 ^ 64 && ⌊seg.stop * 1000⌋₊ < 2 ^ 64

/-! ## Times -/

theorem isDigit_of_mem_padded {width n : Nat} {c : Char} (h : c ∈ padded width n) :
    c.isDigit = true := by
  unfold padded List.leftpad at h
  obtain h | h := List.mem_append.mp h
  · rw [List.eq_of_mem_replicate h]
    rfl
  · exact Nat.isDigit_of_mem_toDigits (by decide) (by decide) h

theorem notMem_padded {c : Char} (hc : c.isDigit = false) (width n : Nat) : c ∉ padded width n := by
  intro h
  rw [isDigit_of_mem_padded h] at hc
  exact Bool.noConfusion hc

@[simp] theorem digitsValue_padded (width n : Nat) : digitsValue (padded width n) = some n := by
  have hdigits : (padded width n).all Char.isDigit = true :=
    List.all_eq_true.mpr fun c hc => isDigit_of_mem_padded hc
  have hvalue : Nat.ofDigitChars 10 (padded width n) 0 = n := by
    unfold padded List.leftpad
    rw [Nat.ofDigitChars_append, Nat.ofDigitChars_replicate_zero, Nat.mul_zero,
      Nat.ofDigitChars_toDigits (by decide) (by decide)]
  cases hcases : padded width n with
  | nil =>
    have hne : padded width n ≠ [] := by
      unfold padded List.leftpad
      simp
    exact absurd hcases hne
  | cons c rest =>
    rw [hcases] at hdigits hvalue
    simp only [digitsValue, hdigits, if_true]
    exact congrArg some hvalue

theorem readTimestamp_formatTimestamp (seconds : Rat) :
    readTimestamp (formatTimestamp seconds) = some (toU64 (seconds * 1000)) := by
  unfold formatTimestamp
  generalize toU64 (seconds * 1000) = total
  simp only
  have hno : ∀ c, c.isDigit = false → ∀ width n, c ∉ padded width n := fun c hc => notMem_padded hc
  have hrest : ':' ∉ padded 2 (total % 60000 / 1000) ++ ',' :: padded 3 (total % 1000) := by
    simp [hno ':' rfl]
  have hcolons : (padded 2 (total / 3600000) ++ ':' :: padded 2 (total % 3600000 / 60000) ++
      ':' :: padded 2 (total % 60000 / 1000) ++ ',' :: padded 3 (total % 1000)).splitOn ':' =
        [padded 2 (total / 3600000), padded 2 (total % 3600000 / 60000),
          padded 2 (total % 60000 / 1000) ++ ',' :: padded 3 (total % 1000)] := by
    simp only [List.append_assoc, List.cons_append]
    rw [List.splitOn_append_cons_self_of_not_mem (hno ':' rfl _ _),
      List.splitOn_append_cons_self_of_not_mem (hno ':' rfl _ _), List.splitOn_eq_singleton hrest]
  have hcomma : (padded 2 (total % 60000 / 1000) ++ ',' :: padded 3 (total % 1000)).splitOn ',' =
      [padded 2 (total % 60000 / 1000), padded 3 (total % 1000)] := by
    rw [List.splitOn_append_cons_self_of_not_mem (hno ',' rfl _ _),
      List.splitOn_eq_singleton (hno ',' rfl _ _)]
  simp only [readTimestamp, hcolons, hcomma, digitsValue_padded, Option.bind_eq_bind,
    Option.bind_some]
  rw [if_pos (by omega)]
  congr 1
  omega

theorem notMem_formatTimestamp {c : Char} (hdigit : c.isDigit = false) (hcolon : c ≠ ':')
    (hcomma : c ≠ ',') (seconds : Rat) : c ∉ formatTimestamp seconds := by
  have hno := notMem_padded hdigit
  simp [formatTimestamp, hno, hcolon, hcomma]

theorem readTimeLine_timeLine (seg : SrtSegment) :
    readTimeLine (timeLine seg) =
      some (toU64 (seg.start * 1000), toU64 (seg.stop * 1000)) := by
  have hno := notMem_formatTimestamp (c := ' ') rfl (by decide) (by decide)
  have hblanks : (timeLine seg).splitOn ' ' =
      [formatTimestamp seg.start, "-->".toList, formatTimestamp seg.stop] := by
    have harrow : timeLine seg = formatTimestamp seg.start ++
        ' ' :: ("-->".toList ++ ' ' :: formatTimestamp seg.stop) := by simp [timeLine]
    rw [harrow, List.splitOn_append_cons_self_of_not_mem (hno _),
      List.splitOn_append_cons_self_of_not_mem (by decide), List.splitOn_eq_singleton (hno _)]
  simp [readTimeLine, hblanks, readTimestamp_formatTimestamp]

/-- A time fits if and only if it is cut to milliseconds alone. -/
theorem toU64_eq_floor_iff {x : Rat} : toU64 x = ⌊x⌋₊ ↔ ⌊x⌋₊ < 2 ^ 64 := by
  unfold toU64
  omega

/-! ## Texts -/

/-- A blank line behind a text is a line break behind it. -/
theorem intercalate_concat_nil {lines : List (List Char)} (h : lines ≠ []) :
    ['\n'].intercalate (lines ++ [[]]) = ['\n'].intercalate lines ++ ['\n'] := by
  match lines with
  | [] => exact absurd rfl h
  | [line] => simp
  | line :: next :: lines =>
    have ih := intercalate_concat_nil (List.cons_ne_nil next lines)
    simp only [List.cons_append, List.intercalate_cons_cons, List.append_assoc] at ih ⊢
    rw [ih]

theorem trimBreaks_concat (text : List Char) : trimBreaks (text ++ ['\n']) = trimBreaks text := by
  unfold trimBreaks
  rw [List.rdropWhile_concat_pos _ _ _ (by simp)]

/-- Blank lines behind a text change nothing up to line breaks. -/
theorem trimBreaks_append_replicate (lines : List (List Char)) (k : Nat) :
    trimBreaks (['\n'].intercalate (lines ++ List.replicate k [])) =
      trimBreaks (['\n'].intercalate lines) := by
  induction k with
  | zero => simp
  | succ k ih =>
    rw [List.replicate_succ', ← List.append_assoc]
    cases hlines : lines ++ List.replicate k [] with
    | nil =>
      rw [(List.append_eq_nil_iff.mp hlines).1]
      rfl
    | cons line rest => rw [intercalate_concat_nil (List.cons_ne_nil _ _), trimBreaks_concat, ← hlines, ih]

theorem eq_replicate_of_all_isEmpty {lines : List (List Char)} (h : lines.all List.isEmpty = true) :
    lines = List.replicate lines.length [] := by
  apply List.eq_replicate_iff.mpr
  refine ⟨rfl, fun line hline => ?_⟩
  exact List.isEmpty_iff.mp (List.all_eq_true.mp h line hline)

/-- What is read of a text that stays together differs by line breaks behind it. -/
theorem trimBreaks_firstRun {seg : SrtSegment} (h : seg.textTogether = true) :
    trimBreaks (['\n'].intercalate ((textLines seg).takeWhile (!List.isEmpty ·))) =
      trimBreaks seg.text.toList := by
  have htext : ['\n'].intercalate (textLines seg) = seg.text.toList := List.intercalate_splitOn '\n'
  have hsplit := List.takeWhile_append_dropWhile (p := (!List.isEmpty ·)) (l := textLines seg)
  rw [eq_replicate_of_all_isEmpty h] at hsplit
  rw [← htext]
  conv_rhs => rw [← hsplit]
  exact (trimBreaks_append_replicate _ _).symm

/-! ## Cues -/

/-- The lines of a segment in the file. -/
def cueLines (seg : SrtSegment) (i : Nat) : List (List Char) :=
  Nat.toDigits 10 (i + 1) :: timeLine seg :: textLines seg

/-- The first run of its lines, which is all of them unless the text has a blank line. -/
def cueRun (seg : SrtSegment) (i : Nat) : List (List Char) :=
  Nat.toDigits 10 (i + 1) :: timeLine seg :: (textLines seg).takeWhile (!List.isEmpty ·)

theorem runs_cueLines (seg : SrtSegment) (i : Nat) :
    runs List.isEmpty (cueLines seg i) =
      cueRun seg i :: runs List.isEmpty ((textLines seg).dropWhile (!List.isEmpty ·)) := by
  have hnumber : (Nat.toDigits 10 (i + 1)).isEmpty = false := by simp
  have htime : (timeLine seg).isEmpty = false :=
    List.isEmpty_eq_false_iff.mpr (by simp [timeLine])
  have hfront : ∀ line ∈ [Nat.toDigits 10 (i + 1), timeLine seg], line.isEmpty = false := by
    intro line hline
    simp only [List.mem_cons, List.not_mem_nil, or_false] at hline
    obtain rfl | rfl := hline
    · exact hnumber
    · exact htime
  exact runs_append hfront (by simp) (textLines seg)

/-- One run a segment if and only if its text stays together. -/
theorem runs_rest_eq_nil_iff {seg : SrtSegment} :
    runs List.isEmpty ((textLines seg).dropWhile (!List.isEmpty ·)) = [] ↔ seg.textTogether = true := by
  rw [runs_eq_nil_iff, SrtSegment.textTogether, List.all_eq_true]

/-- A segment has its own runs in a file whose rest starts with a line break or is empty. -/
theorem runs_formatSegment_append (seg : SrtSegment) (i : Nat) {rest : List Char}
    {more : List (List Char)} (hrest : rest.splitOn '\n' = [] :: more) :
    runs List.isEmpty ((formatSegment seg i ++ rest).splitOn '\n') =
      runs List.isEmpty (cueLines seg i) ++ runs List.isEmpty (rest.splitOn '\n') := by
  have hnumber : '\n' ∉ Nat.toDigits 10 (i + 1) := by
    intro h
    have hdigit := Nat.isDigit_of_mem_toDigits (by decide) (by decide) h
    exact absurd hdigit (by decide)
  have htime : '\n' ∉ timeLine seg := by
    have hno := notMem_formatTimestamp (c := '\n') rfl (by decide) (by decide)
    simp [timeLine, hno]
  have hlines : (Nat.toDigits 10 (i + 1) ++
      '\n' :: (timeLine seg ++ '\n' :: (seg.text.toList ++ '\n' :: rest))).splitOn '\n' =
        cueLines seg i ++ rest.splitOn '\n' := by
    rw [List.splitOn_append_cons_self_of_not_mem hnumber,
      List.splitOn_append_cons_self_of_not_mem htime, List.splitOn_append_cons_self]
    rfl
  have hruns : runs List.isEmpty (cueLines seg i ++ rest.splitOn '\n') =
      runs List.isEmpty (cueLines seg i) ++ runs List.isEmpty (rest.splitOn '\n') := by
    rw [hrest, runs_append_cons (by rfl), runs_cons_sep (by rfl)]
  rw [← hruns, ← hlines]
  unfold formatSegment
  split
  · have hblank := List.splitOn_append_cons_self_of_not_mem (List.not_mem_nil (a := '\n'))
      (Nat.toDigits 10 (i + 1) ++
        '\n' :: (timeLine seg ++ '\n' :: (seg.text.toList ++ '\n' :: rest)))
    simp only [List.nil_append, List.cons_append, List.append_assoc] at hblank ⊢
    rw [hblank, runs_cons_sep (by rfl)]
  · simp

/-- What stands behind the first segment starts with a line break. -/
theorem splitOn_formatSegments (segments : List SrtSegment) (i : Nat) :
    ∃ more, ((segments.zipIdx (i + 1)).flatMap fun (seg, i) => formatSegment seg i).splitOn '\n' =
      [] :: more := by
  cases segments with
  | nil => exact ⟨[], rfl⟩
  | cons seg segments =>
    obtain ⟨rest, hrest⟩ : ∃ rest, (((seg :: segments).zipIdx (i + 1)).flatMap
        fun (seg, i) => formatSegment seg i) = '\n' :: rest :=
      ⟨_, by simp [formatSegment]; rfl⟩
    rw [hrest]
    exact ⟨_, List.splitOn_append_cons_self_of_not_mem (List.not_mem_nil (a := '\n')) rest⟩

/-- The runs of a segment with its place. -/
def segmentRuns (placed : SrtSegment × Nat) : List (List (List Char)) :=
  runs List.isEmpty (cueLines placed.1 placed.2)

theorem runs_formatSegments (segments : List SrtSegment) (i : Nat) :
    runs List.isEmpty
        (((segments.zipIdx i).flatMap fun (seg, i) => formatSegment seg i).splitOn '\n') =
      (segments.zipIdx i).flatMap segmentRuns := by
  induction segments generalizing i with
  | nil => exact runs_cons_sep (by rfl) []
  | cons seg segments ih =>
    obtain ⟨more, hmore⟩ := splitOn_formatSegments segments i
    simp only [List.zipIdx_cons, List.flatMap_cons]
    rw [runs_formatSegment_append seg i hmore, ih]
    rfl

/-! ## Reading back -/

def SrtSegment.cue (seg : SrtSegment) (i : Nat) : Cue where
  number := i + 1
  start := toU64 (seg.start * 1000)
  stop := toU64 (seg.stop * 1000)
  text := ['\n'].intercalate ((textLines seg).takeWhile (!List.isEmpty ·))

theorem readCue_cueRun (seg : SrtSegment) (i : Nat) : readCue (cueRun seg i) = some (seg.cue i) := by
  simp [readCue, cueRun, readTimeLine_timeLine, SrtSegment.cue]

theorem cueOf_cue_iff {seg : SrtSegment} {i : Nat} (h : seg.textTogether = true) :
    CueOf (i + 1) seg (seg.cue i) ↔ seg.timesFit = true := by
  unfold SrtSegment.timesFit
  rw [Bool.and_eq_true, decide_eq_true_iff, decide_eq_true_iff, ← toU64_eq_floor_iff,
    ← toU64_eq_floor_iff]
  constructor
  · intro hcue
    exact ⟨hcue.start, hcue.stop⟩
  · rintro ⟨hstart, hstop⟩
    exact ⟨rfl, hstart, hstop, trimBreaks_firstRun h⟩

/-- The file of the segments is read as one cue a segment, in order and numbered from 1. -/
def ReadsBack (segments : List SrtSegment) : Prop :=
  ∃ cues, readSrt (formatSrt segments) = some cues ∧
    List.Forall₂ (fun (seg, i) cue => CueOf (i + 1) seg cue) segments.zipIdx cues

theorem mapM_readCue (placed : List (SrtSegment × Nat)) :
    (placed.map fun (seg, i) => cueRun seg i).mapM readCue =
      some (placed.map fun (seg, i) => seg.cue i) := by
  induction placed with
  | nil => rfl
  | cons pair placed ih => simp [readCue_cueRun, ih]

/-- Texts that stay together are read as one cue each. -/
theorem readSrt_of_textTogether {segments : List SrtSegment}
    (h : ∀ seg ∈ segments, seg.textTogether = true) :
    readSrt (formatSrt segments) = some (segments.zipIdx.map fun (seg, i) => seg.cue i) := by
  have hruns : (segments.zipIdx.flatMap segmentRuns) =
      segments.zipIdx.map fun (seg, i) => cueRun seg i := by
    rw [List.map_eq_flatMap]
    apply List.flatMap_congr
    rintro ⟨seg, i⟩ hseg
    have htogether := h seg (List.fst_mem_of_mem_zipIdx hseg)
    unfold segmentRuns
    rw [runs_cueLines, runs_rest_eq_nil_iff.mpr htogether]
  unfold readSrt formatSrt
  rw [runs_formatSegments, hruns, mapM_readCue]

/-- Every segment has a run. -/
theorem length_le_length_runs (segments : List SrtSegment) (i : Nat) : segments.length ≤
    ((segments.zipIdx i).flatMap segmentRuns).length := by
  induction segments generalizing i with
  | nil => exact Nat.le_refl 0
  | cons seg segments ih =>
    have hrest := ih (i + 1)
    have hone : segmentRuns (seg, i) = _ := runs_cueLines seg i
    rw [List.zipIdx_cons, List.flatMap_cons, List.length_append, hone, List.length_cons,
      List.length_cons]
    omega

/-- A segment whose text does not stay together has another run. -/
theorem textTogether_of_length_runs {segments : List SrtSegment} {i : Nat}
    (h : ((segments.zipIdx i).flatMap segmentRuns).length ≤
      segments.length) (seg : SrtSegment) (hseg : seg ∈ segments) : seg.textTogether = true := by
  induction segments generalizing i with
  | nil => exact absurd hseg List.not_mem_nil
  | cons first segments ih =>
    have hrest := length_le_length_runs segments (i + 1)
    have hone : segmentRuns (first, i) = _ := runs_cueLines first i
    rw [List.zipIdx_cons, List.flatMap_cons, List.length_append, hone, List.length_cons,
      List.length_cons] at h
    obtain rfl | hseg := List.mem_cons.mp hseg
    · apply runs_rest_eq_nil_iff.mp
      apply List.length_eq_zero_iff.mp
      omega
    · apply ih (i := i + 1) _ hseg
      omega

theorem length_mapM_readCue {parts : List (List (List Char))} {cues : List Cue}
    (h : parts.mapM readCue = some cues) : parts.length = cues.length := by
  induction parts generalizing cues with
  | nil =>
    cases h
    rfl
  | cons part parts ih =>
    simp only [List.mapM_cons, Option.bind_eq_bind, Option.bind_eq_some_iff] at h
    obtain ⟨cue, -, rest, hrest, h⟩ := h
    cases h
    rw [List.length_cons, List.length_cons, ih hrest]

/-- One cue a segment is read only if the texts stay together. -/
theorem textTogether_of_length {segments : List SrtSegment} {cues : List Cue}
    (h : readSrt (formatSrt segments) = some cues) (hlength : segments.length = cues.length) :
    ∀ seg ∈ segments, seg.textTogether = true := by
  unfold readSrt formatSrt at h
  rw [runs_formatSegments] at h
  intro seg hseg
  apply textTogether_of_length_runs (i := 0) _ seg hseg
  rw [hlength]
  exact (length_mapM_readCue h).le

theorem readsBack_iff (segments : List SrtSegment) :
    ReadsBack segments ↔ ∀ seg ∈ segments, seg.textTogether = true ∧ seg.timesFit = true := by
  constructor
  · rintro ⟨cues, hread, hcues⟩ seg hseg
    have hlength := hcues.length_eq
    rw [List.length_zipIdx] at hlength
    have htogether := textTogether_of_length hread hlength
    refine ⟨htogether seg hseg, ?_⟩
    rw [readSrt_of_textTogether htogether, Option.some.injEq] at hread
    subst hread
    -- The cue read at the place of the segment is its own.
    obtain ⟨⟨seg', i⟩, hplaced, rfl⟩ : ∃ placed ∈ segments.zipIdx, placed.1 = seg :=
      List.mem_map.mp (by rwa [List.zipIdx_map_fst])
    have hcue := List.forall₂_same.mp (List.forall₂_map_right_iff.mp hcues) _ hplaced
    exact (cueOf_cue_iff (htogether _ hseg)).mp hcue
  · intro h
    refine ⟨_, readSrt_of_textTogether fun seg hseg => (h seg hseg).1, ?_⟩
    apply List.forall₂_map_right_iff.mpr
    apply List.forall₂_same.mpr
    rintro ⟨seg, i⟩ hseg
    have hseg := h seg (List.fst_mem_of_mem_zipIdx hseg)
    exact (cueOf_cue_iff hseg.1).mpr hseg.2

/-- The generated file of a transcript is read back as its foreign segments if and only if their
texts stay together and their times fit. -/
theorem foreignSegments_readBack (primaryLanguage : String) (transcript : Json) :
    ReadsBack (foreignSegments primaryLanguage transcript) ↔
      ∀ seg ∈ foreignSegments primaryLanguage transcript,
        seg.textTogether = true ∧ seg.timesFit = true :=
  readsBack_iff _

/-- A transcript of a single German segment. -/
def oneSegment (stop : Int) (text : String) : Json :=
  .object [("language", .string "en"), ("segments", .array [.object [("language", .string "de"),
    ("start", .number (.int 0)), ("end", .number (.int stop)), ("text", .string text)]])]

theorem foreignSegments_oneSegment (stop : Int) {text : String} (h : text ≠ "") :
    foreignSegments "en" (oneSegment stop text) = [⟨0, stop, text⟩] := by
  simp [foreignSegments, oneSegment, Json.get, Json.asStr, Json.asArray, Json.asF64, h]

/-- A text with a blank line is no single cue, and a long time is cut short. -/
theorem blank_line_lost :
    (readSrt (formatSrt (foreignSegments "en" (oneSegment 2 "Guten Tag\n\nWie geht es?"))) = none ∧
      ¬ ReadsBack (foreignSegments "en" (oneSegment 2 "Guten Tag\n\nWie geht es?"))) ∧
    ¬ ReadsBack (foreignSegments "en" (oneSegment (2 ^ 62) "Guten Tag")) := by
  rw [foreignSegments_oneSegment _ (by decide), foreignSegments_oneSegment _ (by decide)]
  refine ⟨⟨by decide +kernel, ?_⟩, ?_⟩
  · intro h
    have htext := ((readsBack_iff _).mp h _ (List.mem_singleton_self _)).1
    exact absurd htext (by decide)
  · intro h
    have htime := ((readsBack_iff _).mp h _ (List.mem_singleton_self _)).2
    exact absurd htime (by decide +kernel)

end Voom.Plugins
