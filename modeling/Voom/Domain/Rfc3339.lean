-- SUMMARY: Instants in UTC, the RFC 3339 texts they are stored as, and the order of these texts.
import Mathlib.Algebra.Group.Nat.Defs
import Mathlib.Data.Char
import Mathlib.Data.List.Lex
import Mathlib.Data.Nat.Notation
import Mathlib.Order.Lattice
import Mathlib.Tactic.Common

/-!
# Timestamps

The store keeps instants as texts and compares the texts. A fraction of a second is written in
three, six or nine digits, or not at all, so the texts differ in length. Their order is that of
the instants for years of four digits; earlier years sort in front of them, and so do later ones.
-/

namespace Voom.Rfc3339

/-! ## Instants -/

def isLeapYear (year : Int) : Bool :=
  year % 4 = 0 && (year % 100 ≠ 0 || year % 400 = 0)

def daysInMonth (year : Int) : Nat → Nat
  | 2 => if isLeapYear year then 29 else 28
  | 4 | 6 | 9 | 11 => 30
  | _ => 31

/-- An instant in UTC. A leap second is second 60 of its minute. -/
@[ext] structure DateTime where
  year : Int
  month : Nat
  day : Nat
  hour : Nat
  minute : Nat
  second : Nat
  nanosecond : Nat
  month_range : 1 ≤ month ∧ month ≤ 12
  day_range : 1 ≤ day ∧ day ≤ daysInMonth year month
  hour_lt : hour < 24
  minute_lt : minute < 60
  second_le : second ≤ 60
  nanosecond_lt : nanosecond < 1000000000
  deriving DecidableEq

namespace DateTime

/-! The first value of each field is in its range. -/

theorem month_first : 1 ≤ 1 ∧ 1 ≤ 12 := by decide

theorem hour_first : 0 < 24 := by decide

theorem minute_first : 0 < 60 := by decide

theorem second_first : 0 ≤ 60 := by decide

theorem nanosecond_first : 0 < 1000000000 := by decide

/-- The fields in the order of their weight. -/
def fields (t : DateTime) : List Int :=
  [t.year, t.month, t.day, t.hour, t.minute, t.second, t.nanosecond]

theorem fields_injective : Function.Injective fields := by
  intro a b h
  simp only [fields, List.cons.injEq, Int.natCast_inj, and_true] at h
  obtain ⟨hyear, hmonth, hday, hhour, hminute, hsecond, hnano⟩ := h
  exact DateTime.ext hyear hmonth hday hhour hminute hsecond hnano

/-- Chronological order. -/
instance : LinearOrder DateTime := LinearOrder.lift' fields fields_injective

theorem lt_iff {a b : DateTime} : a < b ↔ a.fields < b.fields := Iff.rfl

theorem day_lt (t : DateTime) : t.day < 100 := by
  have hdays : ∀ month, daysInMonth t.year month ≤ 31 := by
    intro month
    unfold daysInMonth
    split
    · split <;> omega
    · omega
    · omega
    · omega
    · omega
    · omega
  have := t.day_range
  have := hdays t.month
  omega

end DateTime

/-! ## Subtraction -/

/-- A span of time in nanoseconds, of either sign. -/
abbrev Duration := Int

def Duration.days (n : Nat) : Duration := n * 86400000000000

/-- Days since 1970-01-01. Years are counted from March, so that a leap day is their last. -/
def daysFromCivil (year : Int) (month day : Nat) : Int :=
  let year := if month ≤ 2 then year - 1 else year
  let dayOfYear := (153 * ((month + 9) % 12) + 2) / 5 + day - 1
  let dayOfEra := (year % 400) * 365 + (year % 400) / 4 - (year % 400) / 100 + dayOfYear
  (year / 400) * 146097 + dayOfEra - 719468

/-- Year, month and day of a day since 1970-01-01. -/
def civilFromDays (days : Int) : Int × Nat × Nat :=
  let days := days + 719468
  let dayOfEra := (days % 146097).toNat
  let yearOfEra := (dayOfEra - dayOfEra / 1460 + dayOfEra / 36524 - dayOfEra / 146096) / 365
  let dayOfYear := dayOfEra - (365 * yearOfEra + yearOfEra / 4 - yearOfEra / 100)
  let monthFromMarch := (5 * dayOfYear + 2) / 153
  let month := if monthFromMarch < 10 then monthFromMarch + 3 else monthFromMarch - 9
  let year := yearOfEra + days / 146097 * 400
  (if month ≤ 2 then year + 1 else year, month, dayOfYear - (153 * monthFromMarch + 2) / 5 + 1)

/-- The instant with these fields, in the years that the calendar has. -/
def DateTime.ofFields? (year : Int) (month day hour minute second nanosecond : Nat) :
    Option DateTime :=
  if h : (-262143 ≤ year ∧ year ≤ 262142) ∧ (1 ≤ month ∧ month ≤ 12) ∧
      (1 ≤ day ∧ day ≤ daysInMonth year month) ∧ hour < 24 ∧ minute < 60 ∧ second ≤ 60 ∧
      nanosecond < 1000000000 then
    some { year, month, day, hour, minute, second, nanosecond,
           month_range := h.2.1, day_range := h.2.2.1, hour_lt := h.2.2.2.1,
           minute_lt := h.2.2.2.2.1, second_le := h.2.2.2.2.2.1, nanosecond_lt := h.2.2.2.2.2.2 }
  else none

/-- The instant this span earlier, if the calendar has it. -/
def calendarSub (t : DateTime) (d : Duration) : Option DateTime :=
  let nanos := daysFromCivil t.year t.month t.day * 86400000000000 +
    ((t.hour * 60 + t.minute) * 60 + t.second) * 1000000000 + t.nanosecond - d
  let (year, month, day) := civilFromDays (nanos / 86400000000000)
  let rest := (nanos % 86400000000000).toNat
  let seconds := rest / 1000000000
  DateTime.ofFields? year month day (seconds / 3600) (seconds / 60 % 60) (seconds % 60)
    (rest % 1000000000)

/-! ## Texts of numbers -/

def digitChar (d : Nat) : Char := Char.ofNat ('0'.toNat + d)

/-- The last `width` decimal digits, with zeros in front. -/
def digits : Nat → Nat → List Char
  | 0, _ => []
  | width + 1, n => digits width (n / 10) ++ [digitChar (n % 10)]

theorem digitChar_lt {c d : Nat} (hc : c < 10) (hd : d < 10) :
    digitChar c < digitChar d ↔ c < d := by
  have hall : ∀ c : Fin 10, ∀ d : Fin 10, digitChar c.val < digitChar d.val ↔ c.val < d.val := by
    decide
  exact hall ⟨c, hc⟩ ⟨d, hd⟩

theorem digitChar_inj {c d : Nat} (hc : c < 10) (hd : d < 10) :
    digitChar c = digitChar d ↔ c = d := by
  have hall : ∀ c : Fin 10, ∀ d : Fin 10, digitChar c.val = digitChar d.val ↔ c.val = d.val := by
    decide
  exact hall ⟨c, hc⟩ ⟨d, hd⟩

theorem zero_le_digitChar {d : Nat} (hd : d < 10) : '0' ≤ digitChar d := by
  have hall : ∀ d : Fin 10, '0' ≤ digitChar d.val := by decide
  exact hall ⟨d, hd⟩

/-- Blocks of digits of one width compare as their numbers, and what follows decides between
equal ones. -/
theorem digits_append_lt {width m n : Nat} {x y : List Char} (hm : m < 10 ^ width)
    (hn : n < 10 ^ width) : digits width m ++ x < digits width n ++ y ↔ m < n ∨ m = n ∧ x < y := by
  induction width generalizing m n x y with
  | zero =>
    rw [Nat.pow_zero] at hm hn
    have heq : m = n := by omega
    simp [digits, heq]
  | succ width ih =>
    rw [Nat.pow_succ] at hm hn
    have hlast (k : Nat) : k % 10 < 10 := Nat.mod_lt k (by decide)
    simp only [digits, List.append_assoc, List.singleton_append]
    rw [ih (Nat.div_lt_of_lt_mul (by omega)) (Nat.div_lt_of_lt_mul (by omega)),
      List.cons_lt_cons_iff, digitChar_lt (hlast m) (hlast n), digitChar_inj (hlast m) (hlast n)]
    constructor
    · rintro (hlt | ⟨hdiv, hlt | ⟨hmod, hxy⟩⟩)
      · exact .inl (by omega)
      · exact .inl (by omega)
      · exact .inr ⟨by omega, hxy⟩
    · rintro (hlt | ⟨rfl, hxy⟩)
      · omega
      · exact .inr ⟨rfl, .inr ⟨rfl, hxy⟩⟩

/-- A number starts with a digit. -/
theorem digits_succ_eq_cons (width n : Nat) :
    ∃ d rest, d < 10 ∧ digits (width + 1) n = digitChar d :: rest := by
  induction width generalizing n with
  | zero => exact ⟨n % 10, [], Nat.mod_lt n (by decide), rfl⟩
  | succ width ih =>
    obtain ⟨d, rest, hd, heq⟩ := ih (n / 10)
    exact ⟨d, rest ++ [digitChar (n % 10)], hd, by rw [digits, heq, List.cons_append]⟩

/-- A sign or a dot sorts in front of a number. -/
theorem cons_lt_digits {c : Char} (hc : c < '0') (x y : List Char) (width n : Nat) :
    c :: x < digits (width + 1) n ++ y := by
  obtain ⟨d, rest, hd, heq⟩ := digits_succ_eq_cons width n
  rw [heq, List.cons_append, List.cons_lt_cons_iff]
  exact .inl (lt_of_lt_of_le hc (zero_le_digitChar hd))

/-! ## Texts of instants -/

/-- The year in four digits, and with its sign where it has not four. -/
def yearText (year : Int) : List Char :=
  if 0 ≤ year ∧ year ≤ 9999 then digits 4 year.toNat
  else (if year < 0 then '-' else '+') :: (Nat.toDigits 10 year.natAbs).leftpad 4 '0'

/-- `SecondsFormat::AutoSi` -/
def fractionText (nanosecond : Nat) : List Char :=
  if nanosecond = 0 then []
  else if nanosecond % 1000000 = 0 then '.' :: digits 3 (nanosecond / 1000000)
  else if nanosecond % 1000 = 0 then '.' :: digits 6 (nanosecond / 1000)
  else '.' :: digits 9 nanosecond

/-- The offset of UTC, when it is not written as `Z`. -/
def offsetText : List Char := ['+', '0', '0', ':', '0', '0']

def toRfc3339 (t : DateTime) : List Char :=
  yearText t.year ++ '-' :: (digits 2 t.month ++ '-' :: (digits 2 t.day ++ 'T' ::
    (digits 2 t.hour ++ ':' :: (digits 2 t.minute ++ ':' :: (digits 2 t.second ++
      (fractionText t.nanosecond ++ offsetText))))))

/-- Format a datetime as ISO 8601. -/
def formatIso (t : DateTime) : List Char := toRfc3339 t

/-! ## What the texts tell -/

theorem digits_length (width n : Nat) : (digits width n).length = width := by
  induction width generalizing n with
  | zero => rfl
  | succ width ih => rw [digits, List.length_append, ih, List.length_singleton]

theorem digits_inj {width m n : Nat} (hm : m < 10 ^ width) (hn : n < 10 ^ width)
    (h : digits width m = digits width n) : m = n := by
  have hnot {m n : Nat} (hm : m < 10 ^ width) (hn : n < 10 ^ width)
      (h : digits width m = digits width n) : ¬m < n := by
    intro hlt
    have hless : digits width m ++ [] < digits width n ++ [] :=
      (digits_append_lt hm hn).mpr (.inl hlt)
    rw [h] at hless
    exact lt_irrefl _ hless
  exact Nat.le_antisymm (Nat.le_of_not_lt (hnot hn hm h.symm)) (Nat.le_of_not_lt (hnot hm hn h))

theorem isDigit_digits (width n : Nat) : ∀ c ∈ digits width n, c.isDigit = true := by
  induction width generalizing n with
  | zero => exact fun c hc => nomatch hc
  | succ width ih =>
    intro c hc
    rcases List.mem_append.mp hc with hc | hc
    · exact ih (n / 10) c hc
    · obtain rfl := List.mem_singleton.mp hc
      have hall : ∀ d : Fin 10, (digitChar d.val).isDigit = true := by decide
      exact hall ⟨n % 10, Nat.mod_lt n (by decide)⟩

/-- A year without four digits is written with its sign. -/
theorem yearText_signed {year : Int} (h : ¬(0 ≤ year ∧ year ≤ 9999)) :
    ∃ sign rest, (sign = '-' ∧ year < 0 ∨ sign = '+' ∧ 9999 < year) ∧ 4 ≤ rest.length ∧
      yearText year = sign :: rest ∧ Nat.ofDigitChars 10 rest 0 = year.natAbs ∧
      ∀ c ∈ rest, c.isDigit = true := by
  refine ⟨if year < 0 then '-' else '+', (Nat.toDigits 10 year.natAbs).leftpad 4 '0', ?_, ?_, ?_, ?_,
    ?_⟩
  · split
    · exact .inl ⟨rfl, ‹_›⟩
    · exact .inr ⟨rfl, by omega⟩
  · rw [List.length_leftpad]
    exact Nat.le_max_left _ _
  · unfold yearText
    rw [if_neg h]
  · unfold List.leftpad
    rw [Nat.ofDigitChars_append, Nat.ofDigitChars_replicate_zero, Nat.mul_zero,
      Nat.ofDigitChars_toDigits (by decide) (by decide)]
  · unfold List.leftpad
    intro c hc
    rcases List.mem_append.mp hc with hmem | hmem
    · rw [List.eq_of_mem_replicate hmem]
      decide
    · exact Nat.isDigit_of_mem_toDigits (by decide) (by decide) hmem

theorem yearText_inj {y z : Int} (h : yearText y = yearText z) : y = z := by
  have hfour {y : Int} (hy : 0 ≤ y ∧ y ≤ 9999) : yearText y = digits 4 y.toNat := if_pos hy
  by_cases hy : 0 ≤ y ∧ y ≤ 9999
  · by_cases hz : 0 ≤ z ∧ z ≤ 9999
    · rw [hfour hy, hfour hz] at h
      have := digits_inj (by omega) (by omega) h
      omega
    · -- the texts are of different lengths
      obtain ⟨sign, rest, -, hlong, heq, -⟩ := yearText_signed hz
      rw [hfour hy, heq] at h
      have hlength := congrArg List.length h
      rw [digits_length, List.length_cons] at hlength
      omega
  · obtain ⟨sign, rest, hsign, hlong, heq, hvalue, -⟩ := yearText_signed hy
    by_cases hz : 0 ≤ z ∧ z ≤ 9999
    · rw [hfour hz, heq] at h
      have hlength := congrArg List.length h
      rw [digits_length, List.length_cons] at hlength
      omega
    · obtain ⟨sign', rest', hsign', -, heq', hvalue', -⟩ := yearText_signed hz
      rw [heq, heq'] at h
      obtain ⟨rfl, rfl⟩ := List.cons.inj h
      have habs : y.natAbs = z.natAbs := hvalue.symm.trans hvalue'
      rcases hsign with ⟨rfl, hneg⟩ | ⟨rfl, hpos⟩
      · rcases hsign' with ⟨-, hneg'⟩ | ⟨hcontra, -⟩
        · omega
        · exact absurd hcontra (by decide)
      · rcases hsign' with ⟨hcontra, -⟩ | ⟨-, hpos'⟩
        · exact absurd hcontra (by decide)
        · omega

/-- Behind its first character a year has digits only. -/
theorem yearText_cons (year : Int) :
    ∃ first rest, yearText year = first :: rest ∧ ∀ c ∈ rest, c.isDigit = true := by
  by_cases hyear : 0 ≤ year ∧ year ≤ 9999
  · obtain ⟨d, rest, -, heq⟩ := digits_succ_eq_cons 3 year.toNat
    refine ⟨digitChar d, rest, ?_, fun c hc => ?_⟩
    · unfold yearText
      rw [if_pos hyear, heq]
    · exact isDigit_digits 4 year.toNat c (heq ▸ List.mem_cons_of_mem _ hc)
  · obtain ⟨sign, rest, -, -, heq, -, hdigits⟩ := yearText_signed hyear
    exact ⟨sign, rest, heq, hdigits⟩

/-- Two texts that are cut at their first mark. -/
theorem append_cons_inj {α : Type*} {mark : α} {xs xs' ys ys' : List α} (hxs : mark ∉ xs)
    (hxs' : mark ∉ xs') (h : xs ++ mark :: ys = xs' ++ mark :: ys') : xs = xs' ∧ ys = ys' := by
  induction xs generalizing xs' with
  | nil =>
    cases xs' with
    | nil => exact ⟨rfl, (List.cons.inj h).2⟩
    | cons x xs' =>
      obtain ⟨rfl, -⟩ := List.cons.inj h
      exact absurd List.mem_cons_self hxs'
  | cons x xs ih =>
    cases xs' with
    | nil =>
      obtain ⟨rfl, -⟩ := List.cons.inj h
      exact absurd List.mem_cons_self hxs
    | cons x' xs' =>
      rw [List.mem_cons, not_or] at hxs hxs'
      obtain ⟨hx, htail⟩ := List.cons.inj h
      obtain ⟨hrest, hys⟩ := ih hxs.2 hxs'.2 htail
      exact ⟨List.cons_eq_cons.mpr ⟨hx, hrest⟩, hys⟩

/-! ## The order of the texts -/

/-- A fraction in groups of three digits, up to the last group that is not zero. -/
def fractionGroups : Nat → Nat → List Char
  | 0, _ => offsetText
  | groups + 1, n =>
    if n = 0 then offsetText
    else digits 3 (n / 1000 ^ groups) ++ fractionGroups groups (n % 1000 ^ groups)

theorem offset_lt_digits (y : List Char) (width n : Nat) :
    offsetText < digits (width + 1) n ++ y :=
  cons_lt_digits (by decide) _ _ _ _

theorem fractionGroups_lt {groups m n : Nat} (hm : m < 1000 ^ groups) (hn : n < 1000 ^ groups) :
    fractionGroups groups m < fractionGroups groups n ↔ m < n := by
  induction groups generalizing m n with
  | zero =>
    rw [Nat.pow_zero] at hm hn
    have heq : m = n := by omega
    simp [heq]
  | succ groups ih =>
    have hpos : 0 < 1000 ^ groups := Nat.pow_pos (by decide)
    rw [Nat.pow_succ] at hm hn
    simp only [fractionGroups]
    by_cases hm0 : m = 0
    · by_cases hn0 : n = 0
      · simp [hm0, hn0]
      · rw [if_pos hm0, if_neg hn0]
        exact iff_of_true (offset_lt_digits _ _ _) (by omega)
    · by_cases hn0 : n = 0
      · rw [if_neg hm0, if_pos hn0]
        exact iff_of_false (not_lt_of_gt (offset_lt_digits _ _ _)) (by omega)
      · rw [if_neg hm0, if_neg hn0, digits_append_lt (Nat.div_lt_of_lt_mul hm)
          (Nat.div_lt_of_lt_mul hn), ih (Nat.mod_lt m hpos) (Nat.mod_lt n hpos)]
        -- the number is its first group and the rest
        have hsplit (k : Nat) := Nat.div_add_mod k (1000 ^ groups)
        constructor
        · rintro (hlt | ⟨hdiv, hlt⟩)
          · exact Nat.lt_of_div_lt_div hlt
          · rw [← hsplit m, ← hsplit n, hdiv]
            omega
        · intro hlt
          rcases Nat.lt_or_eq_of_le (Nat.div_le_div_right (c := 1000 ^ groups) hlt.le) with h | h
          · exact .inl h
          · refine .inr ⟨h, ?_⟩
            rw [← hsplit m, ← hsplit n, h] at hlt
            omega

/-- A number of more digits is the number in front and the number behind. -/
theorem digits_add (v w m n : Nat) (hn : n < 10 ^ w) :
    digits (v + w) (m * 10 ^ w + n) = digits v m ++ digits w n := by
  induction w generalizing n with
  | zero =>
    obtain rfl : n = 0 := by simpa using hn
    simp [digits]
  | succ w ih =>
    rw [Nat.pow_succ] at hn
    have hdiv : (m * 10 ^ (w + 1) + n) / 10 = m * 10 ^ w + n / 10 := by
      rw [Nat.pow_succ, ← Nat.mul_assoc]
      omega
    have hmod : (m * 10 ^ (w + 1) + n) % 10 = n % 10 := by
      rw [Nat.pow_succ, ← Nat.mul_assoc]
      omega
    rw [← Nat.add_assoc, digits, hdiv, hmod, ih _ (Nat.div_lt_of_lt_mul (by omega)), digits,
      List.append_assoc]

/-- The last three digits of a number stand behind the others. -/
theorem digits_groups (width n : Nat) :
    digits (width + 3) n = digits width (n / 1000) ++ digits 3 (n % 1000) := by
  have hadd := digits_add width 3 (n / 1000) (n % 1000) (Nat.mod_lt n (by decide))
  rwa [show n / 1000 * 10 ^ 3 + n % 1000 = n by omega] at hadd

theorem fractionText_append {n : Nat} :
    fractionText n ++ offsetText = if n = 0 then offsetText else '.' :: fractionGroups 3 n := by
  have hlast : n % 1000000 % 1000 = n % 1000 := by omega
  have hmiddle : n % 1000000 / 1000 = n / 1000 % 1000 := by omega
  simp only [fractionText, fractionGroups, Nat.reducePow, Nat.div_one, hlast, hmiddle]
  by_cases h0 : n = 0
  · rw [if_pos h0, if_pos h0, List.nil_append]
  · rw [if_neg h0, if_neg h0, if_neg h0]
    by_cases hmillis : n % 1000000 = 0
    · rw [if_pos hmillis, if_pos hmillis, List.cons_append]
    · rw [if_neg hmillis, if_neg hmillis]
      have hthousands : n / 1000 / 1000 = n / 1000000 := by omega
      by_cases hmicros : n % 1000 = 0
      · rw [if_pos hmicros, if_pos hmicros, digits_groups 3, hthousands, List.cons_append,
          List.append_assoc]
      · rw [if_neg hmicros, if_neg hmicros, digits_groups 6, digits_groups 3, hthousands,
          List.cons_append, List.append_assoc, List.append_assoc]

/-- The fraction and the offset: nothing, a sign or a dot follows the seconds. -/
theorem fraction_lt {m n : Nat} (hm : m < 1000000000) (hn : n < 1000000000) :
    fractionText m ++ offsetText < fractionText n ++ offsetText ↔ m < n := by
  rw [fractionText_append, fractionText_append]
  have hdot (x : List Char) : offsetText < '.' :: x := List.cons_lt_cons_iff.mpr (.inl (by decide))
  by_cases hm0 : m = 0
  · by_cases hn0 : n = 0
    · simp [hm0, hn0]
    · rw [if_pos hm0, if_neg hn0]
      exact iff_of_true (hdot _) (by omega)
  · by_cases hn0 : n = 0
    · rw [if_neg hm0, if_pos hn0]
      exact iff_of_false (not_lt_of_gt (hdot _)) (by omega)
    · rw [if_neg hm0, if_neg hn0, List.cons_lt_cons_iff, fractionGroups_lt hm hn]
      simp

theorem cons_lt_self {c : Char} {x y : List Char} : c :: x < c :: y ↔ x < y := by
  rw [List.cons_lt_cons_iff]
  simp

/-- A year of four digits: instants are in the order of their texts. -/
theorem formatIso_lt_iff {a b : DateTime} (ha : 0 ≤ a.year ∧ a.year ≤ 9999)
    (hb : 0 ≤ b.year ∧ b.year ≤ 9999) : formatIso a < formatIso b ↔ a < b := by
  have hyear : a.year.toNat < b.year.toNat ↔ a.year < b.year := by omega
  have hyear' : a.year.toNat = b.year.toNat ↔ a.year = b.year := by omega
  have ha₁ := a.month_range
  have ha₂ := a.day_lt
  have ha₃ := a.hour_lt
  have ha₄ := a.minute_lt
  have ha₅ := a.second_le
  have hb₁ := b.month_range
  have hb₂ := b.day_lt
  have hb₃ := b.hour_lt
  have hb₄ := b.minute_lt
  have hb₅ := b.second_le
  simp only [formatIso, toRfc3339, yearText, if_pos ha, if_pos hb]
  rw [digits_append_lt (by omega) (by omega), cons_lt_self, digits_append_lt (by omega) (by omega),
    cons_lt_self, digits_append_lt (by omega) (by omega), cons_lt_self,
    digits_append_lt (by omega) (by omega), cons_lt_self, digits_append_lt (by omega) (by omega),
    cons_lt_self, digits_append_lt (by omega) (by omega), fraction_lt a.nanosecond_lt b.nanosecond_lt,
    hyear, hyear', DateTime.lt_iff]
  simp only [DateTime.fields, List.cons_lt_cons_iff, Int.ofNat_lt, Int.natCast_inj,
    lt_self_iff_false, and_false, or_false]

/-- An instant is told by its text, in any year. -/
theorem formatIso_inj {a b : DateTime} (h : formatIso a = formatIso b) : a = b := by
  unfold formatIso toRfc3339 at h
  obtain ⟨first, rest, hyear, hrest⟩ := yearText_cons a.year
  obtain ⟨first', rest', hyear', hrest'⟩ := yearText_cons b.year
  have hdash : ∀ {cs : List Char}, (∀ c ∈ cs, c.isDigit = true) → '-' ∉ cs :=
    fun hcs hmem => absurd (hcs _ hmem) (by decide)
  rw [hyear, hyear', List.cons_append, List.cons_append] at h
  obtain ⟨hfirst, h⟩ := List.cons.inj h
  obtain ⟨hdigits, h⟩ := append_cons_inj (hdash hrest) (hdash hrest') h
  have hyears : yearText a.year = yearText b.year := by rw [hyear, hyear', hfirst, hdigits]
  -- Behind the year each field has its two digits.
  obtain ⟨hmonth, h⟩ := List.append_inj h (by simp [digits_length])
  obtain ⟨hday, h⟩ := List.append_inj (List.cons.inj h).2 (by simp [digits_length])
  obtain ⟨hhour, h⟩ := List.append_inj (List.cons.inj h).2 (by simp [digits_length])
  obtain ⟨hminute, h⟩ := List.append_inj (List.cons.inj h).2 (by simp [digits_length])
  obtain ⟨hsecond, hfraction⟩ := List.append_inj (List.cons.inj h).2 (by simp [digits_length])
  have hnano : a.nanosecond = b.nanosecond := by
    have hlt := fraction_lt a.nanosecond_lt b.nanosecond_lt
    have hgt := fraction_lt b.nanosecond_lt a.nanosecond_lt
    rw [hfraction] at hlt hgt
    exact Nat.le_antisymm (Nat.le_of_not_lt fun hcontra => lt_irrefl _ (hgt.mpr hcontra))
      (Nat.le_of_not_lt fun hcontra => lt_irrefl _ (hlt.mpr hcontra))
  have ha₁ := a.month_range
  have ha₂ := a.hour_lt
  have ha₃ := a.minute_lt
  have ha₄ := a.second_le
  have hb₁ := b.month_range
  have hb₂ := b.hour_lt
  have hb₃ := b.minute_lt
  have hb₄ := b.second_le
  exact DateTime.ext (yearText_inj hyears)
    (digits_inj (by omega) (by omega) hmonth) (digits_inj a.day_lt b.day_lt hday)
    (digits_inj (by omega) (by omega) hhour) (digits_inj (by omega) (by omega) hminute)
    (digits_inj (by omega) (by omega) hsecond) hnano

/-- A year before the first of four digits sorts in front of it. -/
theorem formatIso_lt_of_neg {a b : DateTime} (ha : a.year < 0) (hb : 0 ≤ b.year ∧ b.year ≤ 9999) :
    formatIso a < formatIso b := by
  have hnot : ¬(0 ≤ a.year ∧ a.year ≤ 9999) := by omega
  simp only [formatIso, toRfc3339, yearText, if_neg hnot, if_pos hb, if_pos ha, List.cons_append]
  exact cons_lt_digits (by decide) _ _ _ _

/-- And so does a year after the last of four digits. -/
theorem formatIso_lt_of_large {a b : DateTime} (ha : 9999 < a.year)
    (hb : 0 ≤ b.year ∧ b.year ≤ 9999) : formatIso a < formatIso b := by
  have hnot : ¬(0 ≤ a.year ∧ a.year ≤ 9999) := by omega
  have hsign : ¬a.year < 0 := by omega
  simp only [formatIso, toRfc3339, yearText, if_neg hnot, if_pos hb, if_neg hsign, List.cons_append]
  exact cons_lt_digits (by decide) _ _ _ _

/-- An earlier year is an earlier instant. -/
theorem DateTime.lt_of_year_lt {a b : DateTime} (h : a.year < b.year) : a < b := by
  rw [lt_iff, fields, fields, List.cons_lt_cons_iff]
  exact .inl h

/-- Whether a text with a year of four digits is before the text of any instant up to these
years is whether the instant is. -/
theorem formatIso_lt_cutoff_iff {a b : DateTime} (ha : 0 ≤ a.year ∧ a.year ≤ 9999)
    (hb : b.year ≤ 9999) : formatIso a < formatIso b ↔ a < b := by
  by_cases hneg : b.year < 0
  · refine iff_of_false (not_lt_of_gt (formatIso_lt_of_neg hneg ha)) (not_lt_of_gt ?_)
    exact DateTime.lt_of_year_lt (by omega)
  · exact formatIso_lt_iff ha ⟨by omega, hb⟩

end Voom.Rfc3339
