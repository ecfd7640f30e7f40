-- SUMMARY: Retention of jobs and file transitions: previews and prunes, and when they do what they say.
import Mathlib.Data.List.Dedup
import Voom.Domain.Rfc3339
import Voom.JobManager.Queue
import Voom.Lib.Outcome
import Voom.Lib.Retention

/-!
# Retention

A preview counts the rows that a prune would delete, and a prune deletes them: those of the
eligible rows that are older than an age or rank beyond a number. Age is compared on texts, and
the database is free to rank rows with equal texts as it likes, in each query anew. The two agree,
and delete no other row, whenever the instant the age reaches back to can be computed and its
text sorts with those that are stored.
-/

namespace Voom.Storage.Retention

open Voom.Lib Voom.Lib.Retention Voom.Rfc3339 Voom.JobManager

/-! ## Policies -/

/-- Row retention policy for time- or count-based pruning. -/
structure RetentionPolicy where
  maxAge : Option Duration := none
  keepLast : Option Nat := none

/-- Outcome of a prune, over the rows the policy was eligible to delete. -/
structure PruneReport where
  deleted : Nat
  kept : Nat
  deriving DecidableEq, Repr

/-- `DateTime - TimeDelta` overflowed. -/
inductive Panic where
  | dateTimeOverflow
  deriving DecidableEq, Repr

/-- One table's section of the configuration. -/
structure TableRetention where
  keepForDays : Option (Fin (2 ^ 32)) := none
  keepLast : Option Nat := none

/-- Zero is no bound. -/
def tableRetentionToPolicy (t : TableRetention) : RetentionPolicy where
  maxAge := (t.keepForDays.filter (0 < ·)).map fun days => Duration.days days.val
  keepLast := t.keepLast.filter (0 < ·)

/-- `DateTime::checked_sub_signed`: nothing if the instant is out of the calendar. -/
abbrev CheckedSub := DateTime → Duration → Option DateTime

namespace RetentionPolicy

def isDisabled (policy : RetentionPolicy) : Bool :=
  policy.maxAge.isNone && policy.keepLast.isNone

/-- The text of the instant that rows may not be older than. -/
def cutoffStr (checkedSub : CheckedSub) (now : DateTime) (policy : RetentionPolicy) :
    Except Panic (Option (List Char)) :=
  match policy.maxAge with
  | none => .ok none
  | some d =>
    match checkedSub now d with
    | some cutoff => .ok (some (formatIso cutoff))
    | none => .error .dateTimeOverflow

/-- The bound as a parameter of a query, dropped where it is no `i64`. -/
def keepLastI64 (policy : RetentionPolicy) : Option Nat :=
  policy.keepLast.filter (· < 2 ^ 63)

end RetentionPolicy

/-! ## Previews and prunes -/

variable {Row κ : Type}

/-- What the queries of a table read: the key that rows are deleted by, the text they are ranked
by, and which rows may be deleted. -/
structure TableQuery (Row κ : Type) where
  key : Row → κ
  effectiveAt : Row → List Char
  eligible : List Row → Row → Bool

def TableQuery.eligibleRows (T : TableQuery Row κ) (rows : List Row) : List Row :=
  rows.filter (T.eligible rows)

/-- `ORDER BY effective_at DESC`: newest first, and equal texts in any order. -/
structure Ranking (effectiveAt : Row → List Char) where
  order : List Row → List Row
  perm : ∀ rows, (order rows).Perm rows
  newestFirst : ∀ rows, (order rows).Pairwise fun a b => effectiveAt b ≤ effectiveAt a

section Queries

variable (checkedSub : CheckedSub) (T : TableQuery Row κ) (ranking : Ranking T.effectiveAt)
  (now : DateTime) (policy : RetentionPolicy) (rows : List Row)

/-- The rows of `ranked` that are too old or rank too low. -/
def selected (cutoff : Option (List Char)) (keepLast : Option Nat) : List Row :=
  overdue (fun r => cutoff.any (T.effectiveAt r < ·)) keepLast (ranking.order (T.eligibleRows rows))

def countOld : Except Panic PruneReport :=
  if policy.isDisabled then .ok { deleted := 0, kept := (T.eligibleRows rows).length }
  else do
    let cutoff ← policy.cutoffStr checkedSub now
    let deleted := (selected T ranking rows cutoff policy.keepLastI64).length
    let total := (T.eligibleRows rows).length
    return { deleted, kept := total - deleted }

end Queries

/-- Delete the selected rows, and count the eligible ones that remain. -/
def pruneOld [DecidableEq κ] (checkedSub : CheckedSub) (T : TableQuery Row κ)
    (ranking : Ranking T.effectiveAt) (now : DateTime) (policy : RetentionPolicy)
    (rows : List Row) : Except Panic (PruneReport × List Row) :=
  if policy.isDisabled then .ok ({ deleted := 0, kept := (T.eligibleRows rows).length }, rows)
  else do
    let cutoff ← policy.cutoffStr checkedSub now
    let keys := (selected T ranking rows cutoff policy.keepLastI64).map T.key
    let rest := rows.filter (T.key · ∉ keys)
    return ({ deleted := rows.countP (T.key · ∈ keys), kept := (T.eligibleRows rest).length }, rest)

/-! ## The tables -/

/-- A stored instant, with a year of four digits. -/
structure StoredTime where
  instant : DateTime
  year_range : 0 ≤ instant.year ∧ instant.year ≤ 9999

/-- A row of `jobs`, and the instants that its texts are. -/
structure JobRow where
  job : Job
  createdAt : StoredTime
  completedAt : Option StoredTime
  createdAt_text : job.createdAt.toList = formatIso createdAt.instant
  completedAt_text : job.completedAt.map String.toList = completedAt.map (formatIso ·.instant)

/-- Terminal jobs, ranked by `COALESCE(completed_at, created_at)`. -/
def jobsQuery : TableQuery JobRow Uuid where
  key r := r.job.id
  effectiveAt r := (r.job.completedAt.getD r.job.createdAt).toList
  eligible _ r := r.job.status.isTerminal

def countOldJobs (checkedSub : CheckedSub) := countOld checkedSub jobsQuery

def pruneOldJobs (checkedSub : CheckedSub) := pruneOld checkedSub jobsQuery

/-- A row of `file_transitions`, and the instant that its text is. -/
structure TransitionRow where
  rowid : Int
  fileId : Uuid
  createdAt : String
  recordedAt : StoredTime
  createdAt_text : createdAt.toList = formatIso recordedAt.instant

/-- `SELECT MAX(rowid) FROM file_transitions GROUP BY file_id` -/
def lastPerFile (rows : List TransitionRow) : List Int :=
  (rows.map (·.fileId)).dedup.filterMap fun fileId =>
    ((rows.filter (·.fileId = fileId)).map (·.rowid)).max?

/-- Transitions other than the last of each file. -/
def fileTransitionsQuery : TableQuery TransitionRow Int where
  key r := r.rowid
  effectiveAt r := r.createdAt.toList
  eligible rows r := r.rowid ∉ lastPerFile rows

def countOldFileTransitions (checkedSub : CheckedSub) := countOld checkedSub fileTransitionsQuery

def pruneOldFileTransitions (checkedSub : CheckedSub) := pruneOld checkedSub fileTransitionsQuery

/-! ## What they are for -/

/-- A table whose texts are those of instants, and in which deleting rows that may be deleted
changes nothing about the others. -/
structure RetainedTable (Row κ : Type) extends TableQuery Row κ where
  time : Row → StoredTime
  effectiveAt_eq : ∀ r, effectiveAt r = formatIso (time r).instant
  eligible_filter : ∀ {rows : List Row} {p : Row → Bool}, (rows.map key).Nodup →
    (∀ r ∈ rows, eligible rows r = false → p r = true) → ∀ r ∈ rows, p r = true →
      eligible (rows.filter p) r = eligible rows r

/-- The content of a table: keys are unique, and rows are fewer than a database holds. -/
structure Contents (T : RetainedTable Row κ) where
  rows : List Row
  keyed : Table.Keyed T.key rows
  length_lt : rows.length < 2 ^ 63

section Purpose

variable (checkedSub : CheckedSub) (T : RetainedTable Row κ) (now : DateTime)
  (policy : RetentionPolicy)

/-- The row is older than the policy's age. -/
def Older (r : Row) : Prop :=
  ∃ d cutoff, policy.maxAge = some d ∧ checkedSub now d = some cutoff ∧ (T.time r).instant < cutoff

/-- As many rows as the policy keeps are ranked in front of the row. -/
def Surplus (ranked : List Row) (r : Row) : Prop :=
  ∃ i keep, ranked[i]? = some r ∧ policy.keepLast = some keep ∧ keep ≤ i

/-- Of the eligible rows, exactly those that are too old or rank too low are gone, in one of the
rankings from the newest to the oldest. No other row is. -/
def Minimal (rows rest : List Row) : Prop :=
  ∃ ranked, ranked.Perm (T.eligibleRows rows) ∧
    ranked.Pairwise (fun a b => (T.time b).instant ≤ (T.time a).instant) ∧ rest.Sublist rows ∧
    ∀ r ∈ rows, r ∈ rest ↔
      ¬(r ∈ ranked ∧ (Older checkedSub T now policy r ∨ Surplus policy ranked r))

/-- The preview is what the prune reports, the prune is minimal and accounts for the eligible
rows, and pruning once more deletes nothing, however each query ranks rows of one instant. -/
def Exact
    (count : Ranking T.effectiveAt → DateTime → RetentionPolicy → List Row →
      Except Panic PruneReport)
    (prune : Ranking T.effectiveAt → DateTime → RetentionPolicy → List Row →
      Except Panic (PruneReport × List Row)) (rows : List Row) : Prop :=
  ∀ preview first second : Ranking T.effectiveAt, ∃ report rest,
    count preview now policy rows = .ok report ∧ prune first now policy rows = .ok (report, rest) ∧
    Minimal checkedSub T now policy rows rest ∧
    report.deleted + report.kept = (T.eligibleRows rows).length ∧
    ∃ again, prune second now policy rest = .ok (again, rest) ∧ again.deleted = 0

/-- The instant the age reaches back to can be computed, and its text sorts behind those of
earlier instants, unless there is nothing to keep. -/
def Reachable (eligible : Nat) : Prop :=
  ∀ d, policy.maxAge = some d → ∃ cutoff, checkedSub now d = some cutoff ∧
    (cutoff.year ≤ 9999 ∨ eligible = 0 ∨ policy.keepLast = some 0)

end Purpose

/-! ## The queries -/

/-- A row is in front of the cutoff's text. -/
def before (T : TableQuery Row κ) (cutoff : Option (List Char)) (r : Row) : Bool :=
  cutoff.any (T.effectiveAt r < ·)

section QueryLemmas

variable {T : TableQuery Row κ} {ranking : Ranking T.effectiveAt} {checkedSub : CheckedSub}
  {now : DateTime} {policy : RetentionPolicy} {rows : List Row} {cutoff : Option (List Char)}
  {keepLast : Option Nat}

/-- Some ranking exists. -/
def sortedRanking (effectiveAt : Row → List Char) : Ranking effectiveAt where
  order rows := rows.mergeSort fun a b => decide (effectiveAt b ≤ effectiveAt a)
  perm rows := List.mergeSort_perm rows _
  newestFirst rows := by
    have hsorted : (rows.mergeSort fun a b => decide (effectiveAt b ≤ effectiveAt a)).Pairwise
        fun a b => decide (effectiveAt b ≤ effectiveAt a) = true := by
      apply List.pairwise_mergeSort
      · exact fun a b c hab hbc =>
          decide_eq_true (le_trans (of_decide_eq_true hbc) (of_decide_eq_true hab))
      · exact fun a b => by simpa using le_total (effectiveAt b) (effectiveAt a)
    exact hsorted.imp of_decide_eq_true

theorem oldLast_order : OldLast (before T cutoff) (ranking.order rows) := by
  refine (ranking.newestFirst rows).imp ?_
  intro a b hle hold
  cases cutoff with
  | none => exact hold
  | some c =>
    have hlt : T.effectiveAt a < c := by simpa [before] using hold
    simpa [before] using lt_of_le_of_lt hle hlt

theorem cutoffStr_of_isDisabled (h : policy.isDisabled = true) :
    policy.cutoffStr checkedSub now = .ok none ∧ policy.keepLastI64 = none := by
  obtain ⟨hage, hkeep⟩ := Bool.and_eq_true_iff.mp h
  rw [Option.isNone_iff_eq_none] at hage hkeep
  simp [RetentionPolicy.cutoffStr, RetentionPolicy.keepLastI64, hage, hkeep]

/-- Without bounds, no row is selected. -/
theorem selected_none : selected T ranking rows none none = [] := by
  rw [List.eq_nil_iff_forall_not_mem]
  intro r hr
  obtain ⟨i, -, hold | ⟨k, hk, -⟩⟩ := mem_overdue.mp hr
  · simp at hold
  · cases hk

theorem countOld_eq (h : policy.cutoffStr checkedSub now = .ok cutoff) :
    countOld checkedSub T ranking now policy rows =
      .ok { deleted := (selected T ranking rows cutoff policy.keepLastI64).length,
            kept := (T.eligibleRows rows).length -
              (selected T ranking rows cutoff policy.keepLastI64).length } := by
  unfold countOld
  by_cases hdisabled : policy.isDisabled = true
  · obtain ⟨hcutoff, hkeep⟩ :
        policy.cutoffStr checkedSub now = .ok none ∧ policy.keepLastI64 = none :=
      cutoffStr_of_isDisabled hdisabled
    obtain rfl := Except.ok.inj (h.symm.trans hcutoff)
    rw [if_pos hdisabled, hkeep, selected_none, List.length_nil, Nat.sub_zero]
  · rw [if_neg hdisabled, h, ok_bind]
    rfl

theorem pruneOld_eq [DecidableEq κ] (h : policy.cutoffStr checkedSub now = .ok cutoff) :
    pruneOld checkedSub T ranking now policy rows =
      let keys := (selected T ranking rows cutoff policy.keepLastI64).map T.key
      let rest := rows.filter (T.key · ∉ keys)
      .ok ({ deleted := rows.countP (T.key · ∈ keys), kept := (T.eligibleRows rest).length },
        rest) := by
  unfold pruneOld
  by_cases hdisabled : policy.isDisabled = true
  · obtain ⟨hcutoff, hkeep⟩ :
        policy.cutoffStr checkedSub now = .ok none ∧ policy.keepLastI64 = none :=
      cutoffStr_of_isDisabled hdisabled
    obtain rfl := Except.ok.inj (h.symm.trans hcutoff)
    rw [if_pos hdisabled, hkeep, selected_none]
    simp
  · rw [if_neg hdisabled, h, ok_bind]
    rfl

/-- The preview panics when the cutoff cannot be computed. -/
theorem countOld_error {e : Panic} (h : policy.cutoffStr checkedSub now = .error e) :
    countOld checkedSub T ranking now policy rows = .error e := by
  unfold countOld
  rw [if_neg, h]
  · rfl
  · intro hdisabled
    rw [(cutoffStr_of_isDisabled hdisabled).1] at h
    cases h

end QueryLemmas

/-! ## What a prune leaves -/

section Prune

variable [DecidableEq κ] {T : RetainedTable Row κ} {contents : Contents T}
  {ranking ranking' : Ranking T.effectiveAt} {cutoff : Option (List Char)} {keepLast : Option Nat}

/-- What is left of a table after deleting the selected rows. -/
def left (ranking : Ranking T.effectiveAt) (rows : List Row) (cutoff : Option (List Char))
    (keepLast : Option Nat) : List Row :=
  rows.filter (T.key · ∉ (selected T.toTableQuery ranking rows cutoff keepLast).map T.key)

/-- How many eligible rows are not selected. -/
def survivors (ranking : Ranking T.effectiveAt) (rows : List Row) (cutoff : Option (List Char))
    (keepLast : Option Nat) : Nat :=
  kept ((ranking.order (T.eligibleRows rows)).countP (!before T.toTableQuery cutoff ·)) keepLast

omit [DecidableEq κ] in
theorem selected_eq_drop (rows : List Row) :
    selected T.toTableQuery ranking rows cutoff keepLast =
      (ranking.order (T.eligibleRows rows)).drop (survivors ranking rows cutoff keepLast) :=
  overdue_eq_drop keepLast oldLast_order

omit [DecidableEq κ] in
theorem length_selected_eq (rows : List Row) :
    (selected T.toTableQuery ranking rows cutoff keepLast).length =
      (selected T.toTableQuery ranking' rows cutoff keepLast).length :=
  length_overdue_eq oldLast_order oldLast_order ((ranking.perm _).trans (ranking'.perm _).symm)

omit [DecidableEq κ] in
theorem mem_of_mem_selected {rows : List Row} {r : Row}
    (h : r ∈ selected T.toTableQuery ranking rows cutoff keepLast) :
    r ∈ rows ∧ T.eligible rows r = true := by
  rw [selected_eq_drop] at h
  exact List.mem_filter.mp ((ranking.perm _).mem_iff.mp (List.mem_of_mem_drop h))

omit [DecidableEq κ] in
theorem keyed_order : ((ranking.order (T.eligibleRows contents.rows)).map T.key).Nodup := by
  rw [((ranking.perm _).map T.key).nodup_iff]
  exact contents.keyed.sublist (List.filter_sublist.map T.key)

/-- A row is left if it is not selected. -/
theorem mem_left {r : Row} (hr : r ∈ contents.rows) :
    r ∈ left ranking contents.rows cutoff keepLast ↔
      r ∉ selected T.toTableQuery ranking contents.rows cutoff keepLast := by
  rw [left, List.mem_filter, decide_eq_true_eq, List.mem_map]
  constructor
  · rintro ⟨-, hkey⟩ hsel
    exact hkey ⟨r, hsel, rfl⟩
  · intro hsel
    refine ⟨hr, ?_⟩
    rintro ⟨r', hsel', hkey⟩
    rw [contents.keyed.eq_of_key (mem_of_mem_selected hsel').1 hr hkey] at hsel'
    exact hsel hsel'

/-- As many rows are deleted as are selected. -/
theorem countP_selected :
    contents.rows.countP
        (T.key · ∈ (selected T.toTableQuery ranking contents.rows cutoff keepLast).map T.key) =
      (selected T.toTableQuery ranking contents.rows cutoff keepLast).length := by
  have hrows : contents.rows.Nodup := contents.keyed.of_map
  have hselected : (selected T.toTableQuery ranking contents.rows cutoff keepLast).Nodup := by
    rw [selected_eq_drop]
    exact keyed_order.of_map.sublist (List.drop_sublist _ _)
  rw [List.countP_eq_length_filter]
  apply List.Perm.length_eq
  rw [List.perm_ext_iff_of_nodup (hrows.filter _) hselected]
  intro r
  rw [List.mem_filter, decide_eq_true_eq]
  constructor
  · rintro ⟨hr, hkey⟩
    by_contra hsel
    have hleft := (mem_left hr).mpr hsel
    exact of_decide_eq_true (List.mem_filter.mp hleft).2 hkey
  · intro hsel
    exact ⟨(mem_of_mem_selected hsel).1, List.mem_map_of_mem hsel⟩

/-- The eligible rows of what is left are those that were ranked first. -/
theorem eligibleRows_left : (T.eligibleRows (left ranking contents.rows cutoff keepLast)).Perm
    ((ranking.order (T.eligibleRows contents.rows)).take
      (survivors ranking contents.rows cutoff keepLast)) := by
  have hpinned : ∀ r ∈ contents.rows, T.eligible contents.rows r = false →
      decide (T.key r ∉ (selected T.toTableQuery ranking contents.rows cutoff keepLast).map T.key) =
        true := by
    intro r hr hpin
    have hsel : r ∉ selected T.toTableQuery ranking contents.rows cutoff keepLast := by
      intro hsel
      rw [(mem_of_mem_selected hsel).2] at hpin
      cases hpin
    exact (List.mem_filter.mp ((mem_left hr).mpr hsel)).2
  have hrest : T.eligibleRows (left ranking contents.rows cutoff keepLast) =
      (T.eligibleRows contents.rows).filter
        (T.key · ∉ (selected T.toTableQuery ranking contents.rows cutoff keepLast).map T.key) := by
    rw [TableQuery.eligibleRows, TableQuery.eligibleRows, List.filter_filter, left,
      List.filter_filter]
    apply List.filter_congr
    intro r hr
    cases hkey : decide (T.key r ∉
        (selected T.toTableQuery ranking contents.rows cutoff keepLast).map T.key) with
    | true => rw [T.eligible_filter contents.keyed hpinned r hr hkey, Bool.and_comm]
    | false => rw [Bool.and_false, Bool.false_and]
  rw [hrest]
  refine ((ranking.perm _).symm.filter _).trans ?_
  rw [selected_eq_drop, filter_key_not_mem_drop keyed_order]

/-- Pruning once more selects nothing. -/
theorem selected_left : selected T.toTableQuery ranking'
    (left ranking contents.rows cutoff keepLast) cutoff keepLast = [] :=
  overdue_rest oldLast_order ((ranking'.perm _).trans eligibleRows_left) oldLast_order

/-- The age can be computed. -/
theorem cutoffStr_eq_ok {checkedSub : CheckedSub} {now : DateTime} {policy : RetentionPolicy}
    {n : Nat} (h : Reachable checkedSub now policy n) :
    ∃ cutoff, policy.cutoffStr checkedSub now = .ok cutoff := by
  unfold RetentionPolicy.cutoffStr
  cases hage : policy.maxAge with
  | none => exact ⟨none, rfl⟩
  | some d =>
    obtain ⟨cutoff, hcutoff, -⟩ := h d hage
    exact ⟨some (formatIso cutoff), by simp only [hcutoff]⟩

omit [DecidableEq κ] in
/-- A bound that is no `i64` is beyond every row. -/
theorem selected_keepLastI64 (policy : RetentionPolicy) :
    selected T.toTableQuery ranking contents.rows cutoff policy.keepLastI64 =
      selected T.toTableQuery ranking contents.rows cutoff policy.keepLast := by
  unfold RetentionPolicy.keepLastI64
  cases hkeep : policy.keepLast with
  | none => rfl
  | some keep =>
    by_cases hlt : keep < 2 ^ 63
    · rw [Option.filter_some_pos (by simpa using hlt)]
    · rw [Option.filter_some_neg (by simpa using hlt)]
      refine (overdue_of_length_le ?_).symm
      rw [(ranking.perm _).length_eq]
      have hle := List.length_filter_le (T.eligible contents.rows) contents.rows
      have hrows := contents.length_lt
      unfold TableQuery.eligibleRows
      omega

end Prune

/-! ## Age and rank -/

section Exactness

variable {T : RetainedTable Row κ} {contents : Contents T} {ranking : Ranking T.effectiveAt}
  {checkedSub : CheckedSub} {now : DateTime} {policy : RetentionPolicy}
  {cutoff : Option (List Char)}

/-- The texts tell which rows are older, for cutoffs up to the years of four digits. -/
theorem before_iff_older (hcutoff : policy.cutoffStr checkedSub now = .ok cutoff)
    (hyear : ∀ d c, policy.maxAge = some d → checkedSub now d = some c → c.year ≤ 9999) (r : Row) :
    before T.toTableQuery cutoff r = true ↔ Older checkedSub T now policy r := by
  unfold RetentionPolicy.cutoffStr at hcutoff
  unfold Older
  cases hage : policy.maxAge with
  | none =>
    rw [hage] at hcutoff
    obtain rfl := Except.ok.inj hcutoff
    simp [before]
  | some d =>
    rw [hage] at hcutoff
    cases hsub : checkedSub now d with
    | none => simp [hsub] at hcutoff
    | some c =>
      simp only [hsub] at hcutoff
      obtain rfl := Except.ok.inj hcutoff
      have htext := formatIso_lt_cutoff_iff (T.time r).year_range (hyear d c hage hsub)
      rw [← T.effectiveAt_eq] at htext
      simp [before, htext, hsub]

/-- The rows selected are those that are too old or rank too low. -/
theorem mem_selected_iff (hcutoff : policy.cutoffStr checkedSub now = .ok cutoff)
    (hreach : Reachable checkedSub now policy (T.eligibleRows contents.rows).length) (r : Row) :
    r ∈ selected T.toTableQuery ranking contents.rows cutoff policy.keepLastI64 ↔
      r ∈ ranking.order (T.eligibleRows contents.rows) ∧ (Older checkedSub T now policy r ∨
        Surplus policy (ranking.order (T.eligibleRows contents.rows)) r) := by
  have hindex : r ∈ ranking.order (T.eligibleRows contents.rows) ↔
      ∃ i : Nat, (ranking.order (T.eligibleRows contents.rows))[i]? = some r :=
    List.mem_iff_getElem?
  rw [selected_keepLastI64, selected, mem_overdue]
  by_cases hyear : ∀ d c, policy.maxAge = some d → checkedSub now d = some c → c.year ≤ 9999
  · have hold := before_iff_older (T := T) hcutoff hyear r
    constructor
    · rintro ⟨i, hget, hover | ⟨keep, hkeep, hle⟩⟩
      · exact ⟨hindex.mpr ⟨i, hget⟩, .inl (hold.mp hover)⟩
      · exact ⟨hindex.mpr ⟨i, hget⟩, .inr ⟨i, keep, hget, hkeep, hle⟩⟩
    · rintro ⟨hr, holder | ⟨i, keep, hget, hkeep, hle⟩⟩
      · obtain ⟨i, hget⟩ := hindex.mp hr
        exact ⟨i, hget, .inl (hold.mpr holder)⟩
      · exact ⟨i, hget, .inr ⟨keep, hkeep, hle⟩⟩
  · -- the cutoff's text sorts in front of every row: nothing may be there to be kept
    push Not at hyear
    obtain ⟨d, c, hage, hsub, hlarge⟩ := hyear
    obtain ⟨c', hsub', hreach⟩ := hreach d hage
    obtain rfl := Option.some.inj (hsub.symm.trans hsub')
    rcases hreach with hsmall | hempty | hzero
    · omega
    · have hnil : ranking.order (T.eligibleRows contents.rows) = [] :=
        List.eq_nil_of_length_eq_zero ((ranking.perm _).length_eq.trans hempty)
      simp [hnil]
    · constructor
      · rintro ⟨i, hget, -⟩
        exact ⟨hindex.mpr ⟨i, hget⟩, .inr ⟨i, 0, hget, hzero, Nat.zero_le i⟩⟩
      · rintro ⟨hr, -⟩
        obtain ⟨i, hget⟩ := hindex.mp hr
        exact ⟨i, hget, .inr ⟨0, hzero, Nat.zero_le i⟩⟩

/-- The order of the texts is the order of the instants. -/
theorem order_newestFirst (rows : List Row) :
    (ranking.order rows).Pairwise fun a b => (T.time b).instant ≤ (T.time a).instant := by
  refine (ranking.newestFirst rows).imp ?_
  intro a b hle
  rw [T.effectiveAt_eq, T.effectiveAt_eq] at hle
  by_contra hlt
  exact not_lt_of_ge hle
    ((formatIso_lt_iff (T.time a).year_range (T.time b).year_range).mpr (lt_of_not_ge hlt))

variable [DecidableEq κ]

theorem minimal_left (hcutoff : policy.cutoffStr checkedSub now = .ok cutoff)
    (hreach : Reachable checkedSub now policy (T.eligibleRows contents.rows).length) :
    Minimal checkedSub T now policy contents.rows
      (left ranking contents.rows cutoff policy.keepLastI64) := by
  refine ⟨_, ranking.perm _, order_newestFirst _, List.filter_sublist, ?_⟩
  intro r hr
  rw [mem_left hr, mem_selected_iff hcutoff hreach]

/-- What is kept and what is deleted are the eligible rows. -/
theorem survivors_add_selected (keepLast : Option Nat) :
    (selected T.toTableQuery ranking contents.rows cutoff keepLast).length +
      (T.eligibleRows (left ranking contents.rows cutoff keepLast)).length =
        (T.eligibleRows contents.rows).length := by
  have hle : survivors ranking contents.rows cutoff keepLast ≤
      (ranking.order (T.eligibleRows contents.rows)).length :=
    Nat.le_trans (kept_le _ _) List.countP_le_length
  rw [eligibleRows_left.length_eq, selected_eq_drop, List.length_drop, List.length_take,
    ← (ranking.perm (T.eligibleRows contents.rows)).length_eq]
  omega

theorem exact_of_reachable
    (hreach : Reachable checkedSub now policy (T.eligibleRows contents.rows).length) :
    Exact checkedSub T now policy (countOld checkedSub T.toTableQuery)
      (pruneOld checkedSub T.toTableQuery) contents.rows := by
  intro preview first second
  obtain ⟨cutoff, hcutoff⟩ := cutoffStr_eq_ok hreach
  have htotal : (selected T.toTableQuery first contents.rows cutoff policy.keepLastI64).length +
      (T.eligibleRows (left first contents.rows cutoff policy.keepLastI64)).length =
        (T.eligibleRows contents.rows).length := survivors_add_selected _
  have hlength : (selected T.toTableQuery preview contents.rows cutoff policy.keepLastI64).length =
      (selected T.toTableQuery first contents.rows cutoff policy.keepLastI64).length :=
    length_selected_eq _
  refine ⟨⟨(selected T.toTableQuery first contents.rows cutoff policy.keepLastI64).length,
      (T.eligibleRows (left first contents.rows cutoff policy.keepLastI64)).length⟩,
    left first contents.rows cutoff policy.keepLastI64, ?_, ?_, minimal_left hcutoff hreach, htotal,
    ⟨0, (T.eligibleRows (left first contents.rows cutoff policy.keepLastI64)).length⟩, ?_, rfl⟩
  · rw [countOld_eq hcutoff, hlength, ← htotal, Nat.add_sub_cancel_left]
  · rw [pruneOld_eq hcutoff]
    simp only [countP_selected]
    rfl
  · rw [pruneOld_eq hcutoff, selected_left]
    simp

omit [DecidableEq κ] in
/-- No row is in front of the text of a year with more than four digits. -/
theorem survivors_of_large {c : DateTime} (hc : 9999 < c.year) (rows : List Row)
    (keepLast : Option Nat) : survivors ranking rows (some (formatIso c)) keepLast =
      kept (T.eligibleRows rows).length keepLast := by
  have hfresh : (ranking.order (T.eligibleRows rows)).countP
      (!before T.toTableQuery (some (formatIso c)) ·) = (T.eligibleRows rows).length := by
    rw [← (ranking.perm (T.eligibleRows rows)).length_eq, List.countP_eq_length]
    intro r _
    have hlt := formatIso_lt_of_large hc (T.time r).year_range
    rw [← T.effectiveAt_eq] at hlt
    simpa [before] using hlt.le
  rw [survivors, hfresh]

theorem reachable_of_exact
    (hexact : Exact checkedSub T now policy (countOld checkedSub T.toTableQuery)
      (pruneOld checkedSub T.toTableQuery) contents.rows) :
    Reachable checkedSub now policy (T.eligibleRows contents.rows).length := by
  intro d hage
  let ranking := sortedRanking T.effectiveAt
  obtain ⟨report, rest, hcount, hprune, hminimal, -, -⟩ := hexact ranking ranking ranking
  cases hsub : checkedSub now d with
  | none =>
    have herror : policy.cutoffStr checkedSub now = .error .dateTimeOverflow := by
      simp [RetentionPolicy.cutoffStr, hage, hsub]
    rw [countOld_error herror] at hcount
    cases hcount
  | some c =>
    refine ⟨c, rfl, ?_⟩
    by_cases hyear : c.year ≤ 9999
    · exact .inl hyear
    · right
      have hlarge : 9999 < c.year := by omega
      have hcutoff : policy.cutoffStr checkedSub now = .ok (some (formatIso c)) := by
        simp [RetentionPolicy.cutoffStr, hage, hsub]
      rw [pruneOld_eq hcutoff] at hprune
      obtain ⟨-, rfl⟩ := Prod.mk.inj (Except.ok.inj hprune)
      obtain ⟨ranked, hperm, -, -, hrest⟩ := hminimal
      have hleft : (T.eligibleRows (left ranking contents.rows (some (formatIso c))
          policy.keepLastI64)).Perm ((ranking.order (T.eligibleRows contents.rows)).take
            (survivors ranking contents.rows (some (formatIso c)) policy.keepLastI64)) :=
        eligibleRows_left
      rw [survivors_of_large hlarge] at hleft
      -- every eligible row is older, so none may be left
      have hnil : (ranking.order (T.eligibleRows contents.rows)).take
          (kept (T.eligibleRows contents.rows).length policy.keepLastI64) = [] := by
        rw [List.eq_nil_iff_forall_not_mem]
        intro r hr
        have hkept := (List.mem_filter.mp (hleft.mem_iff.mpr hr)).1
        have hranked := hperm.mem_iff.mpr ((ranking.perm _).mem_iff.mp (List.mem_of_mem_take hr))
        have holder : Older checkedSub T now policy r := by
          refine ⟨d, c, hage, hsub, DateTime.lt_of_year_lt ?_⟩
          have := (T.time r).year_range
          omega
        exact (hrest r (List.mem_filter.mp hkept).1).mp hkept ⟨hranked, .inl holder⟩
      have hzero : kept (T.eligibleRows contents.rows).length policy.keepLastI64 = 0 := by
        have hlength := congrArg List.length hnil
        rw [List.length_take, (ranking.perm _).length_eq, List.length_nil] at hlength
        have hle := kept_le (T.eligibleRows contents.rows).length policy.keepLastI64
        omega
      unfold RetentionPolicy.keepLastI64 at hzero
      cases hkeep : policy.keepLast with
      | none =>
        rw [hkeep] at hzero
        exact .inl hzero
      | some keep =>
        rw [Option.some_inj]
        by_cases hlt : keep < 2 ^ 63
        · rw [hkeep, Option.filter_some_pos (by simpa using hlt)] at hzero
          simp only [kept] at hzero
          omega
        · rw [hkeep, Option.filter_some_neg (by simpa using hlt)] at hzero
          exact .inl hzero

end Exactness

/-! ## Jobs -/

/-- When a job ended, or was created if it has not. -/
def JobRow.effectiveTime (r : JobRow) : StoredTime := r.completedAt.getD r.createdAt

theorem JobRow.effectiveAt_eq (r : JobRow) :
    jobsQuery.effectiveAt r = formatIso r.effectiveTime.instant := by
  have htext := r.completedAt_text
  unfold jobsQuery effectiveTime
  cases hdone : r.completedAt with
  | none =>
    rw [hdone, Option.map_none, Option.map_eq_none_iff] at htext
    simp [htext, r.createdAt_text]
  | some t =>
    rw [hdone, Option.map_some, Option.map_eq_some_iff] at htext
    obtain ⟨text, hjob, htext⟩ := htext
    simp [hjob, htext]

def jobsTable : RetainedTable JobRow Uuid where
  toTableQuery := jobsQuery
  time := JobRow.effectiveTime
  effectiveAt_eq := JobRow.effectiveAt_eq
  eligible_filter _ _ _ _ _ := rfl

/-! ## File transitions -/

theorem max_rowid_iff {rows : List TransitionRow} {fileId : Uuid} {rowid : Int} :
    ((rows.filter (·.fileId = fileId)).map (·.rowid)).max? = some rowid ↔
      (∃ r ∈ rows, r.fileId = fileId ∧ r.rowid = rowid) ∧
        ∀ r ∈ rows, r.fileId = fileId → r.rowid ≤ rowid := by
  rw [List.max?_eq_some_iff]
  simp only [List.mem_map, List.mem_filter, decide_eq_true_eq]
  constructor
  · rintro ⟨⟨r, ⟨hr, hfile⟩, hrowid⟩, hmax⟩
    exact ⟨⟨r, hr, hfile, hrowid⟩, fun r' hr' hfile' => hmax _ ⟨r', ⟨hr', hfile'⟩, rfl⟩⟩
  · rintro ⟨⟨r, hr, hfile, hrowid⟩, hmax⟩
    refine ⟨⟨r, ⟨hr, hfile⟩, hrowid⟩, ?_⟩
    rintro _ ⟨r', ⟨hr', hfile'⟩, rfl⟩
    exact hmax r' hr' hfile'

theorem mem_lastPerFile {rows : List TransitionRow} {rowid : Int} :
    rowid ∈ lastPerFile rows ↔ ∃ r ∈ rows, r.rowid = rowid ∧
      ∀ r' ∈ rows, r'.fileId = r.fileId → r'.rowid ≤ rowid := by
  simp only [lastPerFile, List.mem_filterMap, List.mem_dedup, max_rowid_iff]
  constructor
  · rintro ⟨fileId, -, ⟨r, hr, rfl, hrowid⟩, hmax⟩
    exact ⟨r, hr, hrowid, hmax⟩
  · rintro ⟨r, hr, hrowid, hmax⟩
    exact ⟨r.fileId, List.mem_map_of_mem hr, ⟨r, hr, rfl, hrowid⟩, hmax⟩

/-- Each file has a last transition. -/
theorem exists_last {rows : List TransitionRow} {r : TransitionRow} (hr : r ∈ rows) :
    ∃ last ∈ rows, last.fileId = r.fileId ∧
      ∀ r' ∈ rows, r'.fileId = r.fileId → r'.rowid ≤ last.rowid := by
  have hmem : r.rowid ∈ (rows.filter (·.fileId = r.fileId)).map (·.rowid) :=
    List.mem_map_of_mem (List.mem_filter.mpr ⟨hr, decide_eq_true rfl⟩)
  obtain ⟨rowid, hmax⟩ := Option.isSome_iff_exists.mp (List.isSome_max?_of_mem hmem)
  obtain ⟨⟨last, hlast, hfile, rfl⟩, hall⟩ := max_rowid_iff.mp hmax
  exact ⟨last, hlast, hfile, hall⟩

/-- As long as no last transition is deleted, those of the files stay the same. -/
theorem fileTransitions_eligible_filter {rows : List TransitionRow} {p : TransitionRow → Bool}
    (hkeys : (rows.map fileTransitionsQuery.key).Nodup)
    (hpinned : ∀ r ∈ rows, fileTransitionsQuery.eligible rows r = false → p r = true) :
    ∀ r ∈ rows, p r = true →
      fileTransitionsQuery.eligible (rows.filter p) r = fileTransitionsQuery.eligible rows r := by
  intro r hr hp
  have hsame {r' : TransitionRow} (hr' : r' ∈ rows) (hrowid : r'.rowid = r.rowid) : r' = r :=
    List.inj_on_of_nodup_map hkeys hr' hr hrowid
  have hiff : r.rowid ∈ lastPerFile (rows.filter p) ↔ r.rowid ∈ lastPerFile rows := by
    rw [mem_lastPerFile, mem_lastPerFile]
    constructor
    · rintro ⟨r', hr', hrowid, hmax⟩
      obtain rfl := hsame (List.mem_filter.mp hr').1 hrowid
      -- the last of the file is still there, so it is this one
      obtain ⟨last, hlast, hfile, hall⟩ := exists_last hr
      have hpin : fileTransitionsQuery.eligible rows last = false := by
        refine decide_eq_false (not_not_intro (mem_lastPerFile.mpr ⟨last, hlast, rfl, ?_⟩))
        rwa [hfile]
      have hle := hmax last (List.mem_filter.mpr ⟨hlast, hpinned last hlast hpin⟩) hfile
      exact ⟨r', hr, rfl, fun r'' hr'' hfile'' => (hall r'' hr'' hfile'').trans hle⟩
    · rintro ⟨r', hr', hrowid, hmax⟩
      obtain rfl := hsame hr' hrowid
      exact ⟨r', List.mem_filter.mpr ⟨hr, hp⟩, rfl,
        fun r'' hr'' hfile => hmax r'' (List.mem_filter.mp hr'').1 hfile⟩
  exact decide_eq_decide.mpr (not_congr hiff)

def fileTransitionsTable : RetainedTable TransitionRow Int where
  toTableQuery := fileTransitionsQuery
  time r := r.recordedAt
  effectiveAt_eq r := r.createdAt_text
  eligible_filter := fileTransitions_eligible_filter

/-! ## When retention is exact -/

/-- Retention of both tables does what it says exactly if the cutoff is reachable, and the texts
of stored instants are in the order of the instants. -/
theorem retention_exact_iff (checkedSub : CheckedSub) (now : DateTime) (policy : RetentionPolicy)
    (jobs : Contents jobsTable) (transitions : Contents fileTransitionsTable) (a b : StoredTime) :
    (Exact checkedSub jobsTable now policy (countOldJobs checkedSub) (pruneOldJobs checkedSub)
        jobs.rows ↔
      Reachable checkedSub now policy (jobsTable.eligibleRows jobs.rows).length) ∧
    (Exact checkedSub fileTransitionsTable now policy (countOldFileTransitions checkedSub)
        (pruneOldFileTransitions checkedSub) transitions.rows ↔
      Reachable checkedSub now policy
        (fileTransitionsTable.eligibleRows transitions.rows).length) ∧
    (formatIso a.instant < formatIso b.instant ↔ a.instant < b.instant) :=
  ⟨⟨reachable_of_exact, exact_of_reachable⟩, ⟨reachable_of_exact, exact_of_reachable⟩,
    formatIso_lt_iff a.year_range b.year_range⟩

def newYear : DateTime where
  year := 2026
  month := 1
  day := 1
  hour := 0
  minute := 0
  second := 0
  nanosecond := 0
  month_range := DateTime.month_first
  day_range := by decide
  hour_lt := DateTime.hour_first
  minute_lt := DateTime.minute_first
  second_le := DateTime.second_first
  nanosecond_lt := DateTime.nanosecond_first

/-- Days that the configuration can hold reach back behind the first day of the calendar. -/
theorem retention_overlongAge :
    ¬Exact calendarSub jobsTable newYear
      (tableRetentionToPolicy { keepForDays := some 4294967295 }) (countOldJobs calendarSub)
      (pruneOldJobs calendarSub) [] := by
  intro hexact
  let ranking := sortedRanking jobsQuery.effectiveAt
  obtain ⟨report, rest, hcount, -⟩ := hexact ranking ranking ranking
  have hcutoff : (tableRetentionToPolicy { keepForDays := some 4294967295 }).cutoffStr calendarSub
      newYear = .error .dateTimeOverflow := by decide
  have hpanic : countOldJobs calendarSub ranking newYear
      (tableRetentionToPolicy { keepForDays := some 4294967295 }) [] = .error .dateTimeOverflow :=
    countOld_error hcutoff
  cases hpanic.symm.trans hcount

end Voom.Storage.Retention
