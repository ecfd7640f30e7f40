-- SUMMARY: The statistics sink: its channel, its writer thread and the accounts of its records.
import Mathlib.Tactic.Linarith
import Voom.Lib.Ledger

/-!
# Statistics sink

Callers send records into a bounded channel; a writer thread receives them one
by one into its buffer and inserts the buffer in batches. A step is a call or
one round of a loop of the writer, so a run is any interleaving of the two. A
ledger of the calls says what became of each record.
-/

namespace Voom.Storage

open Lib

/-! ## The writer -/

def defaultChannelCapacity : Nat := 4096

def defaultBatchSize : Nat := 256

def maxConsecutiveFlushFailures : Nat := 30

def maxBufferRecords : Nat := 64 * 1024

/-- `fetch_add` of an `AtomicU64`. -/
def fetchAdd (counter n : Nat) : Nat := (counter + n) % 2 ^ 64

/-- What the writer thread works on, with the rows of `plugin_stats`. -/
structure StatsWriter (Record : Type) where
  buf : List Record
  consecutiveFailures : Nat
  failedFlushes : Nat
  evicted : Nat
  stored : List Record
  deriving DecidableEq, Repr

namespace StatsWriter

variable {Record : Type}

/-- The oldest records go when the buffer is too long. -/
def capBuffer (w : StatsWriter Record) : StatsWriter Record :=
  if w.buf.length ≤ maxBufferRecords then w
  else
    let overflow := w.buf.length - maxBufferRecords
    { w with buf := w.buf.drop overflow, evicted := fetchAdd w.evicted overflow }

def push (w : StatsWriter Record) (record : Record) : StatsWriter Record :=
  capBuffer { w with buf := w.buf ++ [record] }

/-- `inserted` says whether `insert_plugin_stats_batch` succeeds: it stores the whole batch or
nothing. -/
def flush (inserted : Bool) (w : StatsWriter Record) : StatsWriter Record :=
  if w.buf.isEmpty then w
  else if inserted then
    { w with stored := w.stored ++ w.buf, buf := [], consecutiveFailures := 0 }
  else
    let failures := min (w.consecutiveFailures + 1) (2 ^ 32 - 1)
    let w := { w with failedFlushes := fetchAdd w.failedFlushes 1, consecutiveFailures := failures }
    if failures ≥ maxConsecutiveFlushFailures then
      { w with evicted := fetchAdd w.evicted w.buf.length, buf := [], consecutiveFailures := 0 }
    else w

/-- What is left at the end of the shutdown is given up. -/
def abandon (w : StatsWriter Record) : StatsWriter Record :=
  if w.buf.isEmpty then w
  else { w with evicted := fetchAdd w.evicted w.buf.length, buf := [] }

end StatsWriter

/-! ## The sink -/

/-- Where the writer thread stands: in its loop, in the retries of the shutdown, or at its end. -/
inductive StatsPhase where
  | looping
  | retrying
  | exited
  deriving DecidableEq, Repr

/-- The sink and its thread. `tx` says whether the sender is still there. -/
structure StatsSink (Record : Type) where
  tx : Bool
  channel : List Record
  dropped : Nat
  writer : StatsWriter Record
  phase : StatsPhase
  deriving DecidableEq, Repr

/-- What happens next. The writer's timer and the outcome of an insert are up to the outside. -/
inductive StatsAct (Record : Type) where
  | record (record : Record)
  | drop
  | received (intervalElapsed inserted : Bool)
  | timeout (inserted : Bool)
  | disconnected
  | retry (inserted : Bool)
  | finish
  deriving Repr

namespace StatsSink

variable {Record : Type}

/-- A new sink over a table with these rows. -/
def new (rows : List Record) : StatsSink Record where
  tx := true
  channel := []
  dropped := 0
  writer := ⟨[], 0, 0, 0, rows⟩
  phase := .looping

/-- `try_send` fails when the channel is full or its receiver is gone. -/
def record (s : StatsSink Record) (record : Record) : StatsSink Record :=
  if s.channel.length < defaultChannelCapacity ∧ s.phase ≠ .exited then
    { s with channel := s.channel ++ [record] }
  else { s with dropped := fetchAdd s.dropped 1 }

/-- `none` where the act cannot come next. -/
def step (s : StatsSink Record) : StatsAct Record → Option (StatsSink Record)
  | .record record =>
    -- `drop` has the sink for itself, so no call comes after it.
    if s.tx then some (s.record record) else none
  | .drop => if s.tx then some { s with tx := false } else none
  | .received intervalElapsed inserted =>
    match s.phase, s.channel with
    | .looping, record :: channel =>
      let w := s.writer.push record
      let w := if w.buf.length ≥ defaultBatchSize ∨ intervalElapsed then w.flush inserted else w
      some { s with channel, writer := w }
    | _, _ => none
  | .timeout inserted =>
    if s.phase = .looping then some { s with writer := s.writer.flush inserted } else none
  | .disconnected =>
    -- The closed channel is drained.
    if s.phase = .looping ∧ s.tx = false then
      some { s with
        channel := [], writer := s.channel.foldl StatsWriter.push s.writer, phase := .retrying }
    else none
  | .retry inserted =>
    if s.phase = .retrying ∧ s.writer.buf.isEmpty = false then
      some { s with writer := s.writer.flush inserted }
    else none
  | .finish =>
    -- The buffer is empty or the deadline has passed.
    if s.phase = .retrying then
      some { s with writer := s.writer.abandon, phase := .exited }
    else none

/-- What each act does, and when. -/
theorem step_cases {s s' : StatsSink Record} {act : StatsAct Record} (h : s.step act = some s') :
    (∃ record, act = .record record ∧ s.tx = true ∧ s' = s.record record) ∨
    (act = .drop ∧ s.tx = true ∧ s' = { s with tx := false }) ∨
    (∃ intervalElapsed inserted record channel, act = .received intervalElapsed inserted ∧
      s.phase = .looping ∧ s.channel = record :: channel ∧
        (s' = { s with channel, writer := s.writer.push record } ∨
          s' = { s with channel, writer := (s.writer.push record).flush inserted })) ∨
    (∃ inserted, act = .timeout inserted ∧ s.phase = .looping ∧
      s' = { s with writer := s.writer.flush inserted }) ∨
    (act = .disconnected ∧ s.phase = .looping ∧ s.tx = false ∧
      s' = { s with
        channel := [], writer := s.channel.foldl StatsWriter.push s.writer, phase := .retrying }) ∨
    (∃ inserted, act = .retry inserted ∧ s.phase = .retrying ∧
      s' = { s with writer := s.writer.flush inserted }) ∨
    (act = .finish ∧ s.phase = .retrying ∧
      s' = { s with writer := s.writer.abandon, phase := .exited }) := by
  cases act with
  | record record =>
    simp only [step, Option.ite_none_right_eq_some, Option.some.injEq] at h
    exact .inl ⟨record, rfl, h.1, h.2.symm⟩
  | drop =>
    simp only [step, Option.ite_none_right_eq_some, Option.some.injEq] at h
    exact .inr (.inl ⟨rfl, h.1, h.2.symm⟩)
  | received intervalElapsed inserted =>
    simp only [step] at h
    split at h
    next record channel hphase hchannel =>
      rw [Option.some.injEq] at h
      refine .inr (.inr (.inl ⟨_, _, record, channel, rfl, hphase, hchannel, ?_⟩))
      split at h
      · exact .inr h.symm
      · exact .inl h.symm
    · cases h
  | timeout inserted =>
    simp only [step, Option.ite_none_right_eq_some, Option.some.injEq] at h
    exact .inr (.inr (.inr (.inl ⟨inserted, rfl, h.1, h.2.symm⟩)))
  | disconnected =>
    simp only [step, Option.ite_none_right_eq_some, Option.some.injEq] at h
    exact .inr (.inr (.inr (.inr (.inl ⟨rfl, h.1.1, h.1.2, h.2.symm⟩))))
  | retry inserted =>
    simp only [step, Option.ite_none_right_eq_some, Option.some.injEq] at h
    exact .inr (.inr (.inr (.inr (.inr (.inl ⟨inserted, rfl, h.1.1, h.2.symm⟩)))))
  | finish =>
    simp only [step, Option.ite_none_right_eq_some, Option.some.injEq] at h
    exact .inr (.inr (.inr (.inr (.inr (.inr ⟨rfl, h.1, h.2.symm⟩)))))

end StatsSink

/-- The record a call passes. -/
def StatsAct.recorded {Record : Type} : StatsAct Record → List Record
  | .record passed => [passed]
  | _ => []

/-- The sinks that runs reach, with the records passed to `record` in a run. -/
inductive StatsReach {Record : Type} (rows : List Record) : List Record → StatsSink Record → Prop
  | new : StatsReach rows [] (StatsSink.new rows)
  | step {calls : List Record} {s s' : StatsSink Record} {act : StatsAct Record}
      (hreach : StatsReach rows calls s) (hstep : s.step act = some s') :
      StatsReach rows (calls ++ act.recorded) s'

/-! ## Accounts -/

/-- What becomes of a record. -/
inductive StatsFate where
  | stored
  | dropped
  | evicted
  deriving DecidableEq, Repr

/-- A ledger accounts for a sink: the records that wait are in the buffer and the channel, the ones
stored are in the table, and the others are counted. -/
structure Accounts {Record : Type} (rows : List Record) (s : StatsSink Record)
    (ledger : Ledger Record StatsFate) : Prop where
  waiting : ledger.waiting = s.writer.buf ++ s.channel
  stored : s.writer.stored = rows ++ ledger.settled .stored
  dropped : s.dropped = (ledger.settled .dropped).length % 2 ^ 64
  evicted : s.writer.evicted = (ledger.settled .evicted).length % 2 ^ 64
  orderly : ledger.Orderly .stored

/-- Some ledger of these calls accounts for the sink. -/
def Accounted {Record : Type} (rows calls : List Record) (s : StatsSink Record) : Prop :=
  ∃ ledger : Ledger Record StatsFate, ledger.items = calls ∧ Accounts rows s ledger

variable {Record : Type} {rows calls : List Record} {s s' : StatsSink Record}

/-- The oldest records of the buffer are evicted and counted. -/
theorem Accounted.evict (h : Accounted rows calls s) {count : Nat}
    (hcount : count ≤ s.writer.buf.length) :
    Accounted rows calls { s with writer := { s.writer with
      buf := s.writer.buf.drop count, evicted := fetchAdd s.writer.evicted count } } := by
  obtain ⟨ledger, hitems, haccounts⟩ := h
  refine ⟨ledger.settle .evicted count, ?_, ?_⟩
  · rw [Ledger.items_settle, hitems]
  · constructor
    · rw [Ledger.waiting_settle, haccounts.waiting, List.drop_append_of_le_length hcount]
    · rw [Ledger.settled_settle_of_ne (by decide)]
      exact haccounts.stored
    · rw [Ledger.settled_settle_of_ne (by decide)]
      exact haccounts.dropped
    · have hlength := Ledger.length_settled_settle StatsFate.evicted count ledger
      rw [haccounts.waiting, List.length_append] at hlength
      simp only [fetchAdd, hlength, haccounts.evicted]
      omega
    · exact haccounts.orderly.settle _ _

/-- The buffer is stored behind the rows that were stored before. -/
theorem Accounted.store (h : Accounted rows calls s) (failures : Nat) :
    Accounted rows calls { s with writer := { s.writer with
      stored := s.writer.stored ++ s.writer.buf, buf := [], consecutiveFailures := failures } } := by
  obtain ⟨ledger, hitems, haccounts⟩ := h
  refine ⟨ledger.settle .stored s.writer.buf.length, ?_, ?_⟩
  · rw [Ledger.items_settle, hitems]
  · constructor
    · rw [Ledger.waiting_settle, haccounts.waiting, List.drop_left]
      rfl
    · rw [Ledger.settled_settle haccounts.orderly, haccounts.waiting, List.take_left]
      simp only [haccounts.stored, List.append_assoc]
    · rw [Ledger.settled_settle_of_ne (by decide)]
      exact haccounts.dropped
    · rw [Ledger.settled_settle_of_ne (by decide)]
      exact haccounts.evicted
    · exact haccounts.orderly.settle _ _

/-- What the accounts do not look at may change. -/
theorem Accounted.congr (h : Accounted rows calls s) (hbuf : s'.writer.buf = s.writer.buf)
    (hchannel : s'.channel = s.channel) (hstored : s'.writer.stored = s.writer.stored)
    (hdropped : s'.dropped = s.dropped) (hevicted : s'.writer.evicted = s.writer.evicted) :
    Accounted rows calls s' := by
  obtain ⟨ledger, hitems, haccounts⟩ := h
  refine ⟨ledger, hitems, ?_⟩
  constructor
  · rw [hbuf, hchannel]
    exact haccounts.waiting
  · rw [hstored]
    exact haccounts.stored
  · rw [hdropped]
    exact haccounts.dropped
  · rw [hevicted]
    exact haccounts.evicted
  · exact haccounts.orderly

/-- The whole buffer is evicted. -/
theorem Accounted.evictAll (h : Accounted rows calls s) {w : StatsWriter Record}
    (hbuf : w.buf = []) (hstored : w.stored = s.writer.stored)
    (hevicted : w.evicted = fetchAdd s.writer.evicted s.writer.buf.length) :
    Accounted rows calls { s with writer := w } := by
  apply (h.evict (Nat.le_refl _)).congr
  · rw [hbuf, List.drop_length]
  · rfl
  · exact hstored
  · rfl
  · exact hevicted

theorem Accounted.capBuffer (h : Accounted rows calls s) :
    Accounted rows calls { s with writer := s.writer.capBuffer } := by
  unfold StatsWriter.capBuffer
  split
  · exact h
  · exact h.evict (Nat.sub_le _ _)

theorem Accounted.flush (h : Accounted rows calls s) (inserted : Bool) :
    Accounted rows calls { s with writer := s.writer.flush inserted } := by
  unfold StatsWriter.flush
  split
  · exact h
  cases inserted with
  | true => exact h.store 0
  | false =>
    simp only [Bool.false_eq_true, if_false]
    split
    · exact h.evictAll rfl rfl rfl
    · exact h.congr rfl rfl rfl rfl rfl

theorem Accounted.abandon (h : Accounted rows calls s) :
    Accounted rows calls { s with writer := s.writer.abandon } := by
  unfold StatsWriter.abandon
  split
  · exact h
  · exact h.evictAll rfl rfl rfl

/-- A record goes from the channel to the buffer. -/
theorem Accounted.push {record : Record} {channel : List Record}
    (h : Accounted rows calls { s with channel := record :: channel }) :
    Accounted rows calls { s with channel, writer := s.writer.push record } := by
  have hmoved : Accounted rows calls
      { s with channel, writer := { s.writer with buf := s.writer.buf ++ [record] } } := by
    obtain ⟨ledger, hitems, haccounts⟩ := h
    refine ⟨ledger, hitems, ?_, haccounts.stored, haccounts.dropped, haccounts.evicted,
      haccounts.orderly⟩
    simpa using haccounts.waiting
  exact hmoved.capBuffer

theorem Accounted.drain (h : Accounted rows calls s) :
    Accounted rows calls
      { s with channel := [], writer := s.channel.foldl StatsWriter.push s.writer } := by
  obtain ⟨tx, channel, dropped, writer, phase⟩ := s
  induction channel generalizing writer with
  | nil => exact h
  | cons record channel ih => exact ih _ (Accounted.push (s := ⟨tx, channel, dropped, writer, phase⟩) h)

theorem Accounted.record (h : Accounted rows calls s) (record : Record) :
    Accounted rows (calls ++ [record]) (s.record record) := by
  obtain ⟨ledger, hitems, haccounts⟩ := h
  unfold StatsSink.record
  split
  · refine ⟨ledger ++ [(record, none)], ?_, ?_⟩
    · rw [Ledger.items_append, hitems]
      rfl
    · constructor
      · rw [Ledger.waiting_append, haccounts.waiting, List.append_assoc]
        rfl
      · rw [Ledger.settled_append]
        simpa [Ledger.settled] using haccounts.stored
      · rw [Ledger.settled_append]
        simpa [Ledger.settled] using haccounts.dropped
      · rw [Ledger.settled_append]
        simpa [Ledger.settled] using haccounts.evicted
      · exact haccounts.orderly.concat record (by decide)
  · refine ⟨ledger ++ [(record, some .dropped)], ?_, ?_⟩
    · rw [Ledger.items_append, hitems]
      rfl
    · constructor
      · rw [Ledger.waiting_append, haccounts.waiting]
        exact List.append_nil _
      · rw [Ledger.settled_append]
        simpa [Ledger.settled] using haccounts.stored
      · have hone : Ledger.settled StatsFate.dropped [(record, some .dropped)] = [record] := rfl
        rw [Ledger.settled_append, hone, List.length_append, List.length_singleton]
        simp only [fetchAdd, haccounts.dropped]
        omega
      · rw [Ledger.settled_append]
        simpa [Ledger.settled] using haccounts.evicted
      · exact haccounts.orderly.concat record (by decide)

theorem accounted_new (rows : List Record) : Accounted rows [] (StatsSink.new rows) :=
  ⟨[], rfl, rfl, (List.append_nil rows).symm, rfl, rfl, List.Pairwise.nil⟩

/-- Each act keeps the accounts. -/
theorem accounted_step {act : StatsAct Record} (h : Accounted rows calls s)
    (hstep : s.step act = some s') : Accounted rows (calls ++ act.recorded) s' := by
  obtain ⟨record, rfl, -, rfl⟩ | ⟨rfl, -, rfl⟩ |
    ⟨_, inserted, record, channel, rfl, -, hchannel, hwriter⟩ | ⟨inserted, rfl, -, rfl⟩ |
    ⟨rfl, -, -, rfl⟩ | ⟨inserted, rfl, -, rfl⟩ | ⟨rfl, -, rfl⟩ := StatsSink.step_cases hstep
  · exact h.record record
  all_goals simp only [StatsAct.recorded, List.append_nil]
  · exact h.congr rfl rfl rfl rfl rfl
  · -- The record is pushed, and then perhaps the buffer is flushed.
    obtain ⟨tx, _, dropped, writer, phase⟩ := s
    subst hchannel
    have hpush := Accounted.push (s := ⟨tx, channel, dropped, writer, phase⟩) h
    obtain rfl | rfl := hwriter
    · exact hpush
    · exact hpush.flush inserted
  · exact h.flush inserted
  · exact h.drain.congr rfl rfl rfl rfl rfl
  · exact h.flush inserted
  · exact h.abandon.congr rfl rfl rfl rfl rfl

theorem accounted_of_reach (h : StatsReach rows calls s) : Accounted rows calls s := by
  induction h with
  | new => exact accounted_new rows
  | step _ hstep ih => exact accounted_step ih hstep

/-! ## The buffer and the shutdown -/

/-- The buffer is bounded; after its loop the writer finds no record in the channel, and at its end
none in the buffer. -/
structure StatsShape (s : StatsSink Record) : Prop where
  bounded : s.writer.buf.length ≤ maxBufferRecords
  closed : s.phase ≠ .looping → s.channel = [] ∧ s.tx = false
  empty : s.phase = .exited → s.writer.buf = []

theorem StatsWriter.length_push_le (w : StatsWriter Record) (record : Record) :
    (w.push record).buf.length ≤ maxBufferRecords := by
  unfold StatsWriter.push StatsWriter.capBuffer
  split
  next h => exact h
  · simp only [List.length_drop]
    omega

theorem StatsWriter.flush_buf (w : StatsWriter Record) (inserted : Bool) :
    (w.flush inserted).buf = w.buf ∨ (w.flush inserted).buf = [] := by
  unfold StatsWriter.flush
  split
  · exact .inl rfl
  split
  · exact .inr rfl
  · simp only
    split
    · exact .inr rfl
    · exact .inl rfl

theorem StatsWriter.length_flush_le {w : StatsWriter Record}
    (h : w.buf.length ≤ maxBufferRecords) (inserted : Bool) :
    (w.flush inserted).buf.length ≤ maxBufferRecords := by
  obtain hbuf | hbuf := w.flush_buf inserted
  · rwa [hbuf]
  · rw [hbuf]
    exact Nat.zero_le _

theorem StatsWriter.abandon_buf (w : StatsWriter Record) : w.abandon.buf = [] := by
  unfold StatsWriter.abandon
  split
  next h => exact List.isEmpty_iff.mp h
  · rfl

theorem StatsWriter.length_drain_le {w : StatsWriter Record}
    (h : w.buf.length ≤ maxBufferRecords) (channel : List Record) :
    (channel.foldl StatsWriter.push w).buf.length ≤ maxBufferRecords := by
  induction channel generalizing w with
  | nil => exact h
  | cons record channel ih => exact ih (w.length_push_le record)

theorem statsShape_step {act : StatsAct Record} (h : StatsShape s) (hstep : s.step act = some s') :
    StatsShape s' := by
  obtain ⟨record, rfl, htx, rfl⟩ | ⟨rfl, htx, rfl⟩ |
    ⟨_, inserted, record, channel, rfl, hphase, hchannel, hwriter⟩ | ⟨inserted, rfl, hphase, rfl⟩ |
    ⟨rfl, hphase, htx, rfl⟩ | ⟨inserted, rfl, hphase, rfl⟩ | ⟨rfl, hphase, rfl⟩ :=
      StatsSink.step_cases hstep
  · -- A call changes the channel only while the sender is there.
    have hphase : s.phase = .looping := by
      cases hphase : s.phase with
      | looping => rfl
      | _ => exact absurd (htx.symm.trans (h.closed (by simp [hphase])).2) (by decide)
    unfold StatsSink.record
    split
    · exact ⟨h.bounded, fun hout => absurd hphase hout, h.empty⟩
    · exact ⟨h.bounded, fun hout => absurd hphase hout, h.empty⟩
  · exact ⟨h.bounded, fun hout => ⟨(h.closed hout).1, rfl⟩, h.empty⟩
  · have hout : ∀ {phase}, s.phase = phase → phase = .looping := fun h => h.symm.trans hphase
    obtain rfl | rfl := hwriter
    · exact ⟨s.writer.length_push_le record, fun hne => absurd hphase hne,
        fun hexit => nomatch (hout hexit)⟩
    · exact ⟨StatsWriter.length_flush_le (s.writer.length_push_le record) inserted,
        fun hne => absurd hphase hne, fun hexit => nomatch (hout hexit)⟩
  · refine ⟨StatsWriter.length_flush_le h.bounded inserted, h.closed, ?_⟩
    intro hexit
    exact absurd (hphase.symm.trans hexit) (by decide)
  · refine ⟨StatsWriter.length_drain_le h.bounded _, fun _ => ⟨rfl, htx⟩, ?_⟩
    intro hexit
    exact nomatch hexit
  · refine ⟨StatsWriter.length_flush_le h.bounded inserted, h.closed, ?_⟩
    intro hexit
    exact absurd (hphase.symm.trans hexit) (by decide)
  · refine ⟨?_, ?_, fun _ => s.writer.abandon_buf⟩
    · simp [StatsWriter.abandon_buf]
    · intro _
      exact h.closed (by rw [hphase]; decide)

theorem statsShape_of_reach (h : StatsReach rows calls s) : StatsShape s := by
  induction h with
  | new => exact ⟨Nat.zero_le _, fun hout => absurd rfl hout, fun _ => rfl⟩
  | step _ hstep ih => exact statsShape_step ih hstep

/-! ## The records of a run -/

/-- Every record has exactly one fate. -/
theorem length_eq_fates (fates : List (Record × StatsFate)) :
    (fates.filter (·.2 = .stored)).length + fates.countP (·.2 = .dropped) +
      fates.countP (·.2 = .evicted) = fates.length := by
  induction fates with
  | nil => rfl
  | cons entry fates ih =>
    obtain ⟨record, fate⟩ := entry
    cases fate with
    | _ =>
      simp
      omega

/-- The records of the calls of a run that is over, each with its fate. -/
theorem exists_fates_of_exited (h : StatsReach rows calls s) (hexit : s.phase = .exited) :
    ∃ fates : List (Record × StatsFate), fates.map Prod.fst = calls ∧
      s.writer.stored = rows ++ (fates.filter (·.2 = .stored)).map Prod.fst ∧
      s.dropped = fates.countP (·.2 = .dropped) % 2 ^ 64 ∧
      s.writer.evicted = fates.countP (·.2 = .evicted) % 2 ^ 64 := by
  have hshape := statsShape_of_reach h
  obtain ⟨ledger, hitems, haccounts⟩ := accounted_of_reach h
  have hwaiting := haccounts.waiting
  rw [hshape.empty hexit, (hshape.closed (by simp [hexit])).1] at hwaiting
  obtain ⟨fates, rfl⟩ := Ledger.exists_fates hwaiting
  refine ⟨fates, ?_, ?_, ?_, ?_⟩
  · rw [← hitems]
    simp [Ledger.items, Function.comp_def]
  · rw [haccounts.stored, Ledger.settled_map_some]
  · rw [haccounts.dropped, Ledger.settled_map_some, List.length_map, List.countP_eq_length_filter]
  · rw [haccounts.evicted, Ledger.settled_map_some, List.length_map, List.countP_eq_length_filter]

/-- When `drop` has returned, each record passed to `record` has exactly one fate: it is stored, or
counted in `dropped`, or counted in `evicted`, and the stored ones are in the order they were
recorded. So the counts add up, as far as counters of 64 bits can say. At no time is the buffer
longer than its bound. -/
theorem stats_accounted (rows calls : List Record) (s : StatsSink Record)
    (h : StatsReach rows calls s) :
    (s.phase = .exited →
      (∃ fates : List (Record × StatsFate), fates.map Prod.fst = calls ∧
        s.writer.stored = rows ++ (fates.filter (·.2 = .stored)).map Prod.fst ∧
        s.dropped = fates.countP (·.2 = .dropped) % 2 ^ 64 ∧
        s.writer.evicted = fates.countP (·.2 = .evicted) % 2 ^ 64) ∧
      (s.writer.stored.length + s.dropped + s.writer.evicted) % 2 ^ 64 =
        (rows.length + calls.length) % 2 ^ 64 ∧
      (calls.length < 2 ^ 64 →
        s.writer.stored.length + s.dropped + s.writer.evicted = rows.length + calls.length)) ∧
    s.writer.buf.length ≤ maxBufferRecords ∧
    ∀ record, (s.writer.push record).buf.length ≤ maxBufferRecords := by
  refine ⟨?_, (statsShape_of_reach h).bounded, s.writer.length_push_le⟩
  intro hexit
  have hfates := exists_fates_of_exited h hexit
  refine ⟨hfates, ?_⟩
  obtain ⟨fates, hcalls, hstored, hdropped, hevicted⟩ := hfates
  have hlength : calls.length = fates.length := by rw [← hcalls, List.length_map]
  have hsum := length_eq_fates fates
  have hrows : s.writer.stored.length = rows.length + (fates.filter (·.2 = .stored)).length := by
    rw [hstored, List.length_append, List.length_map]
  constructor
  · omega
  · intro hfew
    rw [Nat.mod_eq_of_lt (by omega)] at hdropped hevicted
    omega

/-- One step of a run after another. -/
theorem StatsReach.next (h : StatsReach rows calls s) (act : StatsAct Record)
    (hstep : s.step act = some s') : StatsReach rows (calls ++ act.recorded) s' := h.step hstep

/-- A sink that stored two records behind a row, and gave up a third whose insert failed. -/
def lateSink : StatsSink String where
  tx := false
  channel := []
  dropped := 0
  writer := ⟨[], 1, 1, 1, ["boot", "scan", "probe"]⟩
  phase := .exited

/-- The third record comes before the shutdown and cannot be inserted any more. -/
theorem lateSink_accounted :
    StatsReach ["boot"] ["scan", "probe", "plan"] lateSink ∧
      (∃ fates : List (String × StatsFate), fates.map Prod.fst = ["scan", "probe", "plan"] ∧
        lateSink.writer.stored = ["boot"] ++ (fates.filter (·.2 = .stored)).map Prod.fst ∧
        lateSink.dropped = fates.countP (·.2 = .dropped) % 2 ^ 64 ∧
        lateSink.writer.evicted = fates.countP (·.2 = .evicted) % 2 ^ 64) ∧
      lateSink.writer.stored.length + lateSink.dropped + lateSink.writer.evicted = 1 + 3 := by
  have hreach : StatsReach ["boot"] ["scan", "probe", "plan"] lateSink :=
    (((((((((@StatsReach.new String ["boot"]).next (.record "scan") rfl).next (.record "probe")
      rfl).next (.received false false) rfl).next (.received true true) rfl).next (.record "plan")
      rfl).next .drop rfl).next .disconnected rfl).next (.retry false) rfl).next .finish rfl
  obtain ⟨hfates, -, hsum⟩ := (stats_accounted _ _ _ hreach).1 rfl
  exact ⟨hreach, hfates, hsum (by decide)⟩

end Voom.Storage
