-- SUMMARY: The streaming pool: its enqueuer, workers and shutdown, in any order of their steps.
import Mathlib.Data.List.Sort
import Mathlib.Data.Prod.Lex
import Voom.JobManager.Batch

/-!
# process_stream

An enqueuer takes items off a channel, stores them and pushes them on a heap.
Workers wait for the gate, pop the first entry, claim its job and run it. When
all of them have ended and the token is cancelled, the jobs of this run that are
still pending are cancelled. A run is any order of these steps, with items
produced, the gate opened and the token cancelled at any moment.
-/

namespace Voom.JobManager

open Voom.Lib

/-- An entry of the heap: priority, sequence number and job. -/
abbrev Entry := Int ×ₗ (Nat ×ₗ Uuid)

def Entry.of (priority : Int) (seq : Nat) (id : Uuid) : Entry := toLex (priority, toLex (seq, id))

def Entry.priority (e : Entry) : Int := (ofLex e).1

def Entry.seq (e : Entry) : Nat := (ofLex (ofLex e).2).1

def Entry.id (e : Entry) : Uuid := (ofLex (ofLex e).2).2

/-- The points of the enqueuer. -/
inductive EnqueuerPoint where
  | receiving
  | counting (result : JobResult)
  | sending (result : JobResult)
  | pushing (priority : Int) (id : Uuid)
  | recording (id : Uuid)
  | closing
  | done

/-- The points of a worker. One that runs a job has read the failure counter
before. -/
inductive WorkerPoint where
  | spawned
  | waiting
  | looping
  | popping
  | idle
  | idleCheck
  | claiming (id : Uuid)
  | claimed (id : Uuid)
  | running (id : Uuid) (preFailed : Nat) (point : TaskPoint)
  | checking (preFailed : Nat)
  | exited

def WorkerPoint.isExited : WorkerPoint → Bool
  | .exited => true
  | _ => false

/-- A worker that waits for the gate goes on. -/
def WorkerPoint.wake : WorkerPoint → WorkerPoint
  | .waiting => .looping
  | w => w

/-- The points of `process_stream` after it has spawned its tasks. -/
inductive StreamPoint where
  | joining
  | checkToken
  | listing
  | sweeping (ids : List Uuid)
  | sweepWrite (id : Uuid) (ids : List Uuid)
  | returned

/-- The pool. The histories are the jobs that were enqueued, with the rows that
were inserted for them, those whose task has finished, those that left the heap without one, those that were cancelled as
unstarted, and whether the token was found cancelled at the end. -/
structure StreamState where
  shared : Shared
  input : List WorkItem := []
  closed : Bool := false
  enqueuer : EnqueuerPoint := .receiving
  /-- A `BinaryHeap`: its entries in the order they are popped. -/
  heap : List Entry := []
  seq : Nat := 0
  enqueuedIds : List Uuid := []
  producerDone : Bool := false
  workers : List WorkerPoint
  main : StreamPoint := .joining
  enqueued : List Uuid := []
  stored : List Job := []
  retired : List Uuid := []
  dropped : List Uuid := []
  swept : List Uuid := []
  stopped : Bool := false

inductive StreamAct where
  | produce (item : WorkItem)
  | close
  | notify
  | cancel
  | enqueuer (reply : MainReply)
  | worker (i : Nat) (reply : Reply)
  | collect
  | main (now : String)

namespace StreamState

/-- The capacity of the result channel. -/
def capacity (s : StreamState) : Nat := max s.workers.length 1 * 4

/-- `BinaryHeap::push` -/
def push (s : StreamState) (e : Entry) : StreamState :=
  { s with heap := s.heap.orderedInsert (· ≤ ·) e }

def enqueuerStep (s : StreamState) (reply : MainReply) : StreamState :=
  match s.enqueuer with
  | .receiving =>
    if s.shared.cancelled then { s with enqueuer := .closing }
    else
      match s.input with
      | [] => if s.closed then { s with enqueuer := .closing } else s
      | item :: input =>
        match item.payload with
        | .error e =>
          { s with
            input
            enqueuer := .counting (.failure reply.failureId ("payload serialization failed: " ++ e)) }
        | .ok _ =>
          match reply.stored with
          | .error e =>
            { s with input, enqueuer := .counting (.failure reply.failureId ("enqueue failed: " ++ e)) }
          | .ok id =>
            { s with
              input
              shared := s.shared.call (.enqueue id item.priority reply.now)
              enqueuer := .pushing item.priority id
              enqueued := s.enqueued ++ [id]
              stored := s.stored ++ [{ id, priority := item.priority, createdAt := reply.now }] }
  | .counting r => { s with shared := s.shared.count r, enqueuer := .sending r }
  | .sending r =>
    if s.shared.channel.length < s.capacity then
      { s with shared := s.shared.send r, enqueuer := .receiving }
    else s
  | .pushing priority id =>
    { s.push (.of priority s.seq id) with seq := s.seq + 1, enqueuer := .recording id }
  | .recording id => { s with enqueuedIds := id :: s.enqueuedIds, enqueuer := .receiving }
  | .closing => { s with producerDone := true, enqueuer := .done }
  | .done => s

/-- A worker goes on. -/
def setWorker (s : StreamState) (i : Nat) (w : WorkerPoint) : StreamState :=
  { s with workers := s.workers.set i w }

def workerStep (config : PoolConfig) (s : StreamState) (i : Nat) (reply : Reply) : StreamState :=
  match s.workers[i]? with
  | none => s
  | some .spawned => s.setWorker i (if s.shared.cancelled then .exited else .waiting)
  | some .waiting => if s.shared.cancelled then s.setWorker i .exited else s
  | some .looping => s.setWorker i (if s.shared.cancelled then .exited else .popping)
  | some .popping =>
    match s.heap with
    | [] => s.setWorker i .idle
    | e :: heap => { s with heap }.setWorker i (.claiming e.id)
  | some .idle => s.setWorker i (if s.producerDone then .idleCheck else .looping)
  | some .idleCheck => s.setWorker i (if s.heap.isEmpty then .exited else .looping)
  | some (.claiming id) =>
    match reply.claimError, (claimJobById id reply.worker reply.now s.shared.queue.jobs).1 with
    | none, some _ =>
      { s with shared := s.shared.call (.claimById id reply.worker reply.now) }.setWorker i (.claimed id)
    -- A claim that fails or finds nothing: the entry is gone from the heap.
    | _, _ => { s with dropped := s.dropped ++ [id] }.setWorker i .looping
  | some (.claimed id) => s.setWorker i (.running id s.shared.counters.failed .recheck)
  | some (.running id pre p) =>
    let (p', shared) := advance config.strategy s.capacity id reply s.shared p
    if p'.isFinished then
      { s with shared, retired := s.retired ++ [id] }.setWorker i (.checking pre)
    else { s with shared }.setWorker i (.running id pre p')
  | some (.checking pre) =>
    s.setWorker i
      (if config.strategy = .fail ∧ pre < s.shared.counters.failed then .exited else .looping)
  | some .exited => s

/-- `collect_unstarted_enqueued_ids`, in the order of `list_jobs`. -/
def unstartedIds (s : StreamState) : List Uuid :=
  let pending := (s.shared.queue.jobs.filter (·.status = .pending)).mergeSort fun a b =>
    a.priority < b.priority || a.priority = b.priority && b.createdAt ≤ a.createdAt
  (pending.map (·.id)).filter (s.enqueuedIds.contains ·)

def mainStep (s : StreamState) (now : String) : StreamState :=
  match s.main with
  | .joining =>
    if s.producerDone ∧ s.workers.all (·.isExited) ∧ s.shared.channel = [] then
      { s with main := .checkToken }
    else s
  | .checkToken =>
    if s.shared.cancelled then
      { s with
        heap := [], dropped := s.dropped ++ s.heap.map Entry.id, stopped := true, main := .listing }
    else { s with main := .returned }
  | .listing => { s with main := .sweeping s.unstartedIds }
  | .sweeping [] => { s with main := .returned }
  | .sweeping (id :: ids) =>
    if s.shared.queue.cancellable id then { s with main := .sweepWrite id ids }
    else { s with main := .sweeping ids }
  | .sweepWrite id ids =>
    { s with
      shared := s.shared.cancelJob id now, main := .sweeping ids, swept := s.swept ++ [id] }
  | .returned => s

/-- `Notify::notify_waiters` -/
def notify (s : StreamState) : StreamState :=
  { s with workers := s.workers.map WorkerPoint.wake }

def step (config : PoolConfig) (s : StreamState) : StreamAct → StreamState
  | .produce item => if s.closed then s else { s with input := s.input ++ [item] }
  | .close => { s with closed := true }
  | .notify => s.notify
  | .cancel => { s with shared := s.shared.cancel }
  | .enqueuer reply => s.enqueuerStep reply
  | .worker i reply => s.workerStep config i reply
  | .collect => { s with shared := s.shared.receive }
  | .main now => s.mainStep now

def run (config : PoolConfig) (s : StreamState) (acts : List StreamAct) : StreamState :=
  acts.foldl (step config) s

/-- The pool as `process_stream` starts it. -/
def initial (config : PoolConfig) (queue : QueueState) (counters : Counters) (cancelled : Bool) :
    StreamState where
  shared := { queue, counters, cancelled }
  workers := List.replicate config.workers .spawned

end StreamState

end Voom.JobManager
