-- SUMMARY: The ingest stage of the streaming pipeline and its root-walk dispatcher, in any order of their steps.
import Voom.Process.RootGate
import Voom.Process.TrackCache

/-!
# spawn_ingest_stage

Discovery sends the files it finds on one channel and the roots it has walked on
another. The ingest task turns each file into a work item, which it sends to the
pool when the gate of its root is open and holds back otherwise. The dispatcher
opens the gate of each walked root and sends what was held for it. A run is any
order of the steps of discovery, of both tasks and of the pool.
-/

namespace Voom.Process

open Lib Storage

structure FileDiscoveredEvent where
  path : Path
  size : Nat
  contentHash : Option Hash
  deriving DecidableEq, Repr

/-- A `WorkItem<DiscoveredFilePayload>`, with the path its file was found under. -/
structure FileItem where
  priority : Int
  payload : DiscoveredFilePayload
  source : Path
  deriving DecidableEq, Repr

structure IngestConfig where
  roots : List Path
  badFiles : List Path
  forceRescan : Bool
  priorityByDate : Bool
  executeDuringDiscovery : Bool
  /-- `effective_workers`, which is never zero. -/
  workers : Nat
  workers_pos : 0 < workers
  /-- `to_string_lossy`, read as a path again: it changes paths that are not Unicode. -/
  toStringLossy : Path → Path

namespace IngestConfig

/-- The capacity of the channels of files and of items. -/
def channelDepth (config : IngestConfig) : Nat := config.workers * 4

theorem channelDepth_pos (config : IngestConfig) : 0 < config.channelDepth :=
  Nat.mul_pos config.workers_pos (by decide)

/-- The files that get a work item. -/
def wanted (config : IngestConfig) (path : Path) : Bool :=
  config.forceRescan || !config.badFiles.contains path

end IngestConfig

/-- What the world answers to a step of the ingest task: the outcome of
`ingest_discovered_file` and the priority a file's date gives. -/
structure IngestReply where
  decision : Except String IngestDecision
  datePriority : Int := 100

inductive IngestPoint where
  | receiving
  | checking (root : Path) (item : FileItem)
  | pushing (root : Path) (item : FileItem)
  | sending (item : FileItem)
  | counting
  | joining
  | finishing
  | returned (result : Except String Unit)

/-- The points of the dispatcher, with the root it has received or the items it
has drained and not yet sent. -/
inductive DispatcherPoint where
  | receiving
  | opening (root : Path)
  | draining (root : Path)
  | sending (items : List FileItem)
  | counting (items : List FileItem)
  | exited

/-- The stage. The histories are the files that were found, the roots whose walk
was reported and the items that were sent. -/
structure IngestState where
  files : List FileDiscoveredEvent := []
  completions : List Path := []
  /-- Discovery has dropped its senders. -/
  finished : Bool := false
  cancelled : Bool := false
  gate : RootGate
  holding : HoldingBuffer FileItem := []
  items : List FileItem := []
  /-- The pool has dropped its receiver. -/
  poolGone : Bool := false
  seen : List Path := []
  discovered : Nat := 0
  discoveredPaths : List Path := []
  skippedBad : Nat := 0
  eventsForEta : List FileDiscoveredEvent := []
  dispatched : List Event := []
  enqueued : Nat := 0
  sessionCancelled : Bool := false
  /-- `execution_gate.notify_waiters` was called. -/
  notified : Bool := false
  ingest : IngestPoint := .receiving
  dispatcher : DispatcherPoint := .receiving
  found : List FileDiscoveredEvent := []
  reported : List Path := []
  sent : List FileItem := []

inductive IngestAct where
  | found (event : FileDiscoveredEvent)
  | completed (root : Path)
  | finish
  | cancel
  | ingest (reply : IngestReply)
  | dispatcher
  /-- The pool takes an item. -/
  | take
  | hangUp

namespace IngestState

/-- A send on the item channel, which waits while the channel is full. -/
def sendItem (config : IngestConfig) (s : IngestState) (item : FileItem) : Option IngestState :=
  if s.items.length < config.channelDepth then
    some { s with items := s.items ++ [item], sent := s.sent ++ [item] }
  else none

/-! ## The ingest task -/

/-- Where the task goes with an item. -/
def route (config : IngestConfig) (item : FileItem) : IngestPoint :=
  if config.executeDuringDiscovery then
    match rootForPath config.roots item.payload.path with
    | some root => .checking root item
    -- No matching root: the item passes through.
    | none => .sending item
  else .sending item

/-- Session registration, which needs a hash: whether the file must be introspected again. -/
def register (event : FileDiscoveredEvent) (reply : IngestReply) : Except String Bool :=
  match event.contentHash with
  | some _ => reply.decision.map (·.needsIntrospection)
  | none => .ok true

def itemOf (config : IngestConfig) (event : FileDiscoveredEvent) (reply : IngestReply)
    (needsReintrospect : Bool) : FileItem where
  priority := if config.priorityByDate then reply.datePriority else 100
  payload :=
    { path := config.toStringLossy event.path
      size := event.size
      contentHash := event.contentHash
      needsReintrospect }
  source := event.path

/-- An event that was taken off the channel. -/
def accept (config : IngestConfig) (s : IngestState) (event : FileDiscoveredEvent)
    (reply : IngestReply) : IngestState :=
  if event.path ∈ s.seen then s
  else
    let s :=
      { s with
        seen := s.seen ++ [event.path]
        discovered := s.discovered + 1
        discoveredPaths := s.discoveredPaths ++ [event.path] }
    match register event reply with
    | .error e =>
      { s with
        cancelled := true
        sessionCancelled := true
        ingest := .returned (.error ("ingest_discovered_file failed: " ++ e)) }
    | .ok needsReintrospect =>
      if config.wanted event.path then
        { s with
          eventsForEta := s.eventsForEta ++ [event]
          dispatched := s.dispatched ++ [.other .fileDiscovered]
          ingest := route config (itemOf config event reply needsReintrospect) }
      else { s with skippedBad := s.skippedBad + 1 }

/-- The error for items that were held against a gate that was never opened. -/
def heldMessage (count : Nat) : String :=
  "process pipeline: " ++ toString count ++
    " discovered file(s) held against un-opened root gates after discovery completed — likely " ++
    "a discovery plugin that returned Ok without emitting RootWalkCompletedEvent for every root. " ++
    "Re-run the command; if the failure persists, the discovery plugin is broken."

/-- The end of the task, once the dispatcher has exited. -/
def settle (s : IngestState) : IngestState :=
  let leftover := s.holding.drainAll
  if !s.cancelled && !leftover.isEmpty then
    { s with
      holding := []
      cancelled := true
      ingest := .returned (.error (heldMessage leftover.length)) }
  else { s with holding := [], ingest := .finishing }

def ingestStep (config : IngestConfig) (s : IngestState) (reply : IngestReply) : IngestState :=
  match s.ingest with
  | .receiving =>
    if s.cancelled then { s with ingest := .joining }
    else
      match s.files with
      | [] => if s.finished then { s with ingest := .joining } else s
      | event :: files => { s with files }.accept config event reply
  | .checking root item =>
    { s with ingest := if s.gate.isOpen root then .sending item else .pushing root item }
  | .pushing root item => { s with holding := s.holding.push root item, ingest := .receiving }
  | .sending item =>
    if s.poolGone then { s with ingest := .joining }
    else
      match s.sendItem config item with
      | some s => { s with ingest := .counting }
      | none => s
  | .counting => { s with enqueued := s.enqueued + 1, ingest := .receiving }
  | .joining =>
    if config.executeDuringDiscovery then
      match s.dispatcher with
      | .exited => s.settle
      | _ => s
    else { s with ingest := .finishing }
  | .finishing =>
    { s with notified := s.notified || !s.cancelled, ingest := .returned (.ok ()) }
  | .returned _ => s

/-! ## The dispatcher -/

def dispatcherStep (config : IngestConfig) (s : IngestState) : IngestState :=
  match s.dispatcher with
  | .receiving =>
    if s.cancelled then { s with dispatcher := .exited }
    else
      match s.completions with
      | [] => if s.finished then { s with dispatcher := .exited } else s
      | root :: completions => { s with completions, dispatcher := .opening root }
  | .opening root =>
    { s with
      gate := s.gate.openRoot root
      dispatched := s.dispatched ++ [.other .rootWalkCompleted]
      dispatcher := .draining root }
  | .draining root =>
    { s with
      holding := (s.holding.drainRoot root).2
      dispatcher := .sending (s.holding.drainRoot root).1 }
  | .sending [] => { s with dispatcher := .receiving }
  | .sending (item :: items) =>
    if s.poolGone then { s with dispatcher := .exited }
    else
      match s.sendItem config item with
      | some s => { s with dispatcher := .counting items }
      | none => s
  | .counting items => { s with enqueued := s.enqueued + 1, dispatcher := .sending items }
  | .exited => s

/-! ## Runs -/

/-- Discovery waits while the channel of files is full; the channel of walked
roots has room for one of each and drops what does not fit. -/
def step (config : IngestConfig) (s : IngestState) : IngestAct → IngestState
  | .found event =>
    if s.finished || config.channelDepth ≤ s.files.length then s
    else { s with files := s.files ++ [event], found := s.found ++ [event] }
  | .completed root =>
    if s.finished then s
    else
      let s := { s with reported := s.reported ++ [root] }
      if config.executeDuringDiscovery ∧ s.completions.length < max config.roots.length 1 then
        { s with completions := s.completions ++ [root] }
      else s
  | .finish => { s with finished := true }
  | .cancel => { s with cancelled := true }
  | .ingest reply => s.ingestStep config reply
  | .dispatcher => if config.executeDuringDiscovery then s.dispatcherStep config else s
  | .take => { s with items := s.items.tail }
  | .hangUp => { s with poolGone := true }

def run (config : IngestConfig) (s : IngestState) (acts : List IngestAct) : IngestState :=
  acts.foldl (step config) s

/-- The stage as it is spawned. -/
def initial (config : IngestConfig) : IngestState where
  gate := .new config.roots

end IngestState

end Voom.Process
