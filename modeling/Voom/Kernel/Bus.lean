-- SUMMARY: The event bus: priority-ordered dispatch, claiming, error results and cascading.
import Mathlib.Tactic.Tauto
import Voom.Domain.Events

/-!
# The event bus

`publish` hands an event to the subscribers that handle its type, in priority
order, until one claims it, and then publishes the events the handlers
produced, down to a fixed cascade depth. Plugins keep state of their own and
share the disk; `σ` is all of that together. Every invocation of a handler is
recorded with the state it ran in, as the bus records it with its stats sink.
-/

namespace Voom.Kernel

/-- What an invocation of `on_event` comes back with. -/
inductive HandlerResult where
  | ok (result : Option EventResult)
  | err (error : VoomError)
  | panicked
  deriving DecidableEq, Repr

/-- A plugin subscribed to the bus at a priority (lower runs earlier). -/
structure Subscriber (σ : Type) where
  pluginName : String
  priority : Int
  handles : EventType → Bool
  onEvent : Event → σ → σ × HandlerResult

/-- One invocation of a handler. -/
structure Delivery (σ : Type) where
  pluginName : String
  event : Event
  before : σ
  result : HandlerResult

/-- The state plugins act on, with the invocations made so far. -/
structure BusState (σ : Type) where
  world : σ
  log : List (Delivery σ) := []

variable {σ : Type}

/-- `subscribe_plugin`: behind every subscriber of the same or a lower value. -/
def subscribePlugin (subs : List (Subscriber σ)) (plugin : Subscriber σ) : List (Subscriber σ) :=
  subs.takeWhile (·.priority ≤ plugin.priority) ++ plugin ::
    subs.dropWhile (·.priority ≤ plugin.priority)

/-- The result the bus makes up for a handler that failed or panicked. -/
def makeErrorResult (pluginName : String) (eventType : EventType) (error : String) : EventResult :=
  { pluginName, producedEvents := [.pluginError ⟨pluginName, eventType, error⟩] }

/-- The result the bus keeps for one invocation, if any. -/
def HandlerResult.toResult (pluginName : String) (eventType : EventType) :
    HandlerResult → Option EventResult
  | .ok result => result
  | .err e => some (makeErrorResult pluginName eventType e.toText)
  | .panicked => some (makeErrorResult pluginName eventType "plugin panicked")

/-- What the bus keeps is the answer of the handler, or an error of its own. -/
theorem HandlerResult.toResult_some {answer : HandlerResult} {name : String} {kind : EventType}
    {r : EventResult} (h : answer.toResult name kind = some r) :
    answer = .ok (some r) ∨ ∃ text, r = makeErrorResult name kind text := by
  cases answer with
  | ok result => exact .inl (congrArg HandlerResult.ok h)
  | err e => exact .inr ⟨_, (Option.some.inj h).symm⟩
  | panicked => exact .inr ⟨_, (Option.some.inj h).symm⟩

/-- Invoke one handler and record the invocation. -/
def invoke (s : Subscriber σ) (event : Event) (st : BusState σ) : BusState σ × HandlerResult :=
  let (world, result) := s.onEvent event st.world
  ({ world, log := st.log ++ [⟨s.pluginName, event, st.world, result⟩] }, result)

/-- Run the matching handlers in order; a claiming result ends the round. -/
def dispatchHandlers (event : Event) :
    List (Subscriber σ) → BusState σ → BusState σ × List EventResult
  | [], st => (st, [])
  | s :: rest, st =>
    let (st, result) := invoke s event st
    match result.toResult s.pluginName event.eventType with
    | none => dispatchHandlers event rest st
    | some r =>
      if r.claimed then (st, [r])
      else
        let (st, rs) := dispatchHandlers event rest st
        (st, r :: rs)

def maxCascadeDepth : Nat := 8

/-- `publish_recursive`; the first argument is how many more levels of cascade
the depth limit allows (`MAX_CASCADE_DEPTH - depth`). -/
def publishRecursive (subs : List (Subscriber σ)) :
    Nat → Event → BusState σ → BusState σ × List EventResult
  | 0, event, st =>
    dispatchHandlers event (subs.filter (·.handles event.eventType)) st
  | remaining + 1, event, st =>
    let (st, results) := dispatchHandlers event (subs.filter (·.handles event.eventType)) st
    let produced := results.flatMap (·.producedEvents)
    produced.foldl (fun (acc : BusState σ × List EventResult) cascaded =>
      let (st, rs) := publishRecursive subs remaining cascaded acc.1
      (st, acc.2 ++ rs)) (st, results)

def publish (subs : List (Subscriber σ)) (event : Event) (st : BusState σ) :
    BusState σ × List EventResult :=
  publishRecursive subs maxCascadeDepth event st

/-! ## What one round and one publication preserve -/

theorem dispatchHandlers_singleton {event : Event} {s : Subscriber σ} {st : BusState σ} :
    (dispatchHandlers event [s] st).1 = (invoke s event st).1 := by
  simp only [dispatchHandlers]
  split
  · rfl
  · split <;> rfl

/-- A round of handlers preserves `P` if every handler's invocation does. -/
theorem dispatchHandlers_preserves {P : BusState σ → Prop} {event : Event}
    {hs : List (Subscriber σ)}
    (hinv : ∀ s ∈ hs, ∀ st, P st → P (invoke s event st).1) {st : BusState σ} (h : P st) :
    P (dispatchHandlers event hs st).1 := by
  induction hs generalizing st with
  | nil => exact h
  | cons s rest ih =>
    have hs : P (invoke s event st).1 := hinv s List.mem_cons_self st h
    have hrest : P (dispatchHandlers event rest (invoke s event st).1).1 :=
      ih (fun s hs => hinv s (List.mem_cons_of_mem _ hs)) hs
    simp only [dispatchHandlers]
    split
    · exact hrest
    · split
      · exact hs
      · exact hrest

/-- Every event a round produces is produced by one of its invocations. -/
theorem mem_produced_of_dispatchHandlers {event produced : Event} {hs : List (Subscriber σ)}
    {st : BusState σ}
    (h : produced ∈ (dispatchHandlers event hs st).2.flatMap (·.producedEvents)) :
    ∃ s ∈ hs, ∃ w r, ((s.onEvent event w).2).toResult s.pluginName event.eventType = some r ∧
      produced ∈ r.producedEvents := by
  induction hs generalizing st with
  | nil => simp [dispatchHandlers] at h
  | cons s rest ih =>
    simp only [dispatchHandlers] at h
    split at h
    · obtain ⟨s', hs', hrest⟩ := ih h
      exact ⟨s', List.mem_cons_of_mem _ hs', hrest⟩
    · rename_i r hr
      have hhead : produced ∈ r.producedEvents →
          ∃ s' ∈ s :: rest, ∃ w r, ((s'.onEvent event w).2).toResult s'.pluginName
            event.eventType = some r ∧ produced ∈ r.producedEvents :=
        fun hmem => ⟨s, List.mem_cons_self, st.world, r, hr, hmem⟩
      split at h
      · exact hhead (by simpa using h)
      · simp only [List.flatMap_cons, List.mem_append] at h
        rcases h with h | h
        · exact hhead h
        · obtain ⟨s', hs', hrest⟩ := ih h
          exact ⟨s', List.mem_cons_of_mem _ hs', hrest⟩

/-- An event nobody handles changes nothing. -/
theorem publishRecursive_unhandled {subs : List (Subscriber σ)} {event : Event}
    (h : ∀ s ∈ subs, s.handles event.eventType = false) (remaining : Nat) (st : BusState σ) :
    publishRecursive subs remaining event st = (st, []) := by
  have hnil : subs.filter (·.handles event.eventType) = [] := by
    simpa using h
  cases remaining <;> simp [publishRecursive, hnil, dispatchHandlers]

/-- An event with a single handler, whose answer nobody handles. -/
theorem publishRecursive_single {subs : List (Subscriber σ)} {event : Event} {s : Subscriber σ}
    {st : BusState σ} (hone : subs.filter (·.handles event.eventType) = [s])
    (hquiet : ∀ r, ((s.onEvent event st.world).2).toResult s.pluginName event.eventType = some r →
      ∀ produced ∈ r.producedEvents, ∀ s ∈ subs, s.handles produced.eventType = false)
    (remaining : Nat) :
    (publishRecursive subs remaining event st).1 = (invoke s event st).1 := by
  cases remaining with
  | zero =>
    simp only [publishRecursive, hone]
    exact dispatchHandlers_singleton
  | succ remaining =>
    have hproduced : ∀ produced ∈ (dispatchHandlers event [s] st).2.flatMap (·.producedEvents),
        ∀ s ∈ subs, s.handles produced.eventType = false := by
      intro produced hmem
      simp only [dispatchHandlers] at hmem
      split at hmem
      · cases hmem
      · rename_i r hr
        refine hquiet r hr produced ?_
        split at hmem <;> simpa using hmem
    have hfold : ∀ (events : List Event),
        (∀ e ∈ events, ∀ s ∈ subs, s.handles e.eventType = false) →
        ∀ acc : BusState σ × List EventResult,
        (events.foldl (fun acc cascaded =>
          ((publishRecursive subs remaining cascaded acc.1).1,
            acc.2 ++ (publishRecursive subs remaining cascaded acc.1).2)) acc).1 = acc.1 := by
      intro events
      induction events with
      | nil => intro _ acc; rfl
      | cons e events ih =>
        intro hevents acc
        rw [List.foldl_cons, ih (fun e he => hevents e (List.mem_cons_of_mem _ he))]
        rw [publishRecursive_unhandled (hevents e List.mem_cons_self)]
    simp only [publishRecursive, hone]
    exact (hfold _ hproduced _).trans dispatchHandlers_singleton

/-- A round whose first handlers do not claim is the round of the first
handlers followed by the round of the others. -/
theorem dispatchHandlers_append {event : Event} {front back : List (Subscriber σ)}
    (hunclaimed : ∀ s ∈ front, ∀ w r,
      ((s.onEvent event w).2).toResult s.pluginName event.eventType = some r → r.claimed = false)
    (st : BusState σ) :
    dispatchHandlers event (front ++ back) st =
      ((dispatchHandlers event back (dispatchHandlers event front st).1).1,
        (dispatchHandlers event front st).2 ++
          (dispatchHandlers event back (dispatchHandlers event front st).1).2) := by
  induction front generalizing st with
  | nil => rfl
  | cons s rest ih =>
    have ih := ih (fun s hs => hunclaimed s (List.mem_cons_of_mem _ hs)) (invoke s event st).1
    simp only [List.cons_append, dispatchHandlers]
    cases hr : HandlerResult.toResult s.pluginName event.eventType (invoke s event st).2 with
    | none => exact ih
    | some r =>
      have hclaim : r.claimed = false := hunclaimed s List.mem_cons_self st.world r hr
      simp only [hclaim, Bool.false_eq_true, if_false, ih, List.cons_append]

/-- The state after a publication: the round, then one publication for every event it
produced. -/
theorem publishRecursive_succ_fst (subs : List (Subscriber σ)) (remaining : Nat) (event : Event)
    (st : BusState σ) :
    (publishRecursive subs (remaining + 1) event st).1 =
      ((dispatchHandlers event (subs.filter (·.handles event.eventType)) st).2.flatMap
        (·.producedEvents)).foldl (fun st cascaded => (publishRecursive subs remaining cascaded st).1)
        (dispatchHandlers event (subs.filter (·.handles event.eventType)) st).1 := by
  have hfold : ∀ (events : List Event) (acc : BusState σ × List EventResult),
      (events.foldl (fun acc cascaded =>
        ((publishRecursive subs remaining cascaded acc.1).1,
          acc.2 ++ (publishRecursive subs remaining cascaded acc.1).2)) acc).1 =
        events.foldl (fun st cascaded => (publishRecursive subs remaining cascaded st).1) acc.1 := by
    intro events
    induction events with
    | nil => exact fun _ => rfl
    | cons e events ih => exact fun acc => ih _
  exact hfold _ _

/-- The cascade rule. `C` is a class of events closed under what handlers
answer to events of the class, and every invocation on an event of the class
preserves `P`. Then a publication whose own round ends in `P` and produces only
events of the class ends in `P`. -/
theorem publishRecursive_of_round {P : BusState σ → Prop} {C : Event → Prop}
    {subs : List (Subscriber σ)}
    (hinv : ∀ s ∈ subs, ∀ event, C event → s.handles event.eventType = true →
      ∀ st, P st → P (invoke s event st).1)
    (hclosed : ∀ s ∈ subs, ∀ event, C event → s.handles event.eventType = true → ∀ w r,
      ((s.onEvent event w).2).toResult s.pluginName event.eventType = some r →
      ∀ produced ∈ r.producedEvents, C produced)
    {remaining : Nat} {event : Event} {st : BusState σ}
    (hround : P (dispatchHandlers event (subs.filter (·.handles event.eventType)) st).1)
    (hproduced : ∀ produced ∈ (dispatchHandlers event
      (subs.filter (·.handles event.eventType)) st).2.flatMap (·.producedEvents), C produced) :
    P (publishRecursive subs remaining event st).1 := by
  induction remaining generalizing event st with
  | zero => exact hround
  | succ remaining ih =>
    -- What the induction hypothesis says of one cascaded event.
    have hcascaded : ∀ cascaded, C cascaded → ∀ st, P st →
        P (publishRecursive subs remaining cascaded st).1 := by
      intro cascaded hC st hst
      refine ih ?_ ?_
      · refine dispatchHandlers_preserves (fun s hs st hst => ?_) hst
        obtain ⟨hs, hh⟩ := List.mem_filter.mp hs
        exact hinv s hs cascaded hC hh st hst
      · intro produced hmem
        obtain ⟨s, hs, w, r, hr, hmem⟩ := mem_produced_of_dispatchHandlers hmem
        obtain ⟨hs, hh⟩ := List.mem_filter.mp hs
        exact hclosed s hs cascaded hC hh w r hr produced hmem
    simp only [publishRecursive]
    generalize dispatchHandlers event (subs.filter (·.handles event.eventType)) st = round at *
    obtain ⟨st', results⟩ := round
    dsimp only at hround hproduced ⊢
    -- The cascade is a fold over the produced events, all of class `C`.
    have hfold : ∀ (events : List Event), (∀ e ∈ events, C e) → ∀ acc : BusState σ × List EventResult,
        P acc.1 → P (events.foldl (fun acc cascaded =>
          ((publishRecursive subs remaining cascaded acc.1).1,
            acc.2 ++ (publishRecursive subs remaining cascaded acc.1).2)) acc).1 := by
      intro events
      induction events with
      | nil => intro _ acc hacc; exact hacc
      | cons e events ihe =>
        intro hevents acc hacc
        rw [List.foldl_cons]
        exact ihe (fun e he => hevents e (List.mem_cons_of_mem _ he)) _
          (hcascaded e (hevents e List.mem_cons_self) acc.1 hacc)
    exact hfold _ hproduced _ hround

/-- A publication of an event of the class preserves `P`. -/
theorem publishRecursive_preserves {P : BusState σ → Prop} {C : Event → Prop}
    {subs : List (Subscriber σ)}
    (hinv : ∀ s ∈ subs, ∀ event, C event → s.handles event.eventType = true →
      ∀ st, P st → P (invoke s event st).1)
    (hclosed : ∀ s ∈ subs, ∀ event, C event → s.handles event.eventType = true → ∀ w r,
      ((s.onEvent event w).2).toResult s.pluginName event.eventType = some r →
      ∀ produced ∈ r.producedEvents, C produced)
    {remaining : Nat} {event : Event} (hC : C event) {st : BusState σ} (h : P st) :
    P (publishRecursive subs remaining event st).1 := by
  refine publishRecursive_of_round hinv hclosed ?_ ?_
  · refine dispatchHandlers_preserves (fun s hs st h => ?_) h
    obtain ⟨hs, hh⟩ := List.mem_filter.mp hs
    exact hinv s hs event hC hh st h
  · intro produced hmem
    obtain ⟨s, hs, w, r, hr, hmem⟩ := mem_produced_of_dispatchHandlers hmem
    obtain ⟨hs, hh⟩ := List.mem_filter.mp hs
    exact hclosed s hs event hC hh w r hr produced hmem

/-! ## Subscribing -/

theorem mem_subscribePlugin {subs : List (Subscriber σ)} {plugin s : Subscriber σ} :
    s ∈ subscribePlugin subs plugin ↔ s = plugin ∨ s ∈ subs := by
  have hsplit := List.takeWhile_append_dropWhile (p := fun s : Subscriber σ =>
    decide (s.priority ≤ plugin.priority)) (l := subs)
  unfold subscribePlugin
  rw [List.mem_append, List.mem_cons]
  conv_rhs => rw [← hsplit, List.mem_append]
  tauto

/-- A plugin that does not handle an event is not in its round. -/
theorem filter_subscribePlugin {subs : List (Subscriber σ)} {plugin : Subscriber σ}
    {p : Subscriber σ → Bool} (h : p plugin = false) :
    (subscribePlugin subs plugin).filter p = subs.filter p := by
  have hsplit := List.takeWhile_append_dropWhile (p := fun s : Subscriber σ =>
    decide (s.priority ≤ plugin.priority)) (l := subs)
  unfold subscribePlugin
  conv_rhs => rw [← hsplit]
  simp only [List.filter_append, List.filter_cons, h, Bool.false_eq_true, if_false]

/-- `subscribePlugin` for every plugin in the order of registration. -/
def subscribeAll (plugins : List (Subscriber σ)) : List (Subscriber σ) :=
  plugins.foldl subscribePlugin []

theorem mem_subscribeAll {plugins : List (Subscriber σ)} {s : Subscriber σ} :
    s ∈ subscribeAll plugins ↔ s ∈ plugins := by
  have hfold : ∀ (plugins subs : List (Subscriber σ)),
      s ∈ plugins.foldl subscribePlugin subs ↔ s ∈ subs ∨ s ∈ plugins := by
    intro plugins
    induction plugins with
    | nil => simp
    | cons plugin plugins ih =>
      intro subs
      rw [List.foldl_cons, ih, mem_subscribePlugin, List.mem_cons]
      tauto
  rw [subscribeAll, hfold]
  simp

theorem filter_foldl_subscribePlugin {plugins subs : List (Subscriber σ)}
    {p : Subscriber σ → Bool} (h : ∀ s ∈ plugins, p s = false) :
    (plugins.foldl subscribePlugin subs).filter p = subs.filter p := by
  induction plugins generalizing subs with
  | nil => rfl
  | cons plugin plugins ih =>
    rw [List.foldl_cons, ih (fun s hs => h s (List.mem_cons_of_mem _ hs)),
      filter_subscribePlugin (h plugin List.mem_cons_self)]

end Voom.Kernel
