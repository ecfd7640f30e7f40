-- SUMMARY: What dispatch does: subscribers in stable priority order, and a depth-first traversal of the cascade.
import Voom.Kernel.Bus
import Voom.Lib.BinarySearch
import Voom.Lib.Sorting

/-!
# Dispatch

Subscribing searches the list for the priority and may find any of several equal ones; it
skips to the end of them. A publication is a tree: a node is an event with the calls made for
it, and its children are the events that these calls produced.
-/

namespace Voom.Kernel

open Lib

variable {σ : Type}

/-! ## Subscribing -/

/-- The loop that skips the subscribers of the same priority. -/
def skipEqual (subs : List (Subscriber σ)) (priority : Int) (stop : Nat) : Nat :=
  if h : stop < subs.length then
    if (subs.get ⟨stop, h⟩).priority = priority then skipEqual subs priority (stop + 1) else stop
  else stop
termination_by subs.length - stop

/-- Where `subscribe_plugin` inserts, by the answer of `binary_search_by_key`. -/
def insertionPlace (subs : List (Subscriber σ)) (priority : Int) : Except Nat Nat → Nat
  | .ok i => skipEqual subs priority (i + 1)
  | .error i => i

def comparePriority (priority : Int) (s : Subscriber σ) : Ordering := compare s.priority priority

/-- The list of subscribers after some calls of `subscribe_plugin`, whichever of the subscribers
of one priority each search finds. -/
inductive Subscribed : List (Subscriber σ) → List (Subscriber σ) → Prop where
  | nil : Subscribed [] []
  | subscribe {plugins subs : List (Subscriber σ)} (plugin : Subscriber σ)
      (answer : Except Nat Nat) (h : Subscribed plugins subs)
      (hanswer : BinarySearch.Answers (comparePriority plugin.priority) subs answer) :
      Subscribed (plugins ++ [plugin])
        (subs.insertIdx (insertionPlace subs plugin.priority answer) plugin)

def byPriority (a b : Subscriber σ) : Bool := a.priority ≤ b.priority

theorem byPriority_trans (a b c : Subscriber σ) (hab : byPriority a b) (hbc : byPriority b c) :
    byPriority a c := by
  simp only [byPriority, decide_eq_true_eq] at *
  omega

theorem byPriority_total (a b : Subscriber σ) : byPriority a b || byPriority b a := by
  simp only [byPriority, Bool.or_eq_true, decide_eq_true_eq]
  omega

section Subscribing

variable {subs : List (Subscriber σ)} {plugin : Subscriber σ}

/-- Where a list splits at a priority. -/
structure SplitsAt (subs : List (Subscriber σ)) (priority : Int) (place : Nat) : Prop where
  inside : place ≤ subs.length
  front : ∀ s ∈ subs.take place, s.priority ≤ priority
  back : ∀ s ∈ subs.drop place, priority < s.priority

theorem skipEqual_splits (hsorted : subs.Pairwise (byPriority · ·)) {priority : Int} {stop : Nat}
    (hstop : stop ≤ subs.length) (hfront : ∀ s ∈ subs.take stop, s.priority ≤ priority)
    (hback : ∀ s ∈ subs.drop stop, priority ≤ s.priority) :
    SplitsAt subs priority (skipEqual subs priority stop) := by
  fun_induction skipEqual subs priority stop with
  | case1 stop hlt hequal ih =>
    apply ih hlt
    · intro s hs
      rw [List.take_succ_eq_append_getElem hlt, List.mem_append, List.mem_singleton] at hs
      rcases hs with hs | rfl
      · exact hfront s hs
      · exact hequal.le
    · intro s hs
      apply hback
      rw [List.drop_eq_getElem_cons hlt]
      exact List.mem_cons_of_mem _ hs
  | case2 stop hlt hne =>
    refine ⟨hstop, hfront, fun s hs => ?_⟩
    -- the first subscriber that is not equal is above, and so is what follows it
    rw [List.drop_eq_getElem_cons hlt] at hs hback
    have hfirst : priority < (subs.get ⟨stop, hlt⟩).priority :=
      lt_of_le_of_ne (hback _ List.mem_cons_self) (Ne.symm hne)
    rcases List.mem_cons.mp hs with rfl | hs
    · exact hfirst
    · have hpairs := hsorted.sublist (List.drop_sublist stop subs)
      rw [List.drop_eq_getElem_cons hlt] at hpairs
      have hle := (List.pairwise_cons.mp hpairs).1 s hs
      simp only [byPriority, decide_eq_true_eq] at hle
      exact lt_of_lt_of_le hfirst hle
  | case3 stop hlt =>
    refine ⟨hstop, hfront, fun s hs => ?_⟩
    rw [List.drop_eq_nil_of_le (by omega)] at hs
    cases hs

theorem skipEqual_le {priority : Int} {stop : Nat} (h : stop ≤ subs.length) :
    skipEqual subs priority stop ≤ subs.length := by
  fun_induction skipEqual subs priority stop with
  | case1 stop hlt hequal ih => exact ih hlt
  | case2 stop hlt hne => exact h
  | case3 stop hlt => exact h

theorem insertionPlace_le {priority : Int} {answer : Except Nat Nat}
    (h : BinarySearch.Answers (comparePriority priority) subs answer) :
    insertionPlace subs priority answer ≤ subs.length := by
  cases answer with
  | ok i => exact skipEqual_le h.1
  | error i => exact h.1

/-- Whatever the search answers, the new subscriber goes behind those of its priority. -/
theorem insertionPlace_splits (hsorted : subs.Pairwise (byPriority · ·)) {priority : Int}
    {answer : Except Nat Nat}
    (h : BinarySearch.Answers (comparePriority priority) subs answer) :
    SplitsAt subs priority (insertionPlace subs priority answer) := by
  cases answer with
  | error i =>
    obtain ⟨hle, htake, hdrop⟩ := h
    refine ⟨hle, fun s hs => ?_, fun s hs => ?_⟩
    · exact (Int.compare_eq_lt.mp (htake s hs)).le
    · exact Int.compare_eq_gt.mp (hdrop s hs)
  | ok i =>
    obtain ⟨hi, hequal⟩ := h
    have hfound : (subs.get ⟨i, hi⟩).priority = priority := Int.compare_eq_eq.mp hequal
    have hpairs := List.pairwise_iff_getElem.mp hsorted
    apply skipEqual_splits hsorted hi
    · intro s hs
      obtain ⟨j, hj, rfl⟩ := List.mem_take_iff_getElem.mp hs
      rcases Nat.eq_or_lt_of_le (show j ≤ i by omega) with rfl | hlt
      · exact hfound.le
      · have hle := hpairs j i (by omega) hi hlt
        simp only [byPriority, decide_eq_true_eq] at hle
        exact hle.trans hfound.le
    · intro s hs
      obtain ⟨j, hj, rfl⟩ := List.mem_drop_iff_getElem.mp hs
      have hle := hpairs i (i + 1 + j) hi (by omega) (by omega)
      simp only [byPriority, decide_eq_true_eq] at hle
      exact hfound.ge.trans hle

/-- Inserting there is what `subscribePlugin` does. -/
theorem SplitsAt.insertIdx {place : Nat} (h : SplitsAt subs plugin.priority place) :
    subs.insertIdx place plugin = subscribePlugin subs plugin ∧
      subs.insertIdx place plugin = subs.take place ++ plugin :: subs.drop place := by
  have hlength : (subs.take place).length = place := by
    rw [List.length_take]
    exact Nat.min_eq_left h.inside
  have hinsert := BinarySearch.insertIdx_append_self (subs.take place) (subs.drop place) plugin
  rw [hlength, List.take_append_drop] at hinsert
  refine ⟨?_, hinsert⟩
  rw [hinsert, subscribePlugin]
  have hfront : ∀ s ∈ subs.take place, decide (s.priority ≤ plugin.priority) = true :=
    fun s hs => decide_eq_true (h.front s hs)
  conv_rhs => rw [← List.take_append_drop place subs]
  rw [List.takeWhile_append_of_pos hfront, List.dropWhile_append_of_pos hfront]
  cases hback : subs.drop place with
  | nil => simp
  | cons s rest =>
    have hs : ¬ s.priority ≤ plugin.priority :=
      not_le.mpr (h.back s (hback ▸ List.mem_cons_self))
    simp [hs]

/-- The new list has the old subscribers of every priority, and the new one behind them. -/
theorem SplitsAt.mergeSort {plugins : List (Subscriber σ)} {place : Nat}
    (h : SplitsAt subs plugin.priority place) (hsubs : subs = plugins.mergeSort byPriority) :
    subs.insertIdx place plugin = (plugins ++ [plugin]).mergeSort byPriority := by
  obtain ⟨hsorted, hrank⟩ :=
    (eq_mergeSort_iff byPriority_trans byPriority_total).mp hsubs
  rw [h.insertIdx.2, eq_mergeSort_iff byPriority_trans byPriority_total]
  constructor
  · rw [← List.take_append_drop place subs, List.pairwise_append] at hsorted
    refine List.pairwise_append.mpr ⟨hsorted.1, List.pairwise_cons.mpr ⟨?_, hsorted.2.1⟩, ?_⟩
    · exact fun s hs => decide_eq_true (h.back s hs).le
    · intro a ha b hb
      rcases List.mem_cons.mp hb with rfl | hb
      · exact decide_eq_true (h.front a ha)
      · exact hsorted.2.2 a ha b hb
  · intro a
    have hnew : (plugins ++ [plugin]).filter (sameRank byPriority a) =
        (subs.take place).filter (sameRank byPriority a) ++
          ((subs.drop place).filter (sameRank byPriority a) ++
            [plugin].filter (sameRank byPriority a)) := by
      rw [List.filter_append, ← hrank a]
      conv_lhs => rw [← List.take_append_drop place subs]
      rw [List.filter_append, List.append_assoc]
    rw [hnew, List.filter_append]
    congr 1
    cases hsame : sameRank byPriority a plugin with
    | false => simp [hsame]
    | true =>
      -- nothing behind the new subscriber is of its rank
      have hnone : (subs.drop place).filter (sameRank byPriority a) = [] := by
        refine List.filter_eq_nil_iff.mpr fun s hs hrank => ?_
        have hback := h.back s hs
        have hplugin := (sameRank_iff.mp hsame).1
        have hs := (sameRank_iff.mp hrank).2
        simp only [byPriority, decide_eq_true_eq] at hplugin hs
        omega
      simp [hsame, hnone]

theorem Subscribed.mergeSort {plugins : List (Subscriber σ)} (h : Subscribed plugins subs) :
    subs = plugins.mergeSort byPriority := by
  induction h with
  | nil => simp
  | subscribe plugin answer h hanswer ih =>
    have hsorted := ((eq_mergeSort_iff byPriority_trans byPriority_total).mp ih).1
    exact (insertionPlace_splits hsorted hanswer).mergeSort ih

end Subscribing

/-! ## Publications -/

/-- One call of a handler: what it was called with, and what it answered. -/
structure Call (σ : Type) where
  subscriber : Subscriber σ
  event : Event
  before : σ
  after : σ
  result : HandlerResult

namespace Call

/-- Only a result that says so claims the event; a failure does not. -/
def claims (call : Call σ) : Bool :=
  match call.result with
  | .ok (some result) => result.claimed
  | _ => false

/-- The result that is kept of a call. -/
def kept (call : Call σ) : Option EventResult :=
  call.result.toResult call.subscriber.pluginName call.event.eventType

def delivery (call : Call σ) : Delivery σ :=
  ⟨call.subscriber.pluginName, call.event, call.before, call.result⟩

end Call

/-- The results of some calls. -/
def keptResults (calls : List (Call σ)) : List EventResult := calls.filterMap Call.kept

/-- The events that some calls produced. -/
def producedEvents (calls : List (Call σ)) : List Event :=
  (keptResults calls).flatMap (·.producedEvents)

/-- The calls happen one after the other, from one state to another. -/
def Threads : σ → List (Call σ) → σ → Prop
  | w, [], w' => w = w'
  | w, call :: calls, w' => call.before = w ∧
      call.subscriber.onEvent call.event call.before = (call.after, call.result) ∧
      Threads call.after calls w'

/-- The calls made for one event: its handlers in order, up to the first that claims it. -/
structure Round (handlers : List (Subscriber σ)) (event : Event) (calls : List (Call σ)) :
    Prop where
  events : ∀ call ∈ calls, call.event = event
  inOrder : calls.map (·.subscriber) <+: handlers
  unclaimed : ∀ call ∈ calls.dropLast, call.claims = false
  complete : calls.map (·.subscriber) = handlers ∨
    ∃ call, calls.getLast? = some call ∧ call.claims = true

/-- An event with the calls made for it, and the publications that follow from them. -/
inductive Publication (σ : Type) where
  | node (event : Event) (calls : List (Call σ)) (cascaded : List (Publication σ))

namespace Publication

def event : Publication σ → Event
  | .node event _ _ => event

mutual

/-- All calls of a publication, depth first. -/
def calls : Publication σ → List (Call σ)
  | .node _ calls cascaded => calls ++ callsOf cascaded

def callsOf : List (Publication σ) → List (Call σ)
  | [] => []
  | first :: rest => first.calls ++ callsOf rest

end

mutual

/-- All results of a publication: those for its own event before those for what it produced. -/
def results : Publication σ → List EventResult
  | .node _ calls cascaded => keptResults calls ++ resultsOf cascaded

def resultsOf : List (Publication σ) → List EventResult
  | [] => []
  | first :: rest => first.results ++ resultsOf rest

end

/-- The subscribers that handle an event are called for it, and what they produce is published
once each and in that order, if the depth is below the limit. -/
inductive Follows (subs : List (Subscriber σ)) : Nat → Publication σ → Prop where
  | cascade {depth : Nat} {event : Event} {calls : List (Call σ)}
      {cascaded : List (Publication σ)} (hdepth : depth < maxCascadeDepth)
      (hround : Round (subs.filter (·.handles event.eventType)) event calls)
      (hevents : cascaded.map Publication.event = producedEvents calls)
      (hcascaded : ∀ child ∈ cascaded, Follows subs (depth + 1) child) :
      Follows subs depth (.node event calls cascaded)
  | limit {event : Event} {calls : List (Call σ)}
      (hround : Round (subs.filter (·.handles event.eventType)) event calls) :
      Follows subs maxCascadeDepth (.node event calls [])

end Publication

/-- What happened from one state of the bus to another, and came back. -/
structure Happened (st : BusState σ) (calls : List (Call σ)) (results : List EventResult)
    (out : BusState σ × List EventResult) : Prop where
  threads : Threads st.world calls out.1.world
  log : out.1.log = st.log ++ calls.map Call.delivery
  results : out.2 = results

section Publishing

theorem Threads.append {w w' w'' : σ} {front back : List (Call σ)} (hfront : Threads w front w')
    (hback : Threads w' back w'') : Threads w (front ++ back) w'' := by
  induction front generalizing w with
  | nil =>
    obtain rfl : w = w' := hfront
    exact hback
  | cons call front ih => exact ⟨hfront.1, hfront.2.1, ih hfront.2.2⟩

/-- The call that a handler makes from a state of the bus. -/
def callOf (s : Subscriber σ) (event : Event) (st : BusState σ) : Call σ :=
  ⟨s, event, st.world, (s.onEvent event st.world).1, (s.onEvent event st.world).2⟩

theorem claims_eq {call : Call σ} :
    call.claims = (call.kept.map (·.claimed)).getD false := by
  unfold Call.claims Call.kept
  cases call.result with
  | ok result => cases result <;> rfl
  | err e => rfl
  | panicked => rfl

/-- The handlers are called in order, up to the first that claims. -/
theorem dispatchHandlers_happened (event : Event) (handlers : List (Subscriber σ))
    (st : BusState σ) :
    ∃ calls, Round handlers event calls ∧
      Happened st calls (keptResults calls) (dispatchHandlers event handlers st) := by
  induction handlers generalizing st with
  | nil =>
    refine ⟨[], ⟨by simp, List.prefix_refl _, by simp, .inl rfl⟩, ⟨rfl, ?_, rfl⟩⟩
    simp [dispatchHandlers]
  | cons s rest ih =>
    obtain ⟨calls, hround, hhappened⟩ := ih (invoke s event st).1
    have hkept : (callOf s event st).kept =
        HandlerResult.toResult s.pluginName event.eventType (invoke s event st).2 := rfl
    -- a handler that does not claim goes before the calls of the others
    have hgoes : (callOf s event st).claims = false →
        Round (s :: rest) event (callOf s event st :: calls) := by
      intro hclaims
      refine ⟨?_, ?_, ?_, ?_⟩
      · intro call hcall
        rcases List.mem_cons.mp hcall with rfl | hcall
        · rfl
        · exact hround.events call hcall
      · exact (List.prefix_cons_inj s).mpr hround.inOrder
      · intro call hcall
        cases calls with
        | nil => cases hcall
        | cons first calls =>
          rw [List.dropLast_cons_of_ne_nil (by simp), List.mem_cons] at hcall
          rcases hcall with rfl | hcall
          · exact hclaims
          · exact hround.unclaimed call hcall
      · rcases hround.complete with hall | ⟨call, hlast, hclaim⟩
        · exact .inl (congrArg (s :: ·) hall)
        · refine .inr ⟨call, ?_, hclaim⟩
          rw [List.getLast?_cons, hlast]
          rfl
    have hthreads : Threads st.world (callOf s event st :: calls)
        (dispatchHandlers event rest (invoke s event st).1).1.world := ⟨rfl, rfl, hhappened.threads⟩
    have hlog : (dispatchHandlers event rest (invoke s event st).1).1.log =
        st.log ++ (callOf s event st :: calls).map Call.delivery := by
      rw [hhappened.log, List.map_cons, List.append_cons]
      rfl
    simp only [dispatchHandlers]
    cases hresult : HandlerResult.toResult s.pluginName event.eventType (invoke s event st).2 with
    | none =>
      rw [hresult] at hkept
      refine ⟨callOf s event st :: calls, hgoes ?_, hthreads, hlog, ?_⟩
      · rw [claims_eq, hkept]
        rfl
      · rw [keptResults, List.filterMap_cons_none hkept]
        exact hhappened.results
    | some r =>
      rw [hresult] at hkept
      have hclaims : (callOf s event st).claims = r.claimed := by
        rw [claims_eq, hkept]
        rfl
      cases hclaimed : r.claimed with
      | true =>
        simp only [hclaimed, ↓reduceIte]
        refine ⟨[callOf s event st], ⟨?_, ⟨rest, rfl⟩, by simp, .inr ⟨_, rfl, ?_⟩⟩, ?_⟩
        · intro call hcall
          rw [List.mem_singleton.mp hcall]
          rfl
        · exact hclaims.trans hclaimed
        · rw [keptResults, List.filterMap_cons_some hkept]
          exact ⟨⟨rfl, rfl, rfl⟩, rfl, rfl⟩
      | false =>
        simp only [hclaimed, Bool.false_eq_true, ↓reduceIte]
        refine ⟨callOf s event st :: calls, hgoes (hclaims.trans hclaimed), hthreads, hlog, ?_⟩
        rw [keptResults, List.filterMap_cons_some hkept]
        exact congrArg (r :: ·) hhappened.results

/-- Publishing some events one after the other, if publishing one event is a publication. -/
theorem foldl_happened {subs : List (Subscriber σ)} {depth : Nat}
    {publishOne : Event → BusState σ → BusState σ × List EventResult}
    (hone : ∀ event st, ∃ tree : Publication σ, tree.event = event ∧ tree.Follows subs depth ∧
      Happened st tree.calls tree.results (publishOne event st))
    (events : List Event) (st : BusState σ) (before : List EventResult) :
    ∃ trees : List (Publication σ), trees.map Publication.event = events ∧
      (∀ tree ∈ trees, tree.Follows subs depth) ∧
      Happened st (Publication.callsOf trees) (before ++ Publication.resultsOf trees)
        (events.foldl (fun acc cascaded =>
          ((publishOne cascaded acc.1).1, acc.2 ++ (publishOne cascaded acc.1).2)) (st, before)) := by
  induction events generalizing st before with
  | nil =>
    refine ⟨[], rfl, by simp, rfl, ?_, ?_⟩
    · simp [Publication.callsOf]
    · simp [Publication.resultsOf]
  | cons event events ih =>
    obtain ⟨tree, htree, hfollows, hhappened⟩ := hone event st
    obtain ⟨trees, htrees, hall, hrest⟩ :=
      ih (publishOne event st).1 (before ++ (publishOne event st).2)
    refine ⟨tree :: trees, ?_, ?_, ?_, ?_, ?_⟩
    · rw [List.map_cons, htree, htrees]
    · intro t ht
      rcases List.mem_cons.mp ht with rfl | ht
      · exact hfollows
      · exact hall t ht
    · exact hhappened.threads.append hrest.threads
    · rw [List.foldl_cons, hrest.log, hhappened.log, Publication.callsOf, List.map_append,
        List.append_assoc]
    · rw [List.foldl_cons, hrest.results, hhappened.results, Publication.resultsOf,
        List.append_assoc]

/-- A publication that begins at a depth is a depth-first traversal. -/
theorem publishRecursive_happened (subs : List (Subscriber σ)) {remaining depth : Nat}
    (hdepth : depth + remaining = maxCascadeDepth) (event : Event) (st : BusState σ) :
    ∃ tree : Publication σ, tree.event = event ∧ tree.Follows subs depth ∧
      Happened st tree.calls tree.results (publishRecursive subs remaining event st) := by
  induction remaining generalizing depth event st with
  | zero =>
    obtain ⟨calls, hround, hhappened⟩ :=
      dispatchHandlers_happened event (subs.filter (·.handles event.eventType)) st
    obtain rfl : depth = maxCascadeDepth := hdepth
    have hsame : publishRecursive subs 0 event st =
        dispatchHandlers event (subs.filter (·.handles event.eventType)) st := rfl
    rw [hsame]
    refine ⟨.node event calls [], rfl, .limit hround, ?_, ?_, ?_⟩
    · simpa [Publication.calls, Publication.callsOf] using hhappened.threads
    · simpa [Publication.calls, Publication.callsOf] using hhappened.log
    · simpa [Publication.results, Publication.resultsOf] using hhappened.results
  | succ remaining ih =>
    obtain ⟨calls, hround, hhappened⟩ :=
      dispatchHandlers_happened event (subs.filter (·.handles event.eventType)) st
    have hnext := ih (show depth + 1 + remaining = maxCascadeDepth by omega)
    obtain ⟨cascaded, hevents, hfollows, hcascaded⟩ := foldl_happened hnext (producedEvents calls)
      (dispatchHandlers event (subs.filter (·.handles event.eventType)) st).1 (keptResults calls)
    have hsame : publishRecursive subs (remaining + 1) event st =
        (producedEvents calls).foldl (fun acc cascaded =>
          ((publishRecursive subs remaining cascaded acc.1).1,
            acc.2 ++ (publishRecursive subs remaining cascaded acc.1).2))
          ((dispatchHandlers event (subs.filter (·.handles event.eventType)) st).1,
            keptResults calls) := by
      rw [producedEvents, ← hhappened.results]
      rfl
    rw [hsame]
    refine ⟨.node event calls cascaded, rfl, .cascade (by omega) hround hevents hfollows, ?_, ?_, ?_⟩
    · exact hhappened.threads.append hcascaded.threads
    · rw [hcascaded.log, hhappened.log, Publication.calls, List.map_append, List.append_assoc]
    · exact hcascaded.results

end Publishing

/-- Subscribing sorts the plugins by priority and keeps those of one priority in order, and
publishing to them is the depth-first traversal of a publication. -/
theorem bus_dispatches {plugins subs : List (Subscriber σ)} (h : Subscribed plugins subs) :
    subs = plugins.mergeSort byPriority ∧ ∀ event st, ∃ tree : Publication σ,
      tree.event = event ∧ tree.Follows subs 0 ∧
        Happened st tree.calls tree.results (publish subs event st) :=
  ⟨h.mergeSort, publishRecursive_happened subs (Nat.zero_add _)⟩

/-- A plugin that panics on everything. -/
def panicking (name : String) (priority : Int) : Subscriber Unit where
  pluginName := name
  priority := priority
  handles _ := true
  onEvent _ w := (w, .panicked)

/-- The search for the second plugin finds the first, which has its priority. -/
theorem threePlugins_dispatch :
    [panicking "early" 5, panicking "first" 10, panicking "second" 10] =
      [panicking "first" 10, panicking "second" 10, panicking "early" 5].mergeSort byPriority ∧
    ∀ event st, ∃ tree : Publication Unit, tree.event = event ∧
      tree.Follows [panicking "early" 5, panicking "first" 10, panicking "second" 10] 0 ∧
      Happened st tree.calls tree.results (publish
        [panicking "early" 5, panicking "first" 10, panicking "second" 10] event st) := by
  have hfirst : Subscribed [panicking "first" 10] [panicking "first" 10] :=
    .subscribe (panicking "first" 10) (.error 0) .nil ⟨Nat.le_refl _, by simp, by simp⟩
  have hsecond := Subscribed.subscribe (panicking "second" 10) (.ok 0) hfirst
    ⟨by decide, by decide⟩
  have hplace : insertionPlace [panicking "first" 10] (panicking "second" 10).priority (.ok 0) =
      1 := by
    simp [insertionPlace, skipEqual]
  rw [hplace] at hsecond
  exact bus_dispatches (.subscribe (panicking "early" 5) (.error 0) hsecond
    ⟨by decide, by simp, by decide⟩)

end Voom.Kernel
