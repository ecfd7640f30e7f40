-- SUMMARY: Registration of plugins, and which plugin a capability is routed to.
import Mathlib.Data.List.Pairwise
import Voom.Domain.Capabilities
import Voom.Kernel.Dispatch

/-!
# Registration

A plugin is registered as it is, or initialised first. What it can do is compared with what
the registered plugins can do before `init` runs; what `init` leaves it with is not compared
again. The registry iterates in an order of its own, so an error names one of the plugins
that are in the way.
-/

namespace Voom.Kernel

/-- What the kernel asks of a plugin. -/
structure Plugin (σ : Type) where
  name : String
  capabilities : List Capability
  handles : EventType → Bool
  onEvent : Event → σ → σ × HandlerResult

/-- What `init` does: it may leave another plugin behind, and events to dispatch. -/
abbrev Init (σ : Type) := σ → σ × Except VoomError (Plugin σ × List Event)

/-- A plugin on the bus. -/
structure PluginEntry (σ : Type) where
  plugin : Plugin σ
  priority : Int

def PluginEntry.subscriber (entry : PluginEntry σ) : Subscriber σ where
  pluginName := entry.plugin.name
  priority := entry.priority
  handles := entry.plugin.handles
  onEvent := entry.plugin.onEvent

end Voom.Kernel

namespace Voom

/-- The plugins by name, the plugins on the bus, and what they act on. -/
structure Kernel (σ : Type) where
  registry : List (String × Kernel.Plugin σ)
  subscribers : List (Kernel.PluginEntry σ)
  bus : Kernel.BusState σ

end Voom

namespace Voom.Kernel

open Lib

variable {σ : Type}

/-- What a registration meets in the kernel's collections: the order in which the registry is
iterated, and the answer of the search for a priority. -/
structure Meets (σ : Type) where
  order : List (String × Plugin σ)
  answer : Except Nat Nat

def new (world : σ) : Kernel σ := ⟨[], [], ⟨world, []⟩⟩

def contains (k : Kernel σ) (name : String) : Bool := k.registry.any (·.1 = name)

/-- `Kernel::dispatch`. -/
def dispatch (k : Kernel σ) (event : Event) : Kernel σ :=
  { k with bus := (publish (k.subscribers.map (·.subscriber)) event k.bus).1 }

/-! ## Collisions -/

/-- The error for a capability that is already claimed. -/
def conflict (newName : String) (newCap : Capability) (existingName : String)
    (existingCap : Capability) : Option VoomError :=
  if newCap.kind ≠ existingCap.kind then none
  else
    match newCap.resolution with
    | .exclusive => some (.plugin newName ("capability conflict: " ++ newCap.kind ++
        " already claimed by '" ++ existingName ++ "'"))
    | .sharded => (newCap.shardedCollisionKey existingCap).map fun key =>
        .plugin newName ("capability conflict: " ++ newCap.kind ++ " key '" ++ key ++
          "' already claimed by '" ++ existingName ++ "'")
    | .competing => none

/-- `check_capability_collisions`, with the registry in the order it is iterated in. -/
def checkCapabilityCollisions (order : List (String × Plugin σ)) (newPlugin : Plugin σ) :
    Except VoomError Unit :=
  let found := newPlugin.capabilities.findSome? fun newCap =>
    order.findSome? fun (existingName, existing) =>
      if existingName = newPlugin.name then none
      else existing.capabilities.findSome? (conflict newPlugin.name newCap existingName)
  match found with
  | some error => .error error
  | none => .ok ()

/-! ## The ways in -/

def alreadyRegistered (name : String) : VoomError :=
  .plugin name "a plugin with this name is already registered"

/-- `PluginRegistry::register`, and `subscribe_plugin`. -/
def register (k : Kernel σ) (meets : Meets σ) (plugin : Plugin σ) (priority : Int) :
    Kernel σ × Except VoomError Unit :=
  if k.contains plugin.name then (k, .error (alreadyRegistered plugin.name))
  else
    let place := insertionPlace (k.subscribers.map (·.subscriber)) priority meets.answer
    ({ k with
        registry := k.registry ++ [(plugin.name, plugin)]
        subscribers := k.subscribers.insertIdx place ⟨plugin, priority⟩ }, .ok ())

def registerPlugin (k : Kernel σ) (meets : Meets σ) (plugin : Plugin σ) (priority : Int) :
    Kernel σ × Except VoomError Unit :=
  match checkCapabilityCollisions meets.order plugin with
  | .error e => (k, .error e)
  | .ok () => k.register meets plugin priority

def finishRegistration (k : Kernel σ) (meets : Meets σ) (plugin : Plugin σ) (priority : Int)
    (initEvents : List Event) : Kernel σ × Except VoomError Unit :=
  match k.register meets plugin priority with
  | (k, .error e) => (k, .error e)
  | (k, .ok ()) => (initEvents.foldl dispatch k, .ok ())

/-- The two ways in that initialise; they differ in what they say of a plugin that is held
elsewhere. -/
def initThenRegister (notUnique : String) (k : Kernel σ) (meets : Meets σ) (plugin : Plugin σ)
    (priority : Int) (unique : Bool) (init : Init σ) : Kernel σ × Except VoomError Unit :=
  if k.contains plugin.name then (k, .error (alreadyRegistered plugin.name))
  else
    match checkCapabilityCollisions meets.order plugin with
    | .error e => (k, .error e)
    | .ok () =>
      if unique then
        let (world, result) := init k.bus.world
        let k := { k with bus.world := world }
        match result with
        | .error e => (k, .error (.plugin plugin.name ("init failed: " ++ e.toText)))
        | .ok (initialized, initEvents) => k.finishRegistration meets initialized priority initEvents
      else (k, .error (.plugin plugin.name notUnique))

def initAndRegister (k : Kernel σ) (meets : Meets σ) (plugin : Plugin σ) (priority : Int)
    (unique : Bool) (init : Init σ) : Kernel σ × Except VoomError Unit :=
  initThenRegister "init requires exclusive Arc ownership (refcount must be 1)" k meets plugin
    priority unique init

/-- The kernel holds the only reference to the plugin here. -/
def initAndRegisterShared (k : Kernel σ) (meets : Meets σ) (plugin : Plugin σ) (priority : Int)
    (init : Init σ) : Kernel σ × Except VoomError Unit :=
  initThenRegister ("internal error: Arc refcount > 1 before init " ++
    "(kernel-constructed Arc should be unique)") k meets plugin priority true init

/-- `resolve_capability`: the first plugin in bus order that can do what is asked for. -/
def resolveCapability (debugQuery : CapabilityQuery → String) (subscribers : List (PluginEntry σ))
    (query : CapabilityQuery) : Except VoomError (Plugin σ) :=
  match subscribers.find? fun entry => entry.plugin.capabilities.any (·.matchesQuery query) with
  | some entry => .ok entry.plugin
  | none => .error (.plugin (debugQuery query) ("no handler for capability " ++ debugQuery query))

/-- A call of one of the three ways in. -/
inductive Registration (σ : Type) where
  | registerPlugin (plugin : Plugin σ) (priority : Int)
  | initAndRegister (plugin : Plugin σ) (priority : Int) (unique : Bool) (init : Init σ)
  | initAndRegisterShared (plugin : Plugin σ) (priority : Int) (init : Init σ)

namespace Registration

def run (k : Kernel σ) (meets : Meets σ) : Registration σ → Kernel σ × Except VoomError Unit
  | .registerPlugin plugin priority => k.registerPlugin meets plugin priority
  | .initAndRegister plugin priority unique init =>
    k.initAndRegister meets plugin priority unique init
  | .initAndRegisterShared plugin priority init =>
    k.initAndRegisterShared meets plugin priority init

def priority : Registration σ → Int
  | .registerPlugin _ priority => priority
  | .initAndRegister _ priority _ _ => priority
  | .initAndRegisterShared _ priority _ => priority

end Registration

/-- What a call can meet in a kernel. -/
structure Meets.In (meets : Meets σ) (k : Kernel σ) (call : Registration σ) : Prop where
  order : meets.order.Perm k.registry
  answer : BinarySearch.Answers (comparePriority call.priority)
    (k.subscribers.map (·.subscriber)) meets.answer

/-- The states that calls lead to, if each of them is allowed where it is made. -/
inductive Reached (allowed : Kernel σ → Registration σ → Prop) : Kernel σ → Prop where
  | new (world : σ) : Reached allowed (.new world)
  | step {k : Kernel σ} {meets : Meets σ} {call : Registration σ} (h : Reached allowed k)
      (hmeets : meets.In k call) (hallowed : allowed k call) :
      Reached allowed (call.run k meets).1

/-- The plugin that a call initialises is left as another one. -/
inductive Initializes (k : Kernel σ) : Registration σ → Plugin σ → Prop where
  | plain {plugin initialized : Plugin σ} {priority : Int} {init : Init σ} {world : σ}
      {events : List Event} (hname : k.contains plugin.name = false)
      (hfree : checkCapabilityCollisions k.registry plugin = .ok ())
      (hinit : init k.bus.world = (world, .ok (initialized, events))) :
      Initializes k (.initAndRegister plugin priority true init) initialized
  | shared {plugin initialized : Plugin σ} {priority : Int} {init : Init σ} {world : σ}
      {events : List Event} (hname : k.contains plugin.name = false)
      (hfree : checkCapabilityCollisions k.registry plugin = .ok ())
      (hinit : init k.bus.world = (world, .ok (initialized, events))) :
      Initializes k (.initAndRegisterShared plugin priority init) initialized

/-- What the plugin can do after `init` is not claimed by a registered plugin. -/
def StaysFree (k : Kernel σ) (call : Registration σ) : Prop :=
  ∀ initialized, Initializes k call initialized → k.contains initialized.name = false →
    checkCapabilityCollisions k.registry initialized = .ok ()

/-! ## What collides -/

/-- Two plugins may not claim both. -/
def Collides (cap cap' : Capability) : Prop :=
  cap.kind = cap'.kind ∧ (cap.resolution = .exclusive ∨
    cap.resolution = .sharded ∧ cap.shardedCollisionKey cap' ≠ none)

theorem conflict_eq_none_iff {newName existingName : String} {newCap existingCap : Capability} :
    conflict newName newCap existingName existingCap = none ↔ ¬ Collides newCap existingCap := by
  unfold conflict Collides
  by_cases hkind : newCap.kind = existingCap.kind
  · cases hresolution : newCap.resolution <;> simp [hkind]
  · simp [hkind]

theorem checkCapabilityCollisions_eq_ok_iff {order : List (String × Plugin σ)}
    {plugin : Plugin σ} :
    checkCapabilityCollisions order plugin = .ok () ↔
      ∀ cap ∈ plugin.capabilities, ∀ entry ∈ order, entry.1 ≠ plugin.name →
        ∀ existing ∈ entry.2.capabilities, ¬ Collides cap existing := by
  have hfound : checkCapabilityCollisions order plugin = .ok () ↔
      (plugin.capabilities.findSome? fun newCap =>
        order.findSome? fun (existingName, existing) =>
          if existingName = plugin.name then none
          else existing.capabilities.findSome? (conflict plugin.name newCap existingName)) =
        none := by
    unfold checkCapabilityCollisions
    dsimp only
    generalize plugin.capabilities.findSome? _ = found
    cases found <;> simp
  rw [hfound, List.findSome?_eq_none_iff]
  refine forall₂_congr fun cap _ => ?_
  rw [List.findSome?_eq_none_iff]
  refine forall₂_congr fun entry _ => ?_
  by_cases hname : entry.1 = plugin.name
  · simp [hname]
  · simp only [hname, ↓reduceIte, List.findSome?_eq_none_iff, conflict_eq_none_iff, ne_eq,
      not_false_eq_true, forall_const]

/-- In which order the registry is iterated does not matter to whether a plugin collides. -/
theorem checkCapabilityCollisions_perm {order order' : List (String × Plugin σ)}
    {plugin : Plugin σ} (h : order.Perm order') :
    checkCapabilityCollisions order plugin = .ok () ↔
      checkCapabilityCollisions order' plugin = .ok () := by
  simp only [checkCapabilityCollisions_eq_ok_iff, h.mem_iff]

/-- A query that one plugin at most should answer. -/
def Single : CapabilityQuery → Prop
  | .exclusive _ => True
  | .sharded _ _ => True
  | .competing _ => False

/-- Two capabilities that answer such a query collide. -/
theorem collides_of_matchesQuery {query : CapabilityQuery} (hsingle : Single query)
    {cap cap' : Capability} (h : cap.matchesQuery query = true)
    (h' : cap'.matchesQuery query = true) : Collides cap cap' := by
  cases query with
  | exclusive kind =>
    simp only [Capability.matchesQuery, decide_eq_true_eq] at h h'
    exact ⟨h.1.trans h'.1.symm, .inl h.2⟩
  | sharded kind key =>
    simp only [Capability.matchesQuery, decide_eq_true_eq] at h h'
    refine ⟨h.1.trans h'.1.symm, .inr ⟨h.2.1, ?_⟩⟩
    have hkind := h.1.trans h'.1.symm
    -- the key of the query is one that they have in common
    cases cap with
    | discover schemes =>
      cases cap' <;> simp only [Capability.kind, String.reduceEq] at hkind
      rename_i schemes'
      have hmem : key ∈ schemes := by simpa [Capability.hasKey] using h.2.2
      have hmem' : key ∈ schemes' := by simpa [Capability.hasKey] using h'.2.2
      intro hnone
      rw [Capability.shardedCollisionKey, List.find?_eq_none] at hnone
      exact hnone key hmem (by simpa using hmem')
    | enrichMetadata source =>
      cases cap' <;> simp only [Capability.kind, String.reduceEq] at hkind
      rename_i source'
      have hsource : source = key := by simpa [Capability.hasKey] using h.2.2
      have hsource' : source' = key := by simpa [Capability.hasKey] using h'.2.2
      simp [Capability.shardedCollisionKey, hsource, hsource']
    | _ => simp [Capability.hasKey] at h
  | competing kind => cases hsingle

/-! ## Runs -/

/-- The plugin claims something that the query asks for. -/
def Plugin.matchesQuery (plugin : Plugin σ) (query : CapabilityQuery) : Bool :=
  plugin.capabilities.any (·.matchesQuery query)

/-- What holds of the kernel after every call. -/
structure Unambiguous (k : Kernel σ) : Prop where
  named : ∀ entry ∈ k.registry, entry.1 = entry.2.name
  apart : k.registry.Pairwise fun older newer =>
    ∀ cap ∈ newer.2.capabilities, ∀ existing ∈ older.2.capabilities, ¬ Collides cap existing
  onBus : (k.subscribers.map (·.plugin)).Perm (k.registry.map (·.2))

section Runs

variable {k : Kernel σ} {meets : Meets σ} {call : Registration σ}

theorem foldl_dispatch (k : Kernel σ) (events : List Event) :
    (events.foldl dispatch k).registry = k.registry ∧
      (events.foldl dispatch k).subscribers = k.subscribers := by
  induction events generalizing k with
  | nil => exact ⟨rfl, rfl⟩
  | cons event events ih => exact ih (k.dispatch event)

/-- The registry and the bus are those of another kernel. -/
def SamePlugins (k k' : Kernel σ) : Prop :=
  k'.registry = k.registry ∧ k'.subscribers = k.subscribers

theorem Unambiguous.of_same {k' : Kernel σ} (h : Unambiguous k) (hsame : SamePlugins k k') :
    Unambiguous k' :=
  ⟨hsame.1 ▸ h.named, hsame.1 ▸ h.apart, hsame.1 ▸ hsame.2 ▸ h.onBus⟩

theorem contains_eq_false_iff {name : String} :
    k.contains name = false ↔ ∀ entry ∈ k.registry, entry.1 ≠ name := by
  simp [contains]

/-- What a call can come to: the collections stay, with an error, or one plugin that may come
is added to both. -/
inductive Outcome (k : Kernel σ) (meets : Meets σ) (priority : Int) (comes : Plugin σ → Prop) :
    Kernel σ × Except VoomError Unit → Prop where
  | refused {k' : Kernel σ} (error : VoomError) (hsame : SamePlugins k k') :
      Outcome k meets priority comes (k', .error error)
  | registered {k' : Kernel σ} (plugin : Plugin σ) (hcomes : comes plugin)
      (hname : k.contains plugin.name = false)
      (hregistry : k'.registry = k.registry ++ [(plugin.name, plugin)])
      (hsubscribers : k'.subscribers = k.subscribers.insertIdx
        (insertionPlace (k.subscribers.map (·.subscriber)) priority meets.answer)
        ⟨plugin, priority⟩) :
      Outcome k meets priority comes (k', .ok ())

theorem Outcome.mono {priority : Int} {comes comes' : Plugin σ → Prop}
    {out : Kernel σ × Except VoomError Unit} (h : Outcome k meets priority comes out)
    (hmono : ∀ plugin, comes plugin → comes' plugin) : Outcome k meets priority comes' out := by
  cases h with
  | refused error hsame => exact .refused error hsame
  | registered plugin hcomes hname hregistry hsubscribers =>
    exact .registered plugin (hmono plugin hcomes) hname hregistry hsubscribers

theorem register_outcome (k : Kernel σ) (meets : Meets σ) (plugin : Plugin σ) (priority : Int) :
    Outcome k meets priority (· = plugin) (k.register meets plugin priority) := by
  unfold register
  cases hname : k.contains plugin.name with
  | true => exact .refused _ ⟨rfl, rfl⟩
  | false => exact .registered plugin rfl hname rfl rfl

theorem finishRegistration_outcome (k : Kernel σ) (meets : Meets σ) (plugin : Plugin σ)
    (priority : Int) (events : List Event) :
    Outcome k meets priority (· = plugin) (k.finishRegistration meets plugin priority events) := by
  unfold finishRegistration
  have h := register_outcome k meets plugin priority
  generalize k.register meets plugin priority = out at h
  cases h with
  | refused error hsame => exact .refused error hsame
  | @registered k' plugin hcomes hname hregistry hsubscribers =>
    have hdispatch := foldl_dispatch k' events
    exact .registered plugin hcomes hname (hdispatch.1.trans hregistry)
      (hdispatch.2.trans hsubscribers)

/-- A plugin that comes to the registry this way is one that `init` left. -/
theorem initThenRegister_outcome {notUnique : String} {plugin : Plugin σ} {priority : Int}
    {unique : Bool} {init : Init σ} (horder : meets.order.Perm k.registry) :
    Outcome k meets priority (fun initialized => ∃ world events,
        k.contains plugin.name = false ∧ checkCapabilityCollisions k.registry plugin = .ok () ∧
        unique = true ∧ init k.bus.world = (world, .ok (initialized, events)))
      (initThenRegister notUnique k meets plugin priority unique init) := by
  unfold initThenRegister
  cases hname : k.contains plugin.name with
  | true => exact .refused _ ⟨rfl, rfl⟩
  | false =>
    cases hfree : checkCapabilityCollisions meets.order plugin with
    | error e => exact .refused _ ⟨rfl, rfl⟩
    | ok _ =>
      cases unique with
      | false => exact .refused _ ⟨rfl, rfl⟩
      | true =>
        cases hinit : init k.bus.world with
        | mk world result =>
          cases result with
          | error e => exact .refused _ ⟨rfl, rfl⟩
          | ok left =>
            obtain ⟨initialized, events⟩ := left
            have hfree := (checkCapabilityCollisions_perm horder).mp hfree
            have h := finishRegistration_outcome { k with bus.world := world } meets initialized
              priority events
            simp only [Bool.false_eq_true, ↓reduceIte]
            generalize finishRegistration _ meets initialized priority events = out at h
            cases h with
            | refused error hsame => exact .refused error hsame
            | registered plugin hcomes hname' hregistry hsubscribers =>
              subst hcomes
              exact .registered plugin ⟨world, events, trivial, hfree, trivial, rfl⟩ hname' hregistry
                hsubscribers

/-- A plugin that comes to the registry has been checked, unless the call initialised it. -/
theorem run_outcome (hmeets : meets.In k call) :
    Outcome k meets call.priority (fun plugin => Initializes k call plugin ∨
      checkCapabilityCollisions k.registry plugin = .ok ()) (call.run k meets) := by
  cases call with
  | registerPlugin plugin priority =>
    simp only [Registration.run, registerPlugin]
    cases hfree : checkCapabilityCollisions meets.order plugin with
    | error e => exact .refused _ ⟨rfl, rfl⟩
    | ok _ =>
      refine (register_outcome k meets plugin priority).mono ?_
      rintro _ rfl
      exact .inr ((checkCapabilityCollisions_perm hmeets.order).mp hfree)
  | initAndRegister plugin priority unique init =>
    refine (initThenRegister_outcome hmeets.order).mono ?_
    rintro initialized ⟨world, events, hname, hfree, rfl, hinit⟩
    exact .inl (.plain hname hfree hinit)
  | initAndRegisterShared plugin priority init =>
    refine (initThenRegister_outcome hmeets.order).mono ?_
    rintro initialized ⟨world, events, hname, hfree, -, hinit⟩
    exact .inl (.shared hname hfree hinit)

/-- A registration that stays free keeps the plugins apart. -/
theorem Unambiguous.run (h : Unambiguous k) (hmeets : meets.In k call) (hfree : StaysFree k call) :
    Unambiguous (call.run k meets).1 := by
  have houtcome := run_outcome hmeets
  generalize call.run k meets = out at houtcome
  cases houtcome with
  | refused error hsame => exact h.of_same hsame
  | @registered k' plugin hcomes hname hregistry hsubscribers =>
    have hchecked : checkCapabilityCollisions k.registry plugin = .ok () :=
      hcomes.elim (fun hinit => hfree plugin hinit hname) id
    rw [checkCapabilityCollisions_eq_ok_iff] at hchecked
    refine ⟨?_, ?_, ?_⟩
    · rw [hregistry]
      intro entry hentry
      rcases List.mem_append.mp hentry with hentry | hentry
      · exact h.named entry hentry
      · rw [List.mem_singleton.mp hentry]
    · rw [hregistry]
      refine List.pairwise_append.mpr ⟨h.apart, List.pairwise_singleton .., ?_⟩
      intro older holder newer hnewer cap hcap existing hexisting
      rw [List.mem_singleton.mp hnewer] at hcap
      exact hchecked cap hcap older holder (contains_eq_false_iff.mp hname older holder) existing
        hexisting
    · have hplace : insertionPlace (k.subscribers.map (·.subscriber)) call.priority meets.answer ≤
          k.subscribers.length := by
        simpa using insertionPlace_le hmeets.answer
      rw [hregistry, hsubscribers, List.map_append]
      refine ((List.perm_insertIdx _ _ hplace).map _).trans ?_
      exact (h.onBus.cons plugin).trans (List.perm_append_singleton ..).symm

/-- Plugins that answer a query for one plugin are one plugin. -/
theorem Unambiguous.unique (h : Unambiguous k) {query : CapabilityQuery} (hsingle : Single query)
    {entry entry' : String × Plugin σ} (hentry : entry ∈ k.registry) (hentry' : entry' ∈ k.registry)
    (hmatch : entry.2.matchesQuery query = true) (hmatch' : entry'.2.matchesQuery query = true) :
    entry = entry' := by
  by_contra hne
  have hapart : k.registry.Pairwise fun e e' =>
      ¬ (e.2.matchesQuery query = true ∧ e'.2.matchesQuery query = true) := by
    refine h.apart.imp fun {older newer} hapart hboth => ?_
    obtain ⟨existing, hexisting, hquery⟩ := List.any_eq_true.mp hboth.1
    obtain ⟨cap, hcap, hquery'⟩ := List.any_eq_true.mp hboth.2
    exact hapart cap hcap existing hexisting (collides_of_matchesQuery hsingle hquery' hquery)
  have hsymm : Std.Symm fun e e' : String × Plugin σ =>
      ¬ (e.2.matchesQuery query = true ∧ e'.2.matchesQuery query = true) :=
    ⟨fun e e' hno hboth => hno hboth.symm⟩
  exact hapart.forall hentry hentry' hne ⟨hmatch, hmatch'⟩

theorem Reached.unambiguous (h : Reached StaysFree k) : Unambiguous k := by
  induction h with
  | new world => exact ⟨by simp [Kernel.new], List.Pairwise.nil, List.Perm.refl _⟩
  | step h hmeets hallowed ih => exact ih.run hmeets hallowed

/-- What the resolution finds in the plugins of the registry, in whatever order they are. -/
theorem resolveCapability_cases (debugQuery : CapabilityQuery → String) (query : CapabilityQuery)
    {order : List (PluginEntry σ)}
    (horder : (order.map (·.plugin)).Perm (k.registry.map (·.2))) :
    (∃ entry ∈ k.registry, entry.2.matchesQuery query = true ∧
      resolveCapability debugQuery order query = .ok entry.2) ∨
    (∀ entry ∈ k.registry, entry.2.matchesQuery query = false) ∧
      resolveCapability debugQuery order query = .error (.plugin (debugQuery query)
        ("no handler for capability " ++ debugQuery query)) := by
  unfold resolveCapability
  cases hfind : order.find? fun entry => entry.plugin.capabilities.any (·.matchesQuery query) with
  | some found =>
    have hmem : found.plugin ∈ k.registry.map (·.2) :=
      horder.mem_iff.mp (List.mem_map_of_mem (List.mem_of_find?_eq_some hfind))
    obtain ⟨entry, hentry, hsame⟩ := List.mem_map.mp hmem
    have hmatch := List.find?_some hfind
    refine .inl ⟨entry, hentry, ?_, ?_⟩
    · rw [hsame]
      exact hmatch
    · rw [hsame]
  | none =>
    refine .inr ⟨fun entry hentry => ?_, rfl⟩
    obtain ⟨held, hheld, hsame⟩ :=
      List.mem_map.mp (horder.mem_iff.mpr (List.mem_map_of_mem hentry))
    have hno := List.find?_eq_none.mp hfind held hheld
    rw [hsame] at hno
    exact Bool.eq_false_iff.mpr hno

/-- Where a query is answered by one plugin, the order of the plugins on the bus does not
matter. -/
theorem Unambiguous.resolve (h : Unambiguous k) (debugQuery : CapabilityQuery → String)
    {query : CapabilityQuery} (hsingle : Single query) {order : List (PluginEntry σ)}
    (horder : (order.map (·.plugin)).Perm (k.registry.map (·.2))) :
    resolveCapability debugQuery order query =
      resolveCapability debugQuery k.subscribers query := by
  rcases resolveCapability_cases debugQuery query horder with
    ⟨entry, hentry, hmatch, hresolve⟩ | ⟨hnone, hresolve⟩
  · rcases resolveCapability_cases debugQuery query h.onBus with
      ⟨entry', hentry', hmatch', hresolve'⟩ | ⟨hnone, -⟩
    · rw [hresolve, hresolve', h.unique hsingle hentry hentry' hmatch hmatch']
    · rw [hnone entry hentry] at hmatch
      cases hmatch
  · rcases resolveCapability_cases debugQuery query h.onBus with
      ⟨entry', hentry', hmatch', -⟩ | ⟨-, hresolve'⟩
    · rw [hnone entry' hentry'] at hmatch'
      cases hmatch'
    · rw [hresolve, hresolve']

end Runs

/-- In every run in which no initialised plugin claims what is claimed already, a query for
one plugin is answered by one plugin at most, and by the same however the plugins are ordered;
and in no run does a failed registration change the collections. -/
theorem routing_unambiguous (debugQuery : CapabilityQuery → String) :
    (∀ k : Kernel σ, Reached StaysFree k → ∀ query, Single query →
      (∀ entry ∈ k.registry, ∀ entry' ∈ k.registry, entry.2.matchesQuery query = true →
        entry'.2.matchesQuery query = true → entry = entry') ∧
      ∀ order : List (PluginEntry σ), (order.map (·.plugin)).Perm (k.registry.map (·.2)) →
        resolveCapability debugQuery order query =
          resolveCapability debugQuery k.subscribers query) ∧
    ∀ (k : Kernel σ) (meets : Meets σ) (call : Registration σ), Reached (fun _ _ => True) k →
      meets.In k call → ∀ error, (call.run k meets).2 = .error error →
        SamePlugins k (call.run k meets).1 := by
  constructor
  · intro k hreached query hsingle
    have h := hreached.unambiguous
    refine ⟨fun entry hentry entry' hentry' hmatch hmatch' => ?_, fun order horder => ?_⟩
    · exact h.unique hsingle hentry hentry' hmatch hmatch'
    · exact h.resolve debugQuery hsingle horder
  · intro k meets call _ hmeets error herror
    have houtcome := run_outcome hmeets
    generalize call.run k meets = out at houtcome herror ⊢
    cases houtcome with
    | refused error hsame => exact hsame
    | registered => cases herror

/-- A plugin that does nothing on the bus. -/
def idlePlugin (name : String) (capabilities : List Capability) : Plugin Unit where
  name := name
  capabilities := capabilities
  handles _ := false
  onEvent _ w := (w, .ok none)

/-- The kernel with one plugin, that evaluates policies. -/
def oneEvaluator : Kernel Unit where
  registry := [("evaluator", idlePlugin "evaluator" [.evaluatePolicy])]
  subscribers := [⟨idlePlugin "evaluator" [.evaluatePolicy], 10⟩]
  bus := ⟨(), []⟩

theorem oneEvaluator_reached (allowed : Kernel Unit → Registration Unit → Prop)
    (h : allowed (.new ()) (.registerPlugin (idlePlugin "evaluator" [.evaluatePolicy]) 10)) :
    Reached allowed oneEvaluator := by
  have hmeets : Meets.In ⟨[], .error 0⟩ (Kernel.new ())
      (.registerPlugin (idlePlugin "evaluator" [.evaluatePolicy]) 10) :=
    ⟨List.Perm.refl _, Nat.le_refl _, by simp, by simp [Kernel.new]⟩
  exact (Reached.new ()).step hmeets h

/-- A plugin that turns out to discover files when it is initialised. -/
def discovers : Registration Unit :=
  .initAndRegister (idlePlugin "disk" []) 20 true
    fun w => (w, .ok (idlePlugin "disk" [.discover ["file", "smb"]], []))

def withDiscovery : Kernel Unit where
  registry := oneEvaluator.registry ++ [("disk", idlePlugin "disk" [.discover ["file", "smb"]])]
  subscribers := oneEvaluator.subscribers ++ [⟨idlePlugin "disk" [.discover ["file", "smb"]], 20⟩]
  bus := ⟨(), []⟩

theorem discovers_staysFree : StaysFree oneEvaluator discovers := by
  rintro _ (⟨-, -, hinit⟩ | _) -
  obtain ⟨rfl, -⟩ := Prod.mk.inj (Except.ok.inj (Prod.mk.inj hinit).2)
  rfl

/-- What the second plugin can do after its `init` is its own, so each query has one answer in
either order of the plugins. -/
theorem withDiscovery_routed :
    (∀ entry ∈ withDiscovery.registry, ∀ entry' ∈ withDiscovery.registry,
      entry.2.matchesQuery (.sharded "discover" "smb") = true →
        entry'.2.matchesQuery (.sharded "discover" "smb") = true → entry = entry') ∧
      resolveCapability (fun _ => "") withDiscovery.subscribers.reverse
          (.sharded "discover" "smb") =
        .ok (idlePlugin "disk" [.discover ["file", "smb"]]) := by
  have hmeets : Meets.In ⟨oneEvaluator.registry, .error 1⟩ oneEvaluator discovers :=
    ⟨List.Perm.refl _, by decide, by decide, by decide⟩
  have hreached : Reached StaysFree withDiscovery :=
    (oneEvaluator_reached _ (by rintro _ ⟨⟩)).step hmeets discovers_staysFree
  obtain ⟨hunique, hresolve⟩ := (routing_unambiguous fun _ => "").1 withDiscovery hreached
    (.sharded "discover" "smb") trivial
  have horder : (withDiscovery.subscribers.reverse.map (·.plugin)).Perm
      (withDiscovery.registry.map (·.2)) := .swap ..
  exact ⟨hunique, (hresolve _ horder).trans rfl⟩

/-- A plugin that claims to evaluate policies only after its `init` is registered beside the
one that does, and a query goes to the one that the bus has first. -/
theorem lateClaim_ambiguous :
    ∃ k : Kernel Unit, Reached (fun _ _ => True) k ∧
      k.registry = [("evaluator", idlePlugin "evaluator" [.evaluatePolicy]),
        ("late", idlePlugin "late" [.evaluatePolicy])] ∧
      (∀ entry ∈ k.registry, entry.2.matchesQuery (.exclusive "evaluate_policy") = true) ∧
      resolveCapability (fun _ => "") k.subscribers (.exclusive "evaluate_policy") =
        .ok (idlePlugin "late" [.evaluatePolicy]) ∧
      resolveCapability (fun _ => "") k.subscribers.reverse (.exclusive "evaluate_policy") =
        .ok (idlePlugin "evaluator" [.evaluatePolicy]) := by
  have hmeets : Meets.In ⟨oneEvaluator.registry, .error 0⟩ oneEvaluator
      (.initAndRegister (idlePlugin "late" []) 5 true
        fun w => (w, .ok (idlePlugin "late" [.evaluatePolicy], []))) :=
    ⟨List.Perm.refl _, Nat.zero_le _, by simp, by decide⟩
  refine ⟨_, (oneEvaluator_reached _ trivial).step hmeets trivial, rfl, ?_, rfl, rfl⟩
  intro entry hentry
  rcases List.mem_cons.mp hentry with rfl | hentry
  · rfl
  · rw [List.mem_singleton.mp hentry]
    rfl

end Voom.Kernel
