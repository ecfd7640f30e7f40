-- SUMMARY: When a plan that is reported successful has been carried out in full.
import Voom.Dsl.Validator
import Voom.Evaluator.Evaluate
import Voom.Executors.Execution
import Voom.Executors.Ffmpeg
import Voom.Executors.Verifier
import Voom.Process.Dispatch

/-!
# What success means

The MKVToolNix executor and the verifier claim a plan as a whole and report one outcome
for it. A plan is reported successful as soon as one of its actions was, and actions may
be claimed that no tool is asked for. `success_means_carried_out_iff` says for which plans
and outcomes of the tools success still means that every action was carried out.
-/

namespace Voom.Executors

/-! ## Actions that were carried out -/

/-- The deed carries out the action. -/
def Verifier.Deed.Does (action : PlannedAction) : Verifier.Deed → Prop
  | .verified mode => action.parameters = .verifyMedia mode
  | .quarantined reason => action.parameters = .quarantine reason

/-- What the two executors have done, and the state of all other plugins. -/
structure World (τ : Type) where
  mkvtoolnix : List Mkvtoolnix.Deed := []
  verifier : List Verifier.Deed := []
  rest : τ

/-- One of the deeds carries out the action. -/
def CarriedOut {τ : Type} (w : World τ) (action : PlannedAction) : Prop :=
  (∃ deed ∈ w.mkvtoolnix, deed.Does action) ∨ ∃ deed ∈ w.verifier, deed.Does action

/-! ## The kernel -/

open Kernel Process

/-- Outcomes of the tools, identifiers for new plans, and what the executors found at start. -/
structure Settings where
  mkvtoolnixAvailable : Bool
  mkvtoolnix : Plan → Mkvtoolnix.Env
  ffmpegConfig : Ffmpeg.Config
  ffmpeg : Plan → Except VoomError (List ActionResult)
  verifier : Plan → Verifier.Env
  newIds : SubtitleGeneratedEvent → Uuid × Uuid

section

variable {τ : Type} (settings : Settings)

/-- An outcome of `on_event`. -/
def toHandlerResult : Except VoomError (Option EventResult) → HandlerResult
  | .ok result => .ok result
  | .error e => .err e

def handlesPlans : EventType → Bool
  | .planCreated | .subtitleGenerated => true
  | _ => false

def mkvtoolnixPlugin : Subscriber (World τ) where
  pluginName := Mkvtoolnix.pluginName
  priority := 39
  handles := handlesPlans
  onEvent event w :=
    match event with
    | .planCreated plan =>
      let (result, deeds) := Mkvtoolnix.handlePlanCreated settings.mkvtoolnixAvailable
        (settings.mkvtoolnix plan) plan
      ({ w with mkvtoolnix := w.mkvtoolnix ++ deeds }, .ok result)
    | .subtitleGenerated evt =>
      let (fileId, planId) := settings.newIds evt
      (w, toHandlerResult
        (Mkvtoolnix.handleSubtitleGenerated settings.mkvtoolnixAvailable evt fileId planId))
    | _ => (w, .ok none)

def ffmpegPlugin : Subscriber (World τ) where
  pluginName := Ffmpeg.pluginName
  priority := 40
  handles := handlesPlans
  onEvent event w :=
    match event with
    | .planCreated plan =>
      (w, .ok (Ffmpeg.handlePlanCreated settings.ffmpegConfig settings.ffmpeg plan))
    | .subtitleGenerated evt =>
      let (fileId, planId) := settings.newIds evt
      (w, toHandlerResult
        (Ffmpeg.handleSubtitleGenerated settings.ffmpegConfig evt fileId planId))
    | _ => (w, .ok none)

def verifierPlugin : Subscriber (World τ) where
  pluginName := Verifier.pluginName
  priority := 50
  handles := fun kind => kind = .planCreated
  onEvent event w :=
    match event with
    | .planCreated plan =>
      match Verifier.handlePlanCreated (settings.verifier plan) plan with
      | .ok none => (w, .ok none)
      | .ok (some (result, deed)) => ({ w with verifier := w.verifier ++ [deed] }, .ok (some result))
      | .error e => (w, .err e)
    | _ => (w, .ok none)

end

/-- A plugin that has no part in executing plans: it claims nothing, reports no execution
error, starts no plan and leaves the deeds alone. -/
structure Bystander {τ : Type} (s : Subscriber (World τ)) : Prop where
  deeds : ∀ event w, (s.onEvent event w).1.mkvtoolnix = w.mkvtoolnix ∧
    (s.onEvent event w).1.verifier = w.verifier
  quiet : ∀ event w r,
    (s.onEvent event w).2.toResult s.pluginName event.eventType = some r →
      r.claimed = false ∧ r.executionError = none ∧
        ∀ produced ∈ r.producedEvents, handlesPlans produced.eventType = false

/-- The executors in the order of their priorities, with bystanders around them. -/
structure Plugins (τ : Type) where
  settings : Settings
  first : List (Subscriber (World τ))
  second : List (Subscriber (World τ))
  third : List (Subscriber (World τ))
  last : List (Subscriber (World τ))
  bystanders : ∀ s ∈ first ++ second ++ third ++ last, Bystander s

def Plugins.subs {τ : Type} (k : Plugins τ) : List (Subscriber (World τ)) :=
  k.first ++ mkvtoolnixPlugin k.settings :: (k.second ++ ffmpegPlugin k.settings ::
    (k.third ++ verifierPlugin k.settings :: k.last))

/-! ## Events that start no plan -/

section

variable {τ : Type}

/-- A result that has no say in the outcome of a plan. -/
def Quiet (r : EventResult) : Prop := r.claimed = false ∧ r.executionError = none

/-- The deeds of both executors. -/
def World.deeds (w : World τ) : List Mkvtoolnix.Deed × List Verifier.Deed :=
  (w.mkvtoolnix, w.verifier)

theorem Bystander.invoke_deeds {s : Subscriber (World τ)} (h : Bystander s) (event : Event)
    (st : BusState (World τ)) : (invoke s event st).1.world.deeds = st.world.deeds :=
  Prod.ext (h.deeds event st.world).1 (h.deeds event st.world).2

/-- Bystanders leave a round to those behind them. -/
theorem dispatchHandlers_bystanders {front : List (Subscriber (World τ))}
    (h : ∀ s ∈ front, Bystander s) (back : List (Subscriber (World τ))) (event : Event)
    (st : BusState (World τ)) :
    ∃ st' results, st'.world.deeds = st.world.deeds ∧
      (∀ r ∈ results, Quiet r ∧ ∀ e ∈ r.producedEvents, handlesPlans e.eventType = false) ∧
      dispatchHandlers event (front ++ back) st =
        ((dispatchHandlers event back st').1, results ++ (dispatchHandlers event back st').2) := by
  induction front generalizing st with
  | nil => exact ⟨st, [], rfl, by simp, rfl⟩
  | cons s front ih =>
    rw [List.forall_mem_cons] at h
    obtain ⟨st', results, hdeeds, hquiet, heq⟩ := ih h.2 (invoke s event st).1
    rw [h.1.invoke_deeds] at hdeeds
    simp only [List.cons_append, dispatchHandlers, heq]
    cases hr : HandlerResult.toResult s.pluginName event.eventType (invoke s event st).2 with
    | none => exact ⟨st', results, hdeeds, hquiet, rfl⟩
    | some r =>
      obtain ⟨hclaim, herror, hproduced⟩ := h.1.quiet event st.world r hr
      refine ⟨st', r :: results, hdeeds, ?_, ?_⟩
      · rw [List.forall_mem_cons]
        exact ⟨⟨⟨hclaim, herror⟩, hproduced⟩, hquiet⟩
      · simp only [hclaim, Bool.false_eq_true, if_false, List.cons_append]

theorem dispatchHandlers_all_bystanders {subs : List (Subscriber (World τ))}
    (h : ∀ s ∈ subs, Bystander s) (event : Event) (st : BusState (World τ)) :
    (dispatchHandlers event subs st).1.world.deeds = st.world.deeds ∧
      ∀ r ∈ (dispatchHandlers event subs st).2,
        Quiet r ∧ ∀ e ∈ r.producedEvents, handlesPlans e.eventType = false := by
  obtain ⟨st', results, hdeeds, hquiet, heq⟩ :=
    dispatchHandlers_bystanders h [] event st
  rw [List.append_nil] at heq
  rw [heq]
  refine ⟨hdeeds, fun r hr => hquiet r ?_⟩
  simpa [dispatchHandlers] using hr

/-- A cascade of events that start no plan. -/
theorem cascade_quiet {subs : List (Subscriber (World τ))} {remaining : Nat}
    (hone : ∀ event, handlesPlans event.eventType = false → ∀ st,
      (publishRecursive subs remaining event st).1.world.deeds = st.world.deeds ∧
        ∀ r ∈ (publishRecursive subs remaining event st).2, Quiet r)
    {events : List Event} (hevents : ∀ e ∈ events, handlesPlans e.eventType = false)
    (acc : BusState (World τ) × List EventResult) :
    ∃ later, (∀ r ∈ later, Quiet r) ∧
      (events.foldl (fun (acc : BusState (World τ) × List EventResult) cascaded =>
        ((publishRecursive subs remaining cascaded acc.1).1,
          acc.2 ++ (publishRecursive subs remaining cascaded acc.1).2)) acc).2 = acc.2 ++ later ∧
      (events.foldl (fun (acc : BusState (World τ) × List EventResult) cascaded =>
        ((publishRecursive subs remaining cascaded acc.1).1,
          acc.2 ++ (publishRecursive subs remaining cascaded acc.1).2)) acc).1.world.deeds =
        acc.1.world.deeds := by
  induction events generalizing acc with
  | nil => exact ⟨[], by simp, by simp, rfl⟩
  | cons event events ih =>
    rw [List.forall_mem_cons] at hevents
    obtain ⟨hdeeds, hquiet⟩ := hone event hevents.1 acc.1
    obtain ⟨later, hlater, heq, hdeeds'⟩ := ih hevents.2
      ((publishRecursive subs remaining event acc.1).1,
        acc.2 ++ (publishRecursive subs remaining event acc.1).2)
    refine ⟨(publishRecursive subs remaining event acc.1).2 ++ later, ?_, ?_, ?_⟩
    · exact List.forall_mem_append.mpr ⟨hquiet, hlater⟩
    · rw [List.foldl_cons, heq, List.append_assoc]
    · rw [List.foldl_cons, hdeeds', hdeeds]

variable (k : Plugins τ)

/-- Only bystanders handle an event that starts no plan. -/
theorem Plugins.bystander_of_handles {event : Event} (h : handlesPlans event.eventType = false) :
    ∀ s ∈ k.subs.filter (·.handles event.eventType), Bystander s := by
  intro s hs
  obtain ⟨hmem, hhandles⟩ := List.mem_filter.mp hs
  have hby := k.bystanders s
  simp only [Plugins.subs, List.mem_append, List.mem_cons] at hmem hby
  have hverifier : (verifierPlugin k.settings : Subscriber (World τ)).handles event.eventType =
      false := by
    refine decide_eq_false fun heq => ?_
    rw [heq] at h
    cases h
  rcases hmem with hs | rfl | hs | rfl | hs | rfl | hs
  · exact hby (.inl (.inl (.inl hs)))
  · exact absurd (hhandles.symm.trans h) (by decide)
  · exact hby (.inl (.inl (.inr hs)))
  · exact absurd (hhandles.symm.trans h) (by decide)
  · exact hby (.inl (.inr hs))
  · exact absurd (hhandles.symm.trans hverifier) (by decide)
  · exact hby (.inr hs)

theorem Plugins.publish_quiet (remaining : Nat) (event : Event)
    (h : handlesPlans event.eventType = false) (st : BusState (World τ)) :
    (publishRecursive k.subs remaining event st).1.world.deeds = st.world.deeds ∧
      ∀ r ∈ (publishRecursive k.subs remaining event st).2, Quiet r := by
  induction remaining generalizing event st with
  | zero =>
    obtain ⟨hdeeds, hquiet⟩ :=
      dispatchHandlers_all_bystanders (k.bystander_of_handles h) event st
    exact ⟨hdeeds, fun r hr => (hquiet r hr).1⟩
  | succ remaining ih =>
    obtain ⟨hdeeds, hquiet⟩ :=
      dispatchHandlers_all_bystanders (k.bystander_of_handles h) event st
    simp only [publishRecursive]
    have hproduced : ∀ e ∈ (dispatchHandlers event
        (k.subs.filter (·.handles event.eventType)) st).2.flatMap (·.producedEvents),
        handlesPlans e.eventType = false := by
      intro e he
      obtain ⟨r, hr, he⟩ := List.mem_flatMap.mp he
      exact (hquiet r hr).2 e he
    obtain ⟨later, hlater, heq, hlast⟩ := cascade_quiet ih hproduced
      (dispatchHandlers event (k.subs.filter (·.handles event.eventType)) st)
    rw [heq, hlast]
    exact ⟨hdeeds, List.forall_mem_append.mpr ⟨fun r hr => (hquiet r hr).1, hlater⟩⟩

/-! ## The plan itself -/

/-- The plugin that claims the plan, with its result, and the deeds of the two executors. -/
structure Claim where
  result : Option EventResult := none
  mkvtoolnix : List Mkvtoolnix.Deed := []
  verifier : List Verifier.Deed := []

def verifierClaim (settings : Settings) (plan : Plan) : Claim :=
  match Verifier.handlePlanCreated (settings.verifier plan) plan with
  | .ok (some (r, deed)) => { result := some r, verifier := [deed] }
  | _ => {}

def ffmpegClaim (settings : Settings) (plan : Plan) : Claim :=
  match Ffmpeg.handlePlanCreated settings.ffmpegConfig settings.ffmpeg plan with
  | some r => { result := some r }
  | none => verifierClaim settings plan

/-- The executors are asked in the order of their priorities. -/
def claim (settings : Settings) (plan : Plan) : Claim :=
  match Mkvtoolnix.handlePlanCreated settings.mkvtoolnixAvailable (settings.mkvtoolnix plan) plan with
  | (some r, deeds) => { result := some r, mkvtoolnix := deeds }
  | (none, _) => ffmpegClaim settings plan

/-- What the three executors answer with starts no plan. -/
def Settled (r : EventResult) : Prop :=
  ∀ e ∈ r.producedEvents, handlesPlans e.eventType = false

theorem mkvtoolnix_claims {available : Bool} {env : Mkvtoolnix.Env} {plan : Plan} {r : EventResult}
    {deeds : List Mkvtoolnix.Deed}
    (h : Mkvtoolnix.handlePlanCreated available env plan = (some r, deeds)) :
    (plan.isEmpty || plan.isSkipped || !Mkvtoolnix.canHandle available plan) = false ∧
      r = EventResult.fromPlanExecution Mkvtoolnix.pluginName (Mkvtoolnix.executePlan env plan).result ∧
      deeds = (Mkvtoolnix.executePlan env plan).deeds := by
  unfold Mkvtoolnix.handlePlanCreated at h
  split at h
  · cases h
  · rename_i hnot
    obtain ⟨hr, hdeeds⟩ := Prod.mk.inj h
    exact ⟨by simpa using hnot, (Option.some.inj hr).symm, hdeeds.symm⟩

theorem mkvtoolnix_declines {available : Bool} {env : Mkvtoolnix.Env} {plan : Plan}
    {deeds : List Mkvtoolnix.Deed}
    (h : Mkvtoolnix.handlePlanCreated available env plan = (none, deeds)) :
    (plan.isEmpty || plan.isSkipped || !Mkvtoolnix.canHandle available plan) = true ∧
      deeds = [] := by
  unfold Mkvtoolnix.handlePlanCreated at h
  split at h
  · rename_i hnot
    exact ⟨hnot, (Prod.mk.inj h).2.symm⟩
  · cases h

theorem ffmpeg_claims {config : Ffmpeg.Config} {plan : Plan} {r : EventResult}
    {execute : Plan → Except VoomError (List ActionResult)}
    (h : Ffmpeg.handlePlanCreated config execute plan = some r) :
    Ffmpeg.canHandle config plan = true ∧
      r = EventResult.fromPlanExecution Ffmpeg.pluginName (execute plan) := by
  unfold Ffmpeg.handlePlanCreated at h
  split at h
  · cases h
  · rename_i hnot
    simp only [Bool.or_eq_true, Bool.not_eq_true, not_or] at hnot
    exact ⟨by simpa using hnot.2, (Option.some.inj h).symm⟩

/-- The verifier carries out an action with the parameters of the first one. -/
theorem verifier_claims {env : Verifier.Env} {plan : Plan} {r : EventResult} {deed : Verifier.Deed}
    (h : Verifier.handlePlanCreated env plan = .ok (some (r, deed))) :
    r.claimed = true ∧ r.executionError = none ∧ r.pluginName = Verifier.pluginName ∧ Settled r ∧
      ∃ first rest, plan.actions = first :: rest ∧
        ∀ action, deed.Does action ↔ action.parameters = first.parameters := by
  unfold Verifier.handlePlanCreated at h
  split at h
  · cases h
  cases hactions : plan.actions with
  | nil =>
    rw [hactions] at h
    cases h
  | cons first rest =>
    rw [hactions] at h
    dsimp only at h
    split at h
    · simp only [Verifier.handleVerifyPlan, hactions] at h
      split at h
      · rename_i mode hmode
        split at h
        · cases h
        · obtain ⟨-, -, h⟩ := Lib.bind_eq_ok.mp h
          obtain ⟨-, -, h⟩ := Lib.bind_eq_ok.mp h
          obtain ⟨rfl, rfl⟩ := Prod.mk.inj (Option.some.inj (Except.ok.inj h))
          refine ⟨rfl, rfl, rfl, by simp [Settled, Verifier.claimWith, Event.eventType, handlesPlans],
            first, rest, rfl, fun action => ?_⟩
          rw [hmode]
          exact Iff.rfl
      · cases h
    · simp only [Verifier.handleQuarantinePlan, hactions] at h
      split at h
      · rename_i reason hreason
        split at h
        · cases h
        · split at h
          · cases h
          · obtain ⟨dst, -, h⟩ := Lib.bind_eq_ok.mp h
            obtain ⟨-, -, h⟩ := Lib.bind_eq_ok.mp h
            obtain ⟨rfl, rfl⟩ := Prod.mk.inj (Option.some.inj (Except.ok.inj h))
            refine ⟨rfl, rfl, rfl,
              by simp [Settled, Verifier.claimWith, Event.eventType, handlesPlans],
              first, rest, rfl, fun action => ?_⟩
            rw [hreason]
            exact Iff.rfl
      · cases h
    · cases h

theorem Plugins.round_subs (plan : Plan) :
    k.subs.filter (·.handles (Event.planCreated plan).eventType) =
      k.first.filter (·.handles .planCreated) ++ mkvtoolnixPlugin k.settings ::
        (k.second.filter (·.handles .planCreated) ++ ffmpegPlugin k.settings ::
          (k.third.filter (·.handles .planCreated) ++ verifierPlugin k.settings ::
            k.last.filter (·.handles .planCreated))) := by
  have hmkv : (mkvtoolnixPlugin k.settings : Subscriber (World τ)).handles .planCreated = true := rfl
  have hffmpeg : (ffmpegPlugin k.settings : Subscriber (World τ)).handles .planCreated = true := rfl
  have hverifier : (verifierPlugin k.settings : Subscriber (World τ)).handles .planCreated = true :=
    rfl
  simp only [Plugins.subs, Event.eventType, List.filter_append, List.filter_cons, hmkv, hffmpeg,
    hverifier, if_true]

/-- A round answers with the claim: at most one result claims, and nothing starts another
plan. -/
def Answers (c : Claim) (st : BusState (World τ)) (out : BusState (World τ) × List EventResult) :
    Prop :=
  ∃ before later : List EventResult,
    (∀ r ∈ before ++ (c.result.toList ++ later), Settled r) ∧
    (∀ r ∈ before ++ later, Quiet r) ∧
    out.2 = before ++ (c.result.toList ++ later) ∧
    out.1.world.deeds = (st.world.mkvtoolnix ++ c.mkvtoolnix, st.world.verifier ++ c.verifier)

section

variable {c : Claim} {event : Event} {back : List (Subscriber (World τ))}

theorem answers_bystanders {front : List (Subscriber (World τ))} (hfront : ∀ s ∈ front, Bystander s)
    (h : ∀ st, Answers c st (dispatchHandlers event back st)) (st : BusState (World τ)) :
    Answers c st (dispatchHandlers event (front ++ back) st) := by
  obtain ⟨st', results, hdeeds, hquiet, heq⟩ := dispatchHandlers_bystanders hfront back event st
  obtain ⟨before, later, hsettled, hquiet', hresults, hdeeds'⟩ := h st'
  obtain ⟨hmkv, hverifier⟩ := Prod.mk.inj hdeeds
  refine ⟨results ++ before, later, ?_, ?_, ?_, ?_⟩
  · rw [List.append_assoc]
    exact List.forall_mem_append.mpr ⟨fun r hr => (hquiet r hr).2, hsettled⟩
  · rw [List.append_assoc]
    exact List.forall_mem_append.mpr ⟨fun r hr => (hquiet r hr).1, hquiet'⟩
  · rw [heq, hresults, List.append_assoc]
  · rw [heq, hdeeds', hmkv, hverifier]

/-- A plugin that declines. -/
theorem answers_declined {s : Subscriber (World τ)} {st : BusState (World τ)}
    (hs : s.onEvent event st.world = (st.world, .ok none))
    (h : ∀ st, Answers c st (dispatchHandlers event back st)) :
    Answers c st (dispatchHandlers event (s :: back) st) := by
  obtain ⟨before, later, hsettled, hquiet, hresults, hdeeds⟩ := h (invoke s event st).1
  simp only [invoke, hs] at hresults hdeeds
  refine ⟨before, later, hsettled, hquiet, ?_, ?_⟩
  · simpa only [dispatchHandlers, invoke, hs, HandlerResult.toResult] using hresults
  · simpa only [dispatchHandlers, invoke, hs, HandlerResult.toResult] using hdeeds

/-- A plugin that claims ends the round. -/
theorem answers_claimed {s : Subscriber (World τ)} {st : BusState (World τ)} {w : World τ}
    {r : EventResult} (hs : s.onEvent event st.world = (w, .ok (some r)))
    (hclaimed : r.claimed = true) (hsettled : Settled r) (hresult : c.result = some r)
    (hdeeds : w.deeds = (st.world.mkvtoolnix ++ c.mkvtoolnix, st.world.verifier ++ c.verifier)) :
    Answers c st (dispatchHandlers event (s :: back) st) := by
  refine ⟨[], [], ?_, by simp, ?_, ?_⟩
  · simpa [hresult] using hsettled
  · simp [dispatchHandlers, invoke, hs, HandlerResult.toResult, hclaimed, hresult]
  · simpa [dispatchHandlers, invoke, hs, HandlerResult.toResult, hclaimed] using hdeeds

end

theorem settled_fromPlanExecution (name : String) (r : Except VoomError (List ActionResult)) :
    Settled (EventResult.fromPlanExecution name r) := by
  simp [Settled]

theorem verifier_answers {back : List (Subscriber (World τ))} (hback : ∀ s ∈ back, Bystander s)
    (settings : Settings) (plan : Plan) (st : BusState (World τ)) :
    Answers (verifierClaim settings plan) st
      (dispatchHandlers (.planCreated plan) (verifierPlugin settings :: back) st) := by
  have hnothing : ∀ st, Answers {} st (dispatchHandlers (.planCreated plan) back st) := by
    intro st
    obtain ⟨hdeeds, hquiet⟩ := dispatchHandlers_all_bystanders hback (.planCreated plan) st
    refine ⟨[], (dispatchHandlers (.planCreated plan) back st).2, ?_, ?_, rfl, ?_⟩
    · exact fun r hr => (hquiet r hr).2
    · exact fun r hr => (hquiet r hr).1
    · rw [hdeeds, List.append_nil, List.append_nil]
      rfl
  unfold verifierClaim
  cases h : Verifier.handlePlanCreated (settings.verifier plan) plan with
  | error e =>
    -- a failed handler leaves a result of the bus, and the round goes on
    obtain ⟨before, later, hsettled, hquiet, hresults, hdeeds⟩ :=
      hnothing (invoke (verifierPlugin settings) (.planCreated plan) st).1
    have hs : (verifierPlugin settings).onEvent (.planCreated plan) st.world =
        (st.world, .err e) := by
      simp only [verifierPlugin, h]
    simp only [invoke, hs] at hresults hdeeds
    refine ⟨makeErrorResult Verifier.pluginName .planCreated e.toText :: before, later, ?_, ?_, ?_, ?_⟩
    · rw [List.cons_append, List.forall_mem_cons]
      exact ⟨by simp [Settled, makeErrorResult, Event.eventType, handlesPlans], hsettled⟩
    · rw [List.cons_append, List.forall_mem_cons]
      exact ⟨⟨rfl, rfl⟩, hquiet⟩
    · simp only [dispatchHandlers, invoke, hs, HandlerResult.toResult, hresults]
      rfl
    · simpa [dispatchHandlers, invoke, hs, HandlerResult.toResult, makeErrorResult] using hdeeds
  | ok answer =>
    cases answer with
    | none =>
      refine answers_declined ?_ hnothing
      simp only [verifierPlugin, h]
    | some p =>
      obtain ⟨r, deed⟩ := p
      obtain ⟨hclaimed, -, -, hsettled, -⟩ := verifier_claims h
      have hs : (verifierPlugin settings).onEvent (.planCreated plan) st.world =
          ({ st.world with verifier := st.world.verifier ++ [deed] }, .ok (some r)) := by
        simp only [verifierPlugin, h]
      apply answers_claimed hs hclaimed hsettled rfl
      simp [World.deeds]

theorem ffmpeg_answers {back : List (Subscriber (World τ))} (settings : Settings) (plan : Plan)
    (hback : ∀ st, Answers (verifierClaim settings plan) st
      (dispatchHandlers (.planCreated plan) back st)) (st : BusState (World τ)) :
    Answers (ffmpegClaim settings plan) st
      (dispatchHandlers (.planCreated plan) (ffmpegPlugin settings :: back) st) := by
  unfold ffmpegClaim
  cases h : Ffmpeg.handlePlanCreated settings.ffmpegConfig settings.ffmpeg plan with
  | none =>
    refine answers_declined ?_ hback
    simp only [ffmpegPlugin, h]
  | some r =>
    obtain ⟨-, rfl⟩ := ffmpeg_claims h
    have hs : (ffmpegPlugin settings).onEvent (.planCreated plan) st.world =
        (st.world, .ok (some (EventResult.fromPlanExecution Ffmpeg.pluginName
          (settings.ffmpeg plan)))) := by
      simp only [ffmpegPlugin, h]
    apply answers_claimed hs (EventResult.fromPlanExecution_claimed ..)
      (settled_fromPlanExecution _ _) rfl
    simp [World.deeds]

theorem mkvtoolnix_answers {back : List (Subscriber (World τ))} (settings : Settings) (plan : Plan)
    (hback : ∀ st, Answers (ffmpegClaim settings plan) st
      (dispatchHandlers (.planCreated plan) back st)) (st : BusState (World τ)) :
    Answers (claim settings plan) st
      (dispatchHandlers (.planCreated plan) (mkvtoolnixPlugin settings :: back) st) := by
  unfold claim
  cases h : Mkvtoolnix.handlePlanCreated settings.mkvtoolnixAvailable
      (settings.mkvtoolnix plan) plan with
  | mk answer deeds =>
    cases answer with
    | none =>
      obtain ⟨-, rfl⟩ := mkvtoolnix_declines h
      refine answers_declined ?_ hback
      simp only [mkvtoolnixPlugin, h, List.append_nil]
    | some r =>
      obtain ⟨-, rfl, -⟩ := mkvtoolnix_claims h
      have hs : (mkvtoolnixPlugin settings).onEvent (.planCreated plan) st.world =
          ({ st.world with mkvtoolnix := st.world.mkvtoolnix ++ deeds },
            .ok (some (EventResult.fromPlanExecution Mkvtoolnix.pluginName
              (Mkvtoolnix.executePlan (settings.mkvtoolnix plan) plan).result))) := by
        simp only [mkvtoolnixPlugin, h]
      apply answers_claimed hs (EventResult.fromPlanExecution_claimed ..)
        (settled_fromPlanExecution _ _) rfl
      simp [World.deeds]

/-- The first round answers with the claim. -/
theorem Plugins.round (plan : Plan) (st : BusState (World τ)) :
    Answers (claim k.settings plan) st (dispatchHandlers (.planCreated plan)
      (k.subs.filter (·.handles (Event.planCreated plan).eventType)) st) := by
  have hby : ∀ front : List (Subscriber (World τ)),
      (∀ s ∈ front, s ∈ k.first ++ k.second ++ k.third ++ k.last) →
      ∀ s ∈ front.filter (·.handles .planCreated), Bystander s := fun front hfront s hs =>
    k.bystanders s (hfront s (List.mem_filter.mp hs).1)
  rw [k.round_subs]
  refine answers_bystanders (hby k.first fun s hs => by simp [hs]) (mkvtoolnix_answers _ _ ?_) st
  refine answers_bystanders (hby k.second fun s hs => by simp [hs]) (ffmpeg_answers _ _ ?_)
  refine answers_bystanders (hby k.third fun s hs => by simp [hs]) fun st => ?_
  exact verifier_answers (hby k.last fun s hs => by simp [hs]) _ _ st

/-- The cascade has no say in the outcome. -/
theorem Plugins.publish_planCreated (plan : Plan) (st : BusState (World τ)) :
    ∃ before later : List EventResult,
      (∀ r ∈ before ++ later, Quiet r) ∧
      (publish k.subs (.planCreated plan) st).2 =
        before ++ ((claim k.settings plan).result.toList ++ later) ∧
      (publish k.subs (.planCreated plan) st).1.world.deeds =
        (st.world.mkvtoolnix ++ (claim k.settings plan).mkvtoolnix,
          st.world.verifier ++ (claim k.settings plan).verifier) := by
  obtain ⟨before, later, hsettled, hquiet, hresults, hdeeds⟩ := k.round plan st
  have hproduced : ∀ e ∈ (dispatchHandlers (.planCreated plan)
      (k.subs.filter (·.handles (Event.planCreated plan).eventType)) st).2.flatMap
        (·.producedEvents), handlesPlans e.eventType = false := by
    intro e he
    obtain ⟨r, hr, he⟩ := List.mem_flatMap.mp he
    rw [hresults] at hr
    exact hsettled r hr e he
  obtain ⟨cascaded, hcascaded, heq, hlast⟩ := cascade_quiet (k.publish_quiet 7) hproduced
    (dispatchHandlers (.planCreated plan)
      (k.subs.filter (·.handles (Event.planCreated plan).eventType)) st)
  have hpublish : publish k.subs (.planCreated plan) st =
      publishRecursive k.subs (7 + 1) (.planCreated plan) st := rfl
  rw [hpublish, publishRecursive]
  refine ⟨before, later ++ cascaded, ?_, ?_, ?_⟩
  · rw [← List.append_assoc]
    exact List.forall_mem_append.mpr ⟨hquiet, hcascaded⟩
  · refine heq.trans ?_
    rw [hresults]
    simp only [List.append_assoc]
  · exact hlast.trans hdeeds

/-! ## Outcomes -/

/-- The outcome is the one of the plugin that claimed the plan. -/
theorem success_iff {c : Claim} (hclaimed : ∀ r, c.result = some r → r.claimed = true)
    {before later : List EventResult} (hquiet : ∀ r ∈ before ++ later, Quiet r) {plan : Plan}
    {file : MediaFile} {executor : String} :
    PlanOutcome.fromEventResult (before ++ (c.result.toList ++ later)) plan file =
        .success executor ↔
      ∃ r, c.result = some r ∧ r.executionError = none ∧ r.pluginName = executor := by
  have hnone (p : EventResult → Bool) (rs : List EventResult) (h : ∀ r ∈ rs, p r = false) :
      rs.find? p = none := by
    rw [List.find?_eq_none]
    exact fun r hr => by simp [h r hr]
  obtain ⟨hbefore, hlater⟩ := List.forall_mem_append.mp hquiet
  have hfind₁ := hnone (·.claimed) before fun r hr => (hbefore r hr).1
  have hfind₂ := hnone (·.claimed) later fun r hr => (hlater r hr).1
  have herror₁ : before.findSome? (·.executionError) = none :=
    List.findSome?_eq_none_iff.mpr fun r hr => (hbefore r hr).2
  have herror₂ : later.findSome? (·.executionError) = none :=
    List.findSome?_eq_none_iff.mpr fun r hr => (hlater r hr).2
  simp only [PlanOutcome.fromEventResult, List.find?_append, List.findSome?_append, hfind₁, hfind₂,
    herror₁, herror₂, Option.none_or]
  cases hr : c.result with
  | none => simp
  | some r =>
    have hr := hclaimed r hr
    cases he : r.executionError with
    | none => simp [hr, he]
    | some e => simp [hr, he]

theorem claim_claimed (settings : Settings) (plan : Plan) {r : EventResult}
    (h : (claim settings plan).result = some r) : r.claimed = true := by
  unfold claim at h
  split at h
  · rename_i hmkv
    obtain ⟨-, rfl, -⟩ := mkvtoolnix_claims hmkv
    obtain rfl := Option.some.inj h
    exact EventResult.fromPlanExecution_claimed ..
  · unfold ffmpegClaim at h
    split at h
    · rename_i hffmpeg
      obtain ⟨-, rfl⟩ := ffmpeg_claims hffmpeg
      obtain rfl := Option.some.inj h
      exact EventResult.fromPlanExecution_claimed ..
    · unfold verifierClaim at h
      split at h
      · rename_i hverifier
        obtain rfl := Option.some.inj h
        exact (verifier_claims hverifier).1
      · cases h

/-- The verifier has what it takes for the action, and its steps go well. -/
def Verifier.Proceeds (env : Verifier.Env) (first : PlannedAction) : Prop :=
  env.hasStore = true ∧
    match first.parameters with
    | .verifyMedia mode =>
      (env.verify mode).isOk = true ∧ env.insertVerification.isOk = true
    | .quarantine _ =>
      ∃ dir, env.quarantineDir = some dir ∧ (env.quarantineFile dir).isOk = true ∧
        env.setFileStatus.isOk = true
    | _ => False

theorem verifier_proceeds {env : Verifier.Env} {plan : Plan} {first : PlannedAction}
    {rest : List PlannedAction} (hactions : plan.actions = first :: rest)
    (hskipped : plan.isSkipped = false) :
    (∃ answer, Verifier.handlePlanCreated env plan = .ok (some answer)) ↔
      Verifier.Proceeds env first := by
  have hempty : plan.isEmpty = false := by simp [Plan.isEmpty, hactions]
  obtain ⟨operation, trackIndex, parameters, description, checked⟩ := first
  simp only [Verifier.handlePlanCreated, hempty, hskipped, Bool.or_false, Bool.false_eq_true,
    if_false, hactions]
  cases operation with
  | verifyMedia =>
    cases parameters with
    | verifyMedia mode =>
      cases hstore : env.hasStore with
      | false => simp [Verifier.handleVerifyPlan, Verifier.Proceeds, hactions, hstore]
      | true =>
        cases hverify : env.verify mode with
        | error e =>
          simp [Verifier.handleVerifyPlan, Verifier.Proceeds, hactions, hstore, hverify, bind,
            Except.bind, Except.isOk, Except.toBool]
        | ok u =>
          cases hinsert : env.insertVerification with
          | error e =>
            simp [Verifier.handleVerifyPlan, Verifier.Proceeds, hactions, hstore, hverify, hinsert,
              bind, Except.bind, Except.isOk, Except.toBool]
          | ok u =>
            simp [Verifier.handleVerifyPlan, Verifier.Proceeds, hactions, hstore, hverify, hinsert,
              bind, Except.bind, Except.isOk, Except.toBool, pure, Except.pure]
    | _ => cases checked
  | quarantine =>
    cases parameters with
    | quarantine reason =>
      cases hstore : env.hasStore with
      | false => simp [Verifier.handleQuarantinePlan, Verifier.Proceeds, hactions, hstore]
      | true =>
        cases hdir : env.quarantineDir with
        | none =>
          simp [Verifier.handleQuarantinePlan, Verifier.Proceeds, hactions, hstore, hdir]
        | some dir =>
          cases hmove : env.quarantineFile dir with
          | error e =>
            simp [Verifier.handleQuarantinePlan, Verifier.Proceeds, hactions, hstore, hdir, hmove,
              bind, Except.bind, Except.isOk, Except.toBool]
          | ok dst =>
            cases hstatus : env.setFileStatus with
            | error e =>
              simp [Verifier.handleQuarantinePlan, Verifier.Proceeds, hactions, hstore, hdir, hmove,
                hstatus, bind, Except.bind, Except.isOk, Except.toBool]
            | ok u =>
              simp [Verifier.handleQuarantinePlan, Verifier.Proceeds, hactions, hstore, hdir, hmove,
                hstatus, bind, Except.bind, Except.isOk, Except.toBool, pure, Except.pure]
    | _ => cases checked
  | _ =>
    cases parameters with
    | verifyMedia | quarantine => cases checked
    | _ => simp [Verifier.Proceeds]

/-- What the plan and the outcomes of the tools have to be like for success to mean that
every action was carried out. -/
def Settings.Complete (settings : Settings) (plan : Plan) : Prop :=
  if plan.isEmpty || plan.isSkipped then True
  else if Mkvtoolnix.canHandle settings.mkvtoolnixAvailable plan then
    Mkvtoolnix.Complete (settings.mkvtoolnix plan) plan
  else if Ffmpeg.canHandle settings.ffmpegConfig plan then True
  else
    -- the verifier looks at the first action only
    ∀ first ∈ plan.actions.head?, Verifier.Proceeds (settings.verifier plan) first →
      ∀ action ∈ plan.actions, action.parameters = first.parameters

/-- The bus before the plan is dispatched. -/
def start (rest : τ) (log : List (Delivery (World τ))) : BusState (World τ) :=
  { world := { rest }, log }

theorem carriedOut_iff {plan : Plan} {rest : τ} {log : List (Delivery (World τ))}
    {action : PlannedAction} :
    CarriedOut (publish k.subs (.planCreated plan) (start rest log)).1.world action ↔
      (∃ deed ∈ (claim k.settings plan).mkvtoolnix, deed.Does action) ∨
        ∃ deed ∈ (claim k.settings plan).verifier, deed.Does action := by
  obtain ⟨-, -, -, -, hdeeds⟩ := k.publish_planCreated plan (start rest log)
  obtain ⟨hmkv, hverifier⟩ := Prod.mk.inj hdeeds
  rw [CarriedOut, hmkv, hverifier]
  exact Iff.rfl

theorem claim_of_mkvtoolnix {settings : Settings} {plan : Plan} (hempty : plan.isEmpty = false)
    (hskipped : plan.isSkipped = false)
    (h : Mkvtoolnix.canHandle settings.mkvtoolnixAvailable plan = true) :
    claim settings plan =
      { result := some (EventResult.fromPlanExecution Mkvtoolnix.pluginName
          (Mkvtoolnix.executePlan (settings.mkvtoolnix plan) plan).result)
        mkvtoolnix := (Mkvtoolnix.executePlan (settings.mkvtoolnix plan) plan).deeds } := by
  simp [claim, Mkvtoolnix.handlePlanCreated, hempty, hskipped, h]

theorem claim_of_ffmpeg {settings : Settings} {plan : Plan} (hempty : plan.isEmpty = false)
    (hskipped : plan.isSkipped = false)
    (h : Mkvtoolnix.canHandle settings.mkvtoolnixAvailable plan = false) :
    claim settings plan = ffmpegClaim settings plan := by
  simp [claim, Mkvtoolnix.handlePlanCreated, hempty, hskipped, h]

theorem fromPlanExecution_pluginName (name : String) (r : Except VoomError (List ActionResult)) :
    (EventResult.fromPlanExecution name r).pluginName = name := by
  unfold EventResult.fromPlanExecution
  split
  · dsimp only
    split
    · rfl
    · rfl
  · rfl

/-- What the claim says: success by one of the two executors means that its deeds carry out
every action. -/
def Claim.Holds (c : Claim) (plan : Plan) : Prop :=
  ∀ executor ∈ [Mkvtoolnix.pluginName, Verifier.pluginName],
    (∃ r, c.result = some r ∧ r.executionError = none ∧ r.pluginName = executor) →
      ∀ action ∈ plan.actions,
        (∃ deed ∈ c.mkvtoolnix, deed.Does action) ∨ ∃ deed ∈ c.verifier, deed.Does action

theorem claim_holds_of_none {c : Claim} {plan : Plan} (h : c.result = none) : c.Holds plan := by
  rintro executor - ⟨r, hr, -⟩
  rw [h] at hr
  cases hr

theorem mkvtoolnix_holds_iff {settings : Settings} {plan : Plan} (hempty : plan.isEmpty = false)
    (hskipped : plan.isSkipped = false)
    (h : Mkvtoolnix.canHandle settings.mkvtoolnixAvailable plan = true) :
    (claim settings plan).Holds plan ↔ Mkvtoolnix.Complete (settings.mkvtoolnix plan) plan := by
  have hne : plan.actions ≠ [] := by simpa [Plan.isEmpty] using hempty
  have hops : ∀ action ∈ plan.actions, Mkvtoolnix.isSupportedOp action.operation = true := by
    simp only [Mkvtoolnix.canHandle, Bool.and_eq_true, List.all_eq_true] at h
    exact h.2
  rw [claim_of_mkvtoolnix hempty hskipped h, ← Mkvtoolnix.executePlan_complete_iff hne hops]
  constructor
  · intro hholds herror action ha
    have hdone := hholds Mkvtoolnix.pluginName (by simp)
      ⟨_, rfl, herror, fromPlanExecution_pluginName ..⟩ action ha
    simpa using hdone
  · rintro hdone executor - ⟨r, hr, herror, -⟩ action ha
    obtain rfl := Option.some.inj hr
    exact .inl (hdone herror action ha)

theorem ffmpeg_holds {settings : Settings} {plan : Plan} {r : EventResult}
    (h : Ffmpeg.handlePlanCreated settings.ffmpegConfig settings.ffmpeg plan = some r) :
    (ffmpegClaim settings plan).Holds plan := by
  obtain ⟨-, rfl⟩ := ffmpeg_claims h
  rintro executor hexecutor ⟨r, hr, -, rfl⟩
  rw [ffmpegClaim, h] at hr
  obtain rfl := Option.some.inj hr
  rw [fromPlanExecution_pluginName] at hexecutor
  exact absurd hexecutor (by decide)

theorem verifier_holds_iff {settings : Settings} {plan : Plan} (hempty : plan.isEmpty = false)
    (hskipped : plan.isSkipped = false) :
    (verifierClaim settings plan).Holds plan ↔
      ∀ first ∈ plan.actions.head?, Verifier.Proceeds (settings.verifier plan) first →
        ∀ action ∈ plan.actions, action.parameters = first.parameters := by
  cases hactions : plan.actions with
  | nil => simp [Plan.isEmpty, hactions] at hempty
  | cons first rest =>
    have hproceeds : (∃ answer, Verifier.handlePlanCreated (settings.verifier plan) plan =
        .ok (some answer)) ↔ Verifier.Proceeds (settings.verifier plan) first :=
      verifier_proceeds hactions hskipped
    simp only [List.head?_cons, Option.mem_some_iff, forall_eq']
    rw [← hproceeds]
    unfold verifierClaim
    split
    · rename_i r deed hanswer
      obtain ⟨-, herror, hname, -, first', rest', hactions', hdoes⟩ := verifier_claims hanswer
      obtain ⟨rfl, rfl⟩ := List.cons.inj (hactions.symm.trans hactions')
      constructor
      · intro hholds _ action ha
        have hdone := hholds Verifier.pluginName (by simp) ⟨r, rfl, herror, hname⟩ action
          (hactions ▸ ha)
        simpa [hdoes] using hdone
      · rintro hall executor - - action ha
        rw [hactions] at ha
        exact .inr ⟨deed, List.mem_singleton_self _, (hdoes action).mpr (hall ⟨_, hanswer⟩ action ha)⟩
    · rename_i hno
      constructor
      · rintro - ⟨⟨r, deed⟩, hanswer⟩
        exact absurd hanswer (hno r deed)
      · exact fun _ => claim_holds_of_none rfl

theorem claim_holds_iff (settings : Settings) (plan : Plan) :
    (claim settings plan).Holds plan ↔ settings.Complete plan := by
  unfold Settings.Complete
  split
  · rename_i hidle
    have hnone : (claim settings plan).result = none := by
      simp [claim, Mkvtoolnix.handlePlanCreated, ffmpegClaim, Ffmpeg.handlePlanCreated,
        verifierClaim, Verifier.handlePlanCreated, hidle]
    exact iff_of_true (claim_holds_of_none hnone) trivial
  · rename_i hidle
    simp only [Bool.or_eq_true, not_or, Bool.not_eq_true] at hidle
    obtain ⟨hempty, hskipped⟩ := hidle
    split
    · rename_i hmkv
      exact mkvtoolnix_holds_iff hempty hskipped hmkv
    · rename_i hmkv
      rw [claim_of_ffmpeg hempty hskipped (by simpa using hmkv)]
      split
      · rename_i hffmpeg
        have hclaims : Ffmpeg.handlePlanCreated settings.ffmpegConfig settings.ffmpeg plan =
            some (EventResult.fromPlanExecution Ffmpeg.pluginName (settings.ffmpeg plan)) := by
          simp [Ffmpeg.handlePlanCreated, hempty, hskipped, hffmpeg]
        exact iff_of_true (ffmpeg_holds hclaims) trivial
      · rename_i hffmpeg
        have hdeclined :
            Ffmpeg.handlePlanCreated settings.ffmpegConfig settings.ffmpeg plan = none := by
          simp [Ffmpeg.handlePlanCreated, hffmpeg]
        rw [ffmpegClaim, hdeclined]
        exact verifier_holds_iff hempty hskipped

/-- Success by the MKVToolNix executor or the verifier means that every action of the plan
was carried out, exactly if the plan and the outcomes of the tools are complete. -/
theorem success_means_carried_out_iff (plan : Plan) (file : MediaFile) (rest : τ)
    (log : List (Delivery (World τ))) :
    (∀ executor ∈ [Mkvtoolnix.pluginName, Verifier.pluginName],
        PlanOutcome.fromEventResult (publish k.subs (.planCreated plan) (start rest log)).2 plan
            file = .success executor →
          ∀ action ∈ plan.actions,
            CarriedOut (publish k.subs (.planCreated plan) (start rest log)).1.world action) ↔
      k.settings.Complete plan := by
  obtain ⟨before, later, hquiet, hresults, -⟩ := k.publish_planCreated plan (start rest log)
  have hclaimed : ∀ r, (claim k.settings plan).result = some r → r.claimed = true :=
    fun r => claim_claimed k.settings plan
  simp only [hresults, success_iff hclaimed hquiet, carriedOut_iff]
  exact claim_holds_iff k.settings plan

end

/-! ## A plan that is successful after its first action -/

open Dsl Evaluator

/-- `policy "p" { phase a { verify quick clear_tags } }`, spans left out. -/
def verifyThenClear : PolicyAst where
  name := "p"
  phases := [
    { name := "a"
      operations := [⟨.verify .quick, default⟩, ⟨.clearTags, default⟩] }]

/-- A film with one tag. -/
def taggedFilm : MediaFile :=
  { id := 0, path := ⟨["films", "film.mkv"]⟩, container := .mkv, tags := [("title", "Film")] }

def clearTagsAction : PlannedAction where
  operation := .clearContainerTags
  trackIndex := none
  parameters := .clearTags ["title"]
  description := "Clear all container tags (title)"
  checked := Eq.refl true

def verifyThenClearPlan : Plan where
  id := 0
  file := taggedFilm
  policyName := "p"
  phaseName := "a"
  actions :=
    [ { operation := .verifyMedia
        trackIndex := none
        parameters := .verifyMedia .quick
        description := "Verify media integrity (quick)"
        checked := Eq.refl true },
      clearTagsAction ]

/-- Library functions that the policy has no use for. -/
def anyCompileEnv : CompileEnv where
  regexNew _ := .ok ()
  debugValue _ := ""

def anyEvalEnv : EvalEnv where
  toLowercase := toAsciiLowercase
  isMatch regex text := containsText text regex.pattern
  jsonToString _ := ""
  sub a _ := a
  ofInt n := .finite n
  formatTenths _ := ""

/-- All tools are there and run well. -/
def workingTools : Settings where
  mkvtoolnixAvailable := true
  mkvtoolnix _ :=
    let run : Mkvtoolnix.MergeRun := ⟨"1", .ok ⟨some 0, "exit status: 0", "", 1⟩, .ok ()⟩
    { fileExists := true, stillExists := true, storage := none, propedit := run.outcome,
      merge := run, mux := fun _ => run }
  ffmpegConfig := { available := true, encoders := none, decoders := none, formats := none }
  ffmpeg _ := .ok []
  verifier _ :=
    { hasStore := true, verify := fun _ => .ok (), insertVerification := .ok (),
      quarantineDir := none, quarantineFile := fun p => .ok p, setFileStatus := .ok () }
  newIds _ := (1, 2)

def workingPlugins : Plugins Unit where
  settings := workingTools
  first := []
  second := []
  third := []
  last := []
  bystanders := by simp

/-- The plan of a valid policy is reported successful with its second action left out. -/
theorem verify_leaves_out_clear_tags :
    validate anyCompileEnv verifyThenClear = .ok () ∧
      (∃ policy, compileAst anyCompileEnv linearPartitionPoint verifyThenClear = .ok policy ∧
        verifyThenClearPlan ∈ evaluate anyEvalEnv id policy taggedFilm) ∧
      PlanOutcome.fromEventResult
          (publish workingPlugins.subs (.planCreated verifyThenClearPlan) (start () [])).2
          verifyThenClearPlan taggedFilm = .success Verifier.pluginName ∧
      clearTagsAction ∈ verifyThenClearPlan.actions ∧
      ¬ CarriedOut (publish workingPlugins.subs (.planCreated verifyThenClearPlan)
          (start () [])).1.world clearTagsAction := by
  have hplans : ((compileAst anyCompileEnv linearPartitionPoint verifyThenClear).toOption.map
      fun policy => evaluate anyEvalEnv id policy taggedFilm) = some [verifyThenClearPlan] := by
    decide +kernel
  refine ⟨by decide, ?_, by decide, by decide, ?_⟩
  · obtain ⟨policy, hpolicy, heval⟩ := Option.map_eq_some_iff.mp hplans
    refine ⟨policy, ?_, heval ▸ List.mem_singleton_self _⟩
    cases hcompile : compileAst anyCompileEnv linearPartitionPoint verifyThenClear with
    | error e =>
      rw [hcompile] at hpolicy
      cases hpolicy
    | ok policy' =>
      rw [hcompile] at hpolicy
      exact congrArg Except.ok (Option.some.inj hpolicy)
  · have hdeeds : (publish workingPlugins.subs (.planCreated verifyThenClearPlan)
        (start () [])).1.world.deeds = ([], [.verified .quick]) := by
      decide
    obtain ⟨hmkv, hverifier⟩ := Prod.mk.inj hdeeds
    simp [CarriedOut, hmkv, hverifier, Verifier.Deed.Does, clearTagsAction]

end Voom.Executors
