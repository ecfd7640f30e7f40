-- SUMMARY: What one lifecycle event does to the pipeline's world: the rounds of the manager and of the executors.
import Voom.Process.Pipeline

namespace Voom.Process

open Kernel BackupManager

variable {env : PipelineEnv}

/-! ## The round of the backup manager -/

theorem mem_subs {s : Subscriber (World Unit)} :
    s ∈ env.subs ↔ s = managerSubscriber env.io ∨ ∃ e ∈ env.executors, s = e.plugin.subscriber := by
  simp [PipelineEnv.subs, mem_subscribers]

/-- Events of the manager that are no `PlanCreated` reach the manager only. -/
theorem filter_subs_manager {kind : EventType} (h : BackupManager.handles kind = true) :
    env.subs.filter (·.handles kind) = [managerSubscriber env.io] := by
  have hkind : kind ≠ .planCreated := by
    rintro rfl
    cases h
  have hexec : ∀ s ∈ (env.executors.map (·.plugin)).map (·.subscriber),
      s.handles kind = false := by
    intro s hs
    simp only [List.map_map, List.mem_map, Function.comp] at hs
    obtain ⟨e, -, rfl⟩ := hs
    simpa [Plugin.subscriber, Executor.plugin] using hkind
  simp only [PipelineEnv.subs, subscribers, subscribeAll, List.map_nil, List.nil_append,
    List.foldl_cons]
  rw [filter_foldl_subscribePlugin hexec]
  simp [subscribePlugin, managerSubscriber, h]

/-- The world after an event that only the manager handles. -/
theorem publish_manager (event : Event) (h : BackupManager.handles event.eventType = true)
    (bus : BusState (World Unit)) :
    (publish env.subs event bus).1.world =
      ⟨(BackupManager.onEvent (env.io (planIdOf event)) event bus.world.manager bus.world.disk).1,
       (BackupManager.onEvent (env.io (planIdOf event)) event bus.world.manager
          bus.world.disk).2.1, ()⟩ := by
  unfold publish
  rw [publishRecursive_single (filter_subs_manager h)]
  · rfl
  · intro r hr produced hmem s hs
    have herr : produced.eventType = .pluginError := by
      rcases HandlerResult.toResult_some hr with hres | ⟨text, rfl⟩
      · rw [BackupManager.onEvent_result hres] at hmem
        cases hmem
      · rw [List.mem_singleton.mp hmem]
        rfl
    rw [herr]
    rcases mem_subs.mp hs with rfl | ⟨e, -, rfl⟩ <;> rfl

/-- An event nobody in the pipeline handles. -/
theorem publish_skipped (evt : PlanSkippedEvent) (bus : BusState (World Unit)) :
    (publish env.subs (.planSkipped evt) bus).1 = bus := by
  unfold publish
  rw [publishRecursive_unhandled]
  intro s hs
  rcases mem_subs.mp hs with rfl | ⟨e, -, rfl⟩ <;> rfl

/-! ## The round of the executors -/

/-- What a `PlanCreated` round can come to: nobody claims the plan, or one
executor carries it out. -/
def CreatedRound (env : PipelineEnv) (plan : Plan) (w : World Unit) (w' : World Unit)
    (results : List EventResult) : Prop :=
  (w' = w ∧ results = []) ∨
  ∃ e ∈ env.executors, ∃ disk r, e.exec plan w.disk = some (disk, r) ∧
    w' = { w with disk } ∧ results = [EventResult.fromPlanExecution e.name r]

theorem dispatchHandlers_created (plan : Plan) {hs : List (Subscriber (World Unit))}
    (hall : ∀ s ∈ hs, ∃ e ∈ env.executors, s = e.plugin.subscriber) (bus : BusState (World Unit)) :
    CreatedRound env plan bus.world
      (dispatchHandlers (.planCreated plan) hs bus).1.world
      (dispatchHandlers (.planCreated plan) hs bus).2 := by
  induction hs generalizing bus with
  | nil => exact .inl ⟨rfl, rfl⟩
  | cons s rest ih =>
    obtain ⟨e, he, rfl⟩ := hall s List.mem_cons_self
    have ih := ih fun s hs => hall s (List.mem_cons_of_mem _ hs)
    cases hexec : e.exec plan bus.world.disk with
    | none =>
      have hinvoke : invoke e.plugin.subscriber (.planCreated plan) bus =
          ({ world := bus.world, log := bus.log ++
            [⟨e.name, .planCreated plan, bus.world, .ok none⟩] }, .ok none) := by
        simp [invoke, Plugin.subscriber, Executor.plugin, Executor.onEvent, hexec]
      simp only [dispatchHandlers, hinvoke, HandlerResult.toResult]
      exact ih _
    | some out =>
      obtain ⟨disk, r⟩ := out
      right
      refine ⟨e, he, disk, r, hexec, ?_⟩
      simp [dispatchHandlers, invoke, Plugin.subscriber, Executor.plugin, Executor.onEvent, hexec,
        HandlerResult.toResult]

theorem publish_created (plan : Plan) (bus : BusState (World Unit)) :
    CreatedRound env plan bus.world (publish env.subs (.planCreated plan) bus).1.world
      (publish env.subs (.planCreated plan) bus).2 := by
  have hall : ∀ s ∈ env.subs.filter (·.handles (Event.planCreated plan).eventType),
      ∃ e ∈ env.executors, s = e.plugin.subscriber := by
    intro s hs
    obtain ⟨hs, hh⟩ := List.mem_filter.mp hs
    rcases mem_subs.mp hs with rfl | h
    · cases hh
    · exact h
  have hround := dispatchHandlers_created plan hall bus
  -- No executor produces events, so the round is the whole publication.
  have hquiet : (dispatchHandlers (.planCreated plan)
      (env.subs.filter (·.handles (Event.planCreated plan).eventType)) bus).2.flatMap
        (·.producedEvents) = [] := by
    rcases hround with ⟨-, h⟩ | ⟨e, -, disk, r, -, -, h⟩ <;> simp [h]
  have hpublish : publish env.subs (.planCreated plan) bus =
      dispatchHandlers (.planCreated plan)
        (env.subs.filter (·.handles (Event.planCreated plan).eventType)) bus := by
    simp only [publish, maxCascadeDepth, publishRecursive, hquiet, List.foldl_nil]
  rw [hpublish]
  exact hround

/-- A skipped plan is persisted by others but carried out by nobody. -/
theorem publish_created_skipped {plan : Plan} (h : plan.isSkipped = true)
    (bus : BusState (World Unit)) :
    (publish env.subs (.planCreated plan) bus).1.world = bus.world := by
  rcases publish_created plan bus with ⟨hw, -⟩ | ⟨e, -, disk, r, hexec, -, -⟩
  · exact hw
  · rw [e.declines plan _ (.inr h)] at hexec
    cases hexec

end Voom.Process
