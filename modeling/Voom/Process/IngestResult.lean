-- SUMMARY: The result of the ingest stage: it comes to an end, with every wanted file sent once and none too early.
import Voom.Process.Release

/-!
# The result of the ingest stage

Once discovery has finished, every step that changes something brings the stage
closer to its end, and until the end one can be taken. At the end of a run in
which no push comes too late, nothing is held and each wanted file was sent.
-/

namespace Voom.Process

open Lib Storage

/-! ## Progress -/

def IngestPoint.rank : IngestPoint → Nat
  | .receiving => 3
  | .checking _ _ => 9
  | .pushing _ _ => 8
  | .sending _ => 6
  | .counting => 4
  | .joining => 2
  | .finishing => 1
  | .returned _ => 0

def DispatcherPoint.rank : DispatcherPoint → Nat
  | .receiving => 1
  | .opening _ => 4
  | .draining _ => 3
  | .sending items => 2 + 4 * items.length
  | .counting items => 3 + 4 * items.length
  | .exited => 0

/-- A bound on the steps that are left, an item that is held or drained being
dearer than one in the channel. -/
def IngestState.rank (s : IngestState) : Nat :=
  7 * s.files.length + 4 * s.completions.length + 4 * s.holding.length + s.items.length +
    s.ingest.rank + s.dispatcher.rank

/-- A step of one of the tasks or of the pool. -/
def IngestAct.isTask : IngestAct → Bool
  | .ingest _ | .dispatcher | .take => true
  | _ => false

namespace IngestState

variable {config : IngestConfig} {s : IngestState}

theorem route_rank (config : IngestConfig) (item : FileItem) : (route config item).rank ≤ 9 := by
  unfold route
  split
  · split
    · exact le_rfl
    · exact Nat.le_add_right 6 3
  · exact Nat.le_add_right 6 3

theorem accept_rank (hpoint : s.ingest = .receiving) (config : IngestConfig)
    (event : FileDiscoveredEvent) (reply : IngestReply) : (s.accept config event reply).rank ≤ s.rank + 6 := by
  have hrank : s.ingest.rank = 3 := by rw [hpoint]; rfl
  unfold accept
  split
  · exact Nat.le_add_right _ _
  · dsimp only
    split
    · simp only [rank, IngestPoint.rank]
      omega
    · split
      · rename_i flag _ _
        have hroute := route_rank config (itemOf config event reply flag)
        simp only [rank]
        omega
      · simp only [rank]
        omega

/-- A send fills a place in the channel, unless it is full. -/
theorem sendItem_none {item : FileItem} (h : s.sendItem config item = none) :
    config.channelDepth ≤ s.items.length := by
  unfold sendItem at h
  split at h
  · cases h
  · omega

/-- The ingest task goes on unless it has returned, waits for the dispatcher or
waits for room in the channel. -/
theorem ingestStep_rank (config : IngestConfig) (hfinished : s.finished = true) (reply : IngestReply) :
    (s.ingestStep config reply).rank < s.rank ∨
      s.ingestStep config reply = s ∧
        ((∃ result, s.ingest = .returned result) ∨
          config.executeDuringDiscovery = true ∧ s.dispatcher ≠ .exited ∨
          config.channelDepth ≤ s.items.length) := by
  unfold ingestStep
  split
  case h_1 hpoint =>
    left
    split
    · simp only [rank, hpoint, IngestPoint.rank]
      omega
    · split
      · simp only [rank, hpoint, IngestPoint.rank]
        omega
      · rename_i event files hfiles
        have haccept := accept_rank (s := { s with files }) hpoint config event reply
        have hdrop : ({ s with files } : IngestState).rank + 7 = s.rank := by
          simp only [rank, hfiles, List.length_cons]
          omega
        omega
  case h_2 root item hpoint =>
    left
    simp only [rank, hpoint]
    split <;> simp only [IngestPoint.rank] <;> omega
  case h_3 root item hpoint =>
    left
    simp only [rank, hpoint, IngestPoint.rank, HoldingBuffer.push, List.length_append,
      List.length_singleton]
    omega
  case h_4 item hpoint =>
    split
    · left
      simp only [rank, hpoint, IngestPoint.rank]
      omega
    · split
      · rename_i s' hsend
        left
        rw [Released.sendItem_eq hsend]
        simp only [rank, hpoint, IngestPoint.rank, List.length_append, List.length_singleton]
        omega
      · rename_i hsend
        exact .inr ⟨rfl, .inr (.inr (sendItem_none hsend))⟩
  case h_5 hpoint =>
    left
    simp only [rank, hpoint, IngestPoint.rank]
    omega
  case h_6 hpoint =>
    split
    · rename_i hmode
      split
      · left
        unfold settle
        dsimp only
        split
        · simp only [rank, hpoint, IngestPoint.rank, List.length_nil]
          omega
        · simp only [rank, hpoint, IngestPoint.rank, List.length_nil]
          omega
      · rename_i hwaits
        exact .inr ⟨rfl, .inr (.inl ⟨hmode, hwaits⟩)⟩
    · left
      simp only [rank, hpoint, IngestPoint.rank]
      omega
  case h_7 hpoint =>
    left
    simp only [rank, hpoint, IngestPoint.rank]
    omega
  case h_8 result hpoint => exact .inr ⟨rfl, .inl ⟨result, hpoint⟩⟩

/-- The dispatcher goes on unless it has exited or waits for room in the channel. -/
theorem dispatcherStep_rank (config : IngestConfig) (hfinished : s.finished = true) :
    (s.dispatcherStep config).rank < s.rank ∨
      s.dispatcherStep config = s ∧
        (s.dispatcher = .exited ∨ config.channelDepth ≤ s.items.length) := by
  unfold dispatcherStep
  split
  case h_1 hpoint =>
    left
    split
    · simp only [rank, hpoint, DispatcherPoint.rank]
      omega
    · split
      · simp only [rank, hpoint, DispatcherPoint.rank]
        omega
      · rename_i root completions hcompletions
        simp only [rank, hpoint, hcompletions, DispatcherPoint.rank, List.length_cons]
        omega
  case h_2 root hpoint =>
    left
    simp only [rank, hpoint, DispatcherPoint.rank]
    omega
  case h_3 root hpoint =>
    left
    have hdrain := HoldingBuffer.length_drainRoot s.holding root
    simp only [rank, hpoint, DispatcherPoint.rank]
    omega
  case h_4 hpoint =>
    left
    simp only [rank, hpoint, DispatcherPoint.rank, List.length_nil]
    omega
  case h_5 item items hpoint =>
    split
    · left
      simp only [rank, hpoint, DispatcherPoint.rank, List.length_cons]
      omega
    · split
      · rename_i s' hsend
        left
        rw [Released.sendItem_eq hsend]
        simp only [rank, hpoint, DispatcherPoint.rank, List.length_append, List.length_cons,
          List.length_nil]
        omega
      · rename_i hsend
        exact .inr ⟨rfl, .inr (sendItem_none hsend)⟩
  case h_6 items hpoint =>
    left
    simp only [rank, hpoint, DispatcherPoint.rank]
    omega
  case h_7 hpoint => exact .inr ⟨rfl, .inl hpoint⟩

theorem take_rank (config : IngestConfig) (s : IngestState) :
    (s.step config .take).rank < s.rank ∨ s.step config .take = s ∧ s.items = [] := by
  obtain hnil | ⟨item, items, hitems⟩ : s.items = [] ∨ ∃ item items, s.items = item :: items := by
    cases s.items with
    | nil => exact .inl rfl
    | cons item items => exact .inr ⟨item, items, rfl⟩
  · refine .inr ⟨?_, hnil⟩
    have htail : s.items.tail = s.items := by rw [hnil]; rfl
    show { s with items := s.items.tail } = s
    rw [htail]
  · left
    simp only [step, rank, hitems, List.tail_cons, List.length_cons]
    omega

/-- After discovery has finished, a step of a task or of the pool changes nothing
or brings the end closer. -/
theorem task_step_rank (hfinished : s.finished = true) {act : IngestAct} (hact : act.isTask = true) :
    s.step config act = s ∨ (s.step config act).rank < s.rank := by
  cases act with
  | ingest reply =>
    rcases ingestStep_rank config hfinished reply with hlt | ⟨heq, -⟩
    · exact .inr hlt
    · exact .inl heq
  | dispatcher =>
    simp only [step]
    split
    · rcases dispatcherStep_rank config hfinished with hlt | ⟨heq, -⟩
      · exact .inr hlt
      · exact .inl heq
    · exact .inl rfl
  | take =>
    rcases take_rank config s with hlt | ⟨heq, -⟩
    · exact .inr hlt
    · exact .inl heq
  | _ => cases hact

/-- Until the stage returns, one of the tasks or the pool can go on. -/
theorem exists_task_step (hfinished : s.finished = true) (hreturned : ∀ result, s.ingest ≠ .returned result)
    (reply : IngestReply) :
    ∃ act ∈ [IngestAct.ingest reply, .dispatcher, .take], (s.step config act).rank < s.rank := by
  by_cases hfull : config.channelDepth ≤ s.items.length
  · -- A full channel has an item for the pool.
    rcases take_rank config s with hlt | ⟨-, hnil⟩
    · exact ⟨.take, by simp, hlt⟩
    · have hpos := config.channelDepth_pos
      rw [hnil, List.length_nil] at hfull
      omega
  · rcases ingestStep_rank config hfinished reply with
      hlt | ⟨-, ⟨result, hresult⟩ | ⟨hmode, hrunning⟩ | hwaits⟩
    · exact ⟨.ingest reply, by simp, hlt⟩
    · exact absurd hresult (hreturned result)
    · rcases dispatcherStep_rank config hfinished with hlt | ⟨-, hexit | hwaits⟩
      · refine ⟨.dispatcher, by simp, ?_⟩
        simpa only [step, hmode, if_true] using hlt
      · exact absurd hexit hrunning
      · exact absurd hwaits hfull
    · exact absurd hwaits hfull

end IngestState

/-! ## Nothing lost, nothing rushed -/

/-- At the end each wanted file that was found has been sent once, and no other. -/
theorem Tallied.sent_once {config : IngestConfig} {s : IngestState} (h : Tallied config s)
    (hreleased : Released config s) {result : Except String Unit} (hresult : s.ingest = .returned result)
    (path : Path) :
    s.sent.countP (·.isFrom path) =
      if path ∈ s.found.map (·.path) ∧ config.wanted path = true then 1 else 0 := by
  have hfits := hreleased.ingest
  rw [hresult] at hfits
  obtain ⟨-, hfiles, hexit, hheld, -⟩ := hfits
  have hplaces := h.places path
  simp only [IngestState.places, hresult, hexit, hheld, IngestPoint.items, DispatcherPoint.items,
    HoldingBuffer.drainAll, List.map_nil, List.countP_nil, Nat.add_zero] at hplaces
  have hmem : path ∈ s.seen.filter config.wanted ↔
      path ∈ s.found.map (·.path) ∧ config.wanted path = true := by
    rw [List.mem_filter, h.found path, hfiles]
    simp
  rw [hplaces, (h.nodup.filter _).count]
  simp only [hmem]

theorem released_and_tallied (config : IngestConfig) (hmode : config.executeDuringDiscovery = true)
    {acts : List IngestAct}
    (hrun : Along (IngestState.step config)
      (fun s act => s.Promised config act ∧ s.InTime config act) (.initial config) acts) :
    Released config ((IngestState.initial config).run config acts) ∧
      Tallied config ((IngestState.initial config).run config acts) := by
  have hstep : ∀ s act, Released config s ∧ Tallied config s →
      s.Promised config act ∧ s.InTime config act →
      Released config (s.step config act) ∧ Tallied config (s.step config act) :=
    fun s act h hact => ⟨h.1.step hmode hact.1 hact.2, h.2.step hmode h.1 hact.1⟩
  exact Along.invariant hstep ⟨.initial config, .initial config⟩ hrun

/-- When discovery does as it promises and no push comes after the last drain of
its root: no item is sent before its root was reported, the buffer is empty when
the task comes to look at it, the stage returns `Ok` with each wanted file sent
once and every send counted, and it does return. -/
theorem held_items_are_released (config : IngestConfig)
    (hmode : config.executeDuringDiscovery = true) {acts : List IngestAct}
    (hpromised : Along (IngestState.step config) (IngestState.Promised config) (.initial config) acts)
    (hintime : Along (IngestState.step config) (IngestState.InTime config) (.initial config) acts) :
    let s := (IngestState.initial config).run config acts
    (∀ item ∈ s.sent, s.RootReported config item) ∧
      (s.ingest = .joining → s.dispatcher = .exited → s.holding = []) ∧
      (∀ result, s.ingest = .returned result →
        result = .ok () ∧ s.holding = [] ∧ s.enqueued = s.sent.length ∧
          ∀ path, s.sent.countP (·.isFrom path) =
            if path ∈ s.found.map (·.path) ∧ config.wanted path = true then 1 else 0) ∧
      (s.finished = true →
        (∀ act : IngestAct, act.isTask = true →
          s.step config act = s ∨ (s.step config act).rank < s.rank) ∧
        ((∀ result, s.ingest ≠ .returned result) → ∀ reply,
          ∃ act ∈ [IngestAct.ingest reply, .dispatcher, .take],
            (s.step config act).rank < s.rank)) := by
  intro s
  obtain ⟨hreleased, htallied⟩ := released_and_tallied config hmode (hpromised.and hintime)
  refine ⟨hreleased.sent, fun _ hexit => hreleased.holding_nil hexit, ?_, ?_⟩
  · intro result hresult
    have hfits := hreleased.ingest
    have hcount := htallied.enqueued
    rw [hresult] at hfits hcount
    obtain ⟨-, -, hexit, hheld, hok⟩ := hfits
    rw [hexit] at hcount
    exact ⟨hok, hheld, hcount, fun path => htallied.sent_once hreleased hresult path⟩
  · intro hfinished
    exact ⟨fun act hact => IngestState.task_step_rank hfinished hact,
      fun hreturned reply => IngestState.exists_task_step hfinished hreturned reply⟩

/-! ## A root with one file -/

namespace SampleIngest

def media : Path := ⟨["media"]⟩

def film : FileDiscoveredEvent where
  path := media.join "film.mkv"
  size := 7
  contentHash := some "h"

def config : IngestConfig where
  roots := [media]
  badFiles := []
  forceRescan := false
  priorityByDate := false
  executeDuringDiscovery := true
  workers := 1
  workers_pos := by decide
  toStringLossy := id

def ingest : IngestAct := .ingest { decision := .ok (.new 1 true) }

/-- The file is held before its root is drained. -/
def inTime : List IngestAct :=
  [.found film, ingest, ingest, ingest, .completed media, .finish] ++
    List.replicate 7 .dispatcher ++ List.replicate 3 ingest

/-- The root is drained after the task has found its gate closed and before it
pushes the file. -/
def latePush : List IngestAct :=
  [.found film, .completed media, .finish, ingest, ingest] ++ List.replicate 3 .dispatcher ++
    [ingest] ++ List.replicate 2 .dispatcher ++ [ingest, ingest]

theorem rootForPath_film : rootForPath config.roots film.path = some media := by decide

/-- The root of the film is still to be reported while no report has been made. -/
theorem film_found {s : IngestState} (h : s.reported = []) : s.Promised config (.found film) := by
  intro root hroot
  rw [rootForPath_film] at hroot
  cases hroot
  rw [h]
  decide

theorem media_finished {s : IngestState} (h : s.reported = [media]) : s.Promised config .finish := by
  intro root
  rw [h]
  exact le_rfl

theorem inTime_promised :
    Along (IngestState.step config) (IngestState.Promised config) (.initial config) inTime := by
  refine ⟨film_found rfl, ⟨_, rfl⟩, ⟨_, rfl⟩, ⟨_, rfl⟩, ?_, media_finished rfl, ?_⟩
  · show List.count media [] < List.count media [media]
    decide
  · exact ⟨trivial, trivial, trivial, trivial, trivial, trivial, trivial, ⟨_, rfl⟩, ⟨_, rfl⟩,
      ⟨_, rfl⟩, trivial⟩

theorem inTime_inTime :
    Along (IngestState.step config) (IngestState.InTime config) (.initial config) inTime := by
  refine ⟨rfl, nofun, nofun, ?_, trivial, trivial, ?_⟩
  · rintro root item ⟨⟩
    left
    decide
  · exact ⟨trivial, trivial, trivial, trivial, trivial, trivial, trivial, nofun, nofun, nofun, trivial⟩

theorem film_is_sent :
    let s := (IngestState.initial config).run config inTime
    (∀ item ∈ s.sent, s.RootReported config item) ∧ s.ingest = .returned (.ok ()) ∧
      s.enqueued = s.sent.length ∧ s.sent.countP (·.isFrom film.path) = 1 := by
  have hreleased := held_items_are_released config rfl inTime_promised inTime_inTime
  obtain ⟨-, -, hcount, hsent⟩ := hreleased.2.2.1 (.ok ()) rfl
  refine ⟨hreleased.1, rfl, hcount, ?_⟩
  rw [hsent film.path]
  decide

/-- The film is never sent and the stage fails, though discovery did as it promised. -/
theorem latePush_loses_film :
    let s := (IngestState.initial config).run config latePush
    Along (IngestState.step config) (IngestState.Promised config) (.initial config) latePush ∧
      s.found = [film] ∧ config.wanted film.path = true ∧ s.sent = [] ∧
      s.ingest = .returned (.error (IngestState.heldMessage 1)) := by
  refine ⟨⟨film_found rfl, ?_, media_finished rfl, ⟨_, rfl⟩, ⟨_, rfl⟩, ?_⟩, rfl, rfl, rfl, rfl⟩
  · show List.count media [] < List.count media [media]
    decide
  · exact ⟨trivial, trivial, trivial, ⟨_, rfl⟩, trivial, trivial, ⟨_, rfl⟩, ⟨_, rfl⟩, trivial⟩

end SampleIngest

end Voom.Process
