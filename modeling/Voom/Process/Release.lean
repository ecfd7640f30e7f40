-- SUMMARY: Held items are released: what the ingest stage sends and when, over every order of its steps.
import Voom.Process.Ingest

/-!
# The release of held items

The ingest task checks the gate of a root and pushes the item in two steps. When
the dispatcher opens the gate and drains the root between them, nobody comes for
the item any more. While each push finds a completion of its root still to be
drained, every wanted file is sent once and none before its root is walked.
-/

namespace Voom.Process

open Lib Storage

/-! ## What is asked of a step -/

/-- The root whose completion the dispatcher has received and not yet drained. -/
def DispatcherPoint.inHand : DispatcherPoint → Option Path
  | .opening root | .draining root => some root
  | _ => none

/-- A completion of the root is still to be drained. -/
def IngestState.Awaited (config : IngestConfig) (s : IngestState) (root : Path) : Prop :=
  s.reported.count root < config.roots.count root ∨ root ∈ s.completions ∨
    s.dispatcher.inHand = some root

/-- Discovery reports the walk of every root, once each and after the last file
of the root; nothing is cancelled, and no registration fails. -/
def IngestState.Promised (config : IngestConfig) (s : IngestState) : IngestAct → Prop
  | .found event =>
    ∀ root, rootForPath config.roots event.path = some root →
      s.reported.count root < config.roots.count root
  | .completed root => s.reported.count root < config.roots.count root
  | .finish => ∀ root, config.roots.count root ≤ s.reported.count root
  | .cancel | .hangUp => False
  | .ingest reply => ∃ decision, reply.decision = .ok decision
  | .dispatcher | .take => True

/-- No push comes after the last drain of its root, and each file lies in the
same root when its path is spelled in Unicode. -/
def IngestState.InTime (config : IngestConfig) (s : IngestState) : IngestAct → Prop
  | .found event =>
    rootForPath config.roots (config.toStringLossy event.path) = rootForPath config.roots event.path
  | .ingest _ => ∀ root item, s.ingest = .pushing root item → s.Awaited config root
  | _ => True

/-- The longest-prefix root of the item, if it has one, was reported complete. -/
def IngestState.RootReported (config : IngestConfig) (s : IngestState) (item : FileItem) : Prop :=
  ∀ root, rootForPath config.roots item.source = some root → root ∈ s.reported

/-! ## The order of release -/

/-- What holds of the stage at a point of the ingest task. -/
def IngestPoint.Fits (config : IngestConfig) (s : IngestState) : IngestPoint → Prop
  | .receiving | .counting => True
  | .checking root item | .pushing root item =>
    rootForPath config.roots item.source = some root
  | .sending item => s.RootReported config item
  | .joining => s.finished = true ∧ s.files = []
  | .finishing => s.finished = true ∧ s.files = [] ∧ s.dispatcher = .exited ∧ s.holding = []
  | .returned result =>
    s.finished = true ∧ s.files = [] ∧ s.dispatcher = .exited ∧ s.holding = [] ∧ result = .ok ()

/-- What holds of the stage at a point of the dispatcher. -/
def DispatcherPoint.Fits (config : IngestConfig) (s : IngestState) : DispatcherPoint → Prop
  | .receiving => True
  | .opening root | .draining root => root ∈ s.reported
  | .sending items | .counting items => ∀ item ∈ items, s.RootReported config item
  | .exited => s.finished = true ∧ s.completions = []

/-- Nothing is disturbed, gates open for reported roots only, and whatever is held
or sent is held or sent in accord with the reports. -/
structure Released (config : IngestConfig) (s : IngestState) : Prop where
  cancelled : s.cancelled = false
  poolGone : s.poolGone = false
  gate : ∀ root, s.gate.isOpen root = true → root ∈ s.reported
  completions : ∀ root ∈ s.completions, root ∈ s.reported
  room : s.completions.length ≤ s.reported.length
  reports : ∀ root, s.reported.count root ≤ config.roots.count root
  complete : s.finished = true → ∀ root, config.roots.count root ≤ s.reported.count root
  lossy : ∀ event ∈ s.files,
    rootForPath config.roots (config.toStringLossy event.path) = rootForPath config.roots event.path
  held : ∀ e ∈ s.holding, rootForPath config.roots e.2.source = some e.1 ∧ s.Awaited config e.1
  sent : ∀ item ∈ s.sent, s.RootReported config item
  ingest : s.ingest.Fits config s
  dispatcher : s.dispatcher.Fits config s

theorem IngestState.RootReported.mono {config : IngestConfig} {s s' : IngestState} {item : FileItem}
    (hreported : ∀ r ∈ s.reported, r ∈ s'.reported) (h : s.RootReported config item) :
    s'.RootReported config item :=
  fun root hroot => hreported root (h root hroot)

/-- The point of the ingest task still fits when reports are added and, after
discovery has finished, its files stay as they are, as does the buffer once the
dispatcher has exited. -/
theorem IngestPoint.Fits.mono {config : IngestConfig} {s s' : IngestState} {p : IngestPoint}
    (hreported : ∀ r ∈ s.reported, r ∈ s'.reported)
    (hfiles : s.finished = true → s'.finished = true ∧ s'.files = s.files)
    (hexited : s.finished = true → s.dispatcher = .exited →
      s'.dispatcher = .exited ∧ s'.holding = s.holding)
    (h : p.Fits config s) : p.Fits config s' := by
  cases p with
  | receiving => trivial
  | checking root item => exact h
  | pushing root item => exact h
  | sending item => exact IngestState.RootReported.mono hreported h
  | counting => trivial
  | joining => exact ⟨(hfiles h.1).1, by rw [(hfiles h.1).2, h.2]⟩
  | finishing =>
    obtain ⟨hfinished, hnil, hexit, hheld⟩ := h
    obtain ⟨hfinished', hsame⟩ := hfiles hfinished
    obtain ⟨hexit', hbuffer⟩ := hexited hfinished hexit
    exact ⟨hfinished', by rw [hsame, hnil], hexit', by rw [hbuffer, hheld]⟩
  | returned result =>
    obtain ⟨hfinished, hnil, hexit, hheld, hok⟩ := h
    obtain ⟨hfinished', hsame⟩ := hfiles hfinished
    obtain ⟨hexit', hbuffer⟩ := hexited hfinished hexit
    exact ⟨hfinished', by rw [hsame, hnil], hexit', by rw [hbuffer, hheld], hok⟩

theorem DispatcherPoint.Fits.mono {config : IngestConfig} {s s' : IngestState} {p : DispatcherPoint}
    (hreported : ∀ r ∈ s.reported, r ∈ s'.reported)
    (hcompletions : s.finished = true → s'.finished = true ∧ s'.completions = s.completions)
    (h : p.Fits config s) : p.Fits config s' := by
  cases p with
  | receiving => trivial
  | opening root => exact hreported root h
  | draining root => exact hreported root h
  | sending items => exact fun item hitem => (h item hitem).mono hreported
  | counting items => exact fun item hitem => (h item hitem).mono hreported
  | exited => exact ⟨(hcompletions h.1).1, by rw [(hcompletions h.1).2, h.2]⟩

namespace Released

variable {config : IngestConfig} {s : IngestState}

/-- An item at the root that was reported. -/
theorem rootReported_of_eq {item : FileItem} {root : Path}
    (hroot : rootForPath config.roots item.source = some root) (hmem : root ∈ s.reported) :
    s.RootReported config item := by
  intro r hr
  rw [hroot] at hr
  cases hr
  exact hmem

/-! ### Discovery -/

theorem found (h : Released config s) (event : FileDiscoveredEvent)
    (hintime : s.InTime config (.found event)) : Released config (s.step config (.found event)) := by
  simp only [IngestState.step]
  split
  · exact h
  · rename_i hroom
    have hopen : s.finished = false := by simp_all
    refine { h with lossy := ?_, ingest := ?_ }
    · intro e he
      rcases List.mem_append.mp he with he | he
      · exact h.lossy e he
      · cases List.mem_singleton.mp he
        exact hintime
    · -- The task is not past its loop while discovery goes on.
      refine IngestPoint.Fits.mono (s := s) (fun _ hr => hr) ?_ (fun _ hexit => ⟨hexit, rfl⟩) h.ingest
      intro hfinished
      simp [hopen] at hfinished

/-- The channel of walked roots has room for one of each. -/
theorem completions_room (h : Released config s) {root : Path}
    (hcount : s.reported.count root < config.roots.count root) :
    s.completions.length < max config.roots.length 1 := by
  have hsub : List.Subperm (root :: s.reported) config.roots := by
    rw [List.subperm_ext_iff]
    intro r _
    rw [List.count_cons]
    split
    · rename_i heq
      rw [beq_iff_eq] at heq
      subst heq
      omega
    · exact h.reports r
  have hlength := hsub.length_le
  have hroom := h.room
  simp only [List.length_cons] at hlength
  omega

theorem completed (hmode : config.executeDuringDiscovery = true) (h : Released config s) (root : Path)
    (hcount : s.reported.count root < config.roots.count root) :
    Released config (s.step config (.completed root)) := by
  simp only [IngestState.step]
  split
  · exact h
  · rename_i hopen
    have hroom := h.completions_room hcount
    rw [if_pos ⟨hmode, hroom⟩]
    have hmono : ∀ r ∈ s.reported, r ∈ s.reported ++ [root] := fun r hr => List.mem_append_left _ hr
    refine
      { h with
        gate := fun r hr => hmono r (h.gate r hr)
        completions := ?_, room := ?_, reports := ?_, complete := ?_, held := ?_
        sent := fun item hitem => (h.sent item hitem).mono hmono
        ingest := h.ingest.mono hmono (fun hfinished => absurd hfinished hopen) fun _ hexit => ⟨hexit, rfl⟩
        dispatcher := h.dispatcher.mono hmono fun hfinished => absurd hfinished hopen }
    · intro r hr
      rcases List.mem_append.mp hr with hr | hr
      · exact List.mem_append_left _ (h.completions r hr)
      · exact List.mem_append_right _ hr
    · simpa using h.room
    · intro r
      rw [List.count_append, List.count_singleton]
      split
      · rename_i heq
        rw [beq_iff_eq] at heq
        subst heq
        omega
      · exact h.reports r
    · intro hfinished
      exact absurd hfinished hopen
    · intro e he
      refine ⟨(h.held e he).1, ?_⟩
      -- The root that is reported now waits in the channel.
      rcases (h.held e he).2 with hless | hwaits | hhand
      · by_cases heq : e.1 = root
        · exact .inr (.inl (List.mem_append_right _ (by rw [heq]; exact List.mem_singleton_self _)))
        · refine .inl ?_
          rwa [List.count_append, List.count_singleton, if_neg (by simpa using Ne.symm heq)]
      · exact .inr (.inl (List.mem_append_left _ hwaits))
      · exact .inr (.inr hhand)

theorem finish (h : Released config s)
    (hpromised : ∀ root, config.roots.count root ≤ s.reported.count root) :
    Released config (s.step config .finish) := by
  exact
    { h with
      complete := fun _ => hpromised
      ingest :=
        IngestPoint.Fits.mono (s := s) (fun _ hr => hr) (fun _ => ⟨rfl, rfl⟩)
          (fun _ hexit => ⟨hexit, rfl⟩) h.ingest
      dispatcher :=
        DispatcherPoint.Fits.mono (s := s) (fun _ hr => hr) (fun _ => ⟨rfl, rfl⟩) h.dispatcher }

/-! ### The ingest task -/

/-- Once discovery has finished and the dispatcher has exited, nothing is held. -/
theorem holding_nil (h : Released config s) (hexit : s.dispatcher = .exited) : s.holding = [] := by
  have hfits := h.dispatcher
  rw [hexit] at hfits
  obtain ⟨hfinished, hnil⟩ := hfits
  refine List.eq_nil_iff_forall_not_mem.mpr fun e he => ?_
  rcases (h.held e he).2 with hless | hwaits | hhand
  · exact absurd (h.complete hfinished e.1) (by omega)
  · rw [hnil] at hwaits
    cases hwaits
  · rw [hexit] at hhand
    cases hhand

theorem settle_eq (hnil : s.holding = []) : s.settle = { s with holding := [], ingest := .finishing } := by
  simp [IngestState.settle, hnil, HoldingBuffer.drainAll]

theorem settle (h : Released config s) (hexit : s.dispatcher = .exited)
    (hfinished : s.finished = true) (hfiles : s.files = []) : Released config s.settle := by
  rw [settle_eq (h.holding_nil hexit)]
  exact
    { h with
      held := nofun
      ingest := ⟨hfinished, hfiles, hexit, rfl⟩
      dispatcher := h.dispatcher.mono (fun r hr => hr) fun _ => ⟨hfinished, rfl⟩ }

/-- The way of an item that has just been made. -/
theorem route_fits (hmode : config.executeDuringDiscovery = true) {item : FileItem}
    (hlossy : rootForPath config.roots item.payload.path = rootForPath config.roots item.source) :
    (IngestState.route config item).Fits config s := by
  rw [IngestState.route, if_pos hmode, hlossy]
  split
  · rename_i root hroot
    exact hroot
  · rename_i hnone
    intro root hroot
    rw [hnone] at hroot
    cases hroot

theorem register_ok (event : FileDiscoveredEvent) {reply : IngestReply}
    (hreply : ∃ decision, reply.decision = .ok decision) :
    ∃ flag, IngestState.register event reply = .ok flag := by
  obtain ⟨decision, hdecision⟩ := hreply
  unfold IngestState.register
  split
  · exact ⟨decision.needsIntrospection, by rw [hdecision]; rfl⟩
  · exact ⟨true, rfl⟩

theorem accept (hmode : config.executeDuringDiscovery = true) (h : Released config s)
    (hpoint : s.ingest = .receiving) {event : FileDiscoveredEvent} {reply : IngestReply}
    (hlossy : rootForPath config.roots (config.toStringLossy event.path) =
      rootForPath config.roots event.path)
    (hreply : ∃ decision, reply.decision = .ok decision) :
    Released config (s.accept config event reply) := by
  obtain ⟨flag, hflag⟩ := register_ok event hreply
  have hreceiving : IngestPoint.Fits config s s.ingest := by rw [hpoint]; trivial
  unfold IngestState.accept
  split
  · exact h
  · simp only [hflag]
    split
    · exact { h with ingest := route_fits hmode hlossy }
    · exact
        { h with
          ingest := hreceiving.mono (fun r hr => hr) (fun hf => ⟨hf, rfl⟩) fun _ hexit => ⟨hexit, rfl⟩ }

/-- A send adds an item to those that were sent. -/
theorem sendItem_eq {item : FileItem} {s' : IngestState} (hsend : s.sendItem config item = some s') :
    s' = { s with items := s.items ++ [item], sent := s.sent ++ [item] } := by
  unfold IngestState.sendItem at hsend
  split at hsend
  · exact (Option.some.inj hsend).symm
  · cases hsend

theorem forall_sent (h : Released config s) {item : FileItem} (hitem : s.RootReported config item) :
    ∀ i ∈ s.sent ++ [item], s.RootReported config i := by
  intro i hi
  rcases List.mem_append.mp hi with hi | hi
  · exact h.sent i hi
  · cases List.mem_singleton.mp hi
    exact hitem

theorem ingestStep (hmode : config.executeDuringDiscovery = true) (h : Released config s)
    (reply : IngestReply) (hreply : ∃ decision, reply.decision = .ok decision)
    (hintime : s.InTime config (.ingest reply)) : Released config (s.ingestStep config reply) := by
  have hfits := h.ingest
  unfold IngestState.ingestStep
  split
  case h_1 hpoint =>
    rw [if_neg (by simp [h.cancelled])]
    · split
      · rename_i hfiles
        split
        · rename_i hfinished
          exact { h with ingest := ⟨hfinished, hfiles⟩ }
        · exact h
      · rename_i event files hfiles
        have hrest : Released config { s with files } :=
          { h with
            lossy := fun e he => h.lossy e (by rw [hfiles]; exact List.mem_cons_of_mem _ he)
            ingest := by
              show IngestPoint.Fits config _ s.ingest
              rw [hpoint]
              trivial }
        refine hrest.accept hmode hpoint (h.lossy event ?_) hreply
        rw [hfiles]
        exact List.mem_cons_self
  case h_2 root item hpoint =>
    rw [hpoint] at hfits
    refine { h with ingest := ?_ }
    show IngestPoint.Fits config _ (if s.gate.isOpen root then _ else _)
    split
    · rename_i hgate
      exact rootReported_of_eq hfits (h.gate root hgate)
    · exact hfits
  case h_3 root item hpoint =>
    rw [hpoint] at hfits
    refine { h with held := ?_, ingest := trivial }
    intro e he
    rcases List.mem_append.mp he with he | he
    · exact h.held e he
    · cases List.mem_singleton.mp he
      exact ⟨hfits, hintime root item hpoint⟩
  case h_4 item hpoint =>
    rw [hpoint] at hfits
    rw [if_neg (by simp [h.poolGone])]
    · split
      · rename_i s' hsend
        rw [sendItem_eq hsend]
        exact { h with sent := h.forall_sent hfits, ingest := trivial }
      · exact h
  case h_5 hpoint => exact { h with ingest := trivial }
  case h_6 hpoint =>
    rw [hpoint] at hfits
    rw [if_pos hmode]
    split
    · rename_i hexit
      exact h.settle hexit hfits.1 hfits.2
    · exact h
  case h_7 hpoint =>
    rw [hpoint] at hfits
    obtain ⟨hfinished, hfiles, hexit, hheld⟩ := hfits
    exact { h with ingest := ⟨hfinished, hfiles, hexit, hheld, rfl⟩ }
  case h_8 => exact h

/-! ### The dispatcher -/

/-- While the dispatcher runs, its steps do not concern the point of the ingest task. -/
theorem ingest_fits (h : Released config s) (hrunning : s.dispatcher ≠ .exited) {s' : IngestState}
    (hpoint : s'.ingest = s.ingest) (hreported : s'.reported = s.reported)
    (hfinished : s'.finished = s.finished) (hfiles : s'.files = s.files) :
    s'.ingest.Fits config s' := by
  rw [hpoint]
  apply h.ingest.mono
  · rw [hreported]
    exact fun _ hr => hr
  · exact fun hf => ⟨hfinished.trans hf, hfiles⟩
  · exact fun _ hexit => absurd hexit hrunning

/-- What stays held is still waited for, when each completion stays in the
channel or in hand. -/
theorem held_mono (h : Released config s) {s' : IngestState}
    (hholding : ∀ e ∈ s'.holding, e ∈ s.holding) (hreported : s'.reported = s.reported)
    (hwaits : ∀ e ∈ s'.holding, e.1 ∈ s.completions ∨ s.dispatcher.inHand = some e.1 →
      e.1 ∈ s'.completions ∨ s'.dispatcher.inHand = some e.1) :
    ∀ e ∈ s'.holding,
      rootForPath config.roots e.2.source = some e.1 ∧ s'.Awaited config e.1 := by
  intro e he
  obtain ⟨hroot, hless | hwait⟩ := h.held e (hholding e he)
  · exact ⟨hroot, .inl (by rw [hreported]; exact hless)⟩
  · exact ⟨hroot, .inr (hwaits e he hwait)⟩

theorem receive (h : Released config s) (hpoint : s.dispatcher = .receiving) {root : Path}
    {completions : List Path} (hcompletions : s.completions = root :: completions) :
    Released config { s with completions, dispatcher := .opening root } := by
  have hroom := h.room
  rw [hcompletions, List.length_cons] at hroom
  refine
    { h with
      completions := fun r hr => h.completions r (by rw [hcompletions]; exact List.mem_cons_of_mem _ hr)
      room := le_trans (Nat.le_succ _) hroom
      held := h.held_mono (fun _ he => he) rfl ?_
      ingest := h.ingest_fits (by rw [hpoint]; nofun) rfl rfl rfl rfl
      dispatcher := h.completions root (by rw [hcompletions]; exact List.mem_cons_self) }
  rintro e - (hwaits | hhand)
  · -- The completion at the head of the channel is now in hand.
    rw [hcompletions] at hwaits
    rcases List.mem_cons.mp hwaits with heq | hwaits
    · exact .inr (congrArg some heq.symm)
    · exact .inl hwaits
  · rw [hpoint] at hhand
    cases hhand

theorem dispatcherStep (h : Released config s) : Released config (s.dispatcherStep config) := by
  have hfits := h.dispatcher
  unfold IngestState.dispatcherStep
  split
  case h_1 hpoint =>
    rw [if_neg (by simp [h.cancelled])]
    split
    · rename_i hnil
      split
      · rename_i hfinished
        refine
          { h with
            held := h.held_mono (fun _ he => he) rfl fun e _ => ?_
            ingest := h.ingest_fits (by rw [hpoint]; nofun) rfl rfl rfl rfl
            dispatcher := ⟨hfinished, hnil⟩ }
        rw [hpoint]
        exact id
      · exact h
    · rename_i root completions hcompletions
      exact h.receive hpoint hcompletions
  case h_2 root hpoint =>
    rw [hpoint] at hfits
    refine
      { h with
        gate := ?_
        held := h.held_mono (fun _ he => he) rfl fun e _ => ?_
        ingest := h.ingest_fits (by rw [hpoint]; nofun) rfl rfl rfl rfl
        dispatcher := hfits }
    · intro r hr
      rcases RootGate.isOpen_openRoot hr with rfl | hr
      · exact hfits
      · exact h.gate r hr
    · rw [hpoint]
      exact id
  case h_3 root hpoint =>
    rw [hpoint] at hfits
    refine
      { h with
        held := h.held_mono (fun e he => (HoldingBuffer.mem_drainRoot_snd.mp he).1) rfl ?_
        ingest := h.ingest_fits (by rw [hpoint]; nofun) rfl rfl rfl rfl
        dispatcher := ?_ }
    · rintro e he (hwaits | hhand)
      · exact .inl hwaits
      · rw [hpoint] at hhand
        exact absurd (Option.some.inj hhand).symm (HoldingBuffer.mem_drainRoot_snd.mp he).2
    · -- The drained items are those of the root, which was reported.
      intro item hitem
      exact rootReported_of_eq (h.held _ (HoldingBuffer.mem_drainRoot_fst.mp hitem)).1 hfits
  case h_4 hpoint =>
    refine
      { h with
        held := h.held_mono (fun _ he => he) rfl fun e _ => ?_
        ingest := h.ingest_fits (by rw [hpoint]; nofun) rfl rfl rfl rfl
        dispatcher := trivial }
    rw [hpoint]
    exact id
  case h_5 item items hpoint =>
    rw [hpoint] at hfits
    rw [if_neg (by simp [h.poolGone])]
    split
    · rename_i s' hsend
      rw [sendItem_eq hsend]
      refine
        { h with
          held := h.held_mono (fun _ he => he) rfl fun e _ => ?_
          sent := h.forall_sent (hfits item List.mem_cons_self)
          ingest := h.ingest_fits (by rw [hpoint]; nofun) rfl rfl rfl rfl
          dispatcher := fun i hi => hfits i (List.mem_cons_of_mem _ hi) }
      rw [hpoint]
      exact id
    · exact h
  case h_6 items hpoint =>
    rw [hpoint] at hfits
    refine
      { h with
        held := h.held_mono (fun _ he => he) rfl fun e _ => ?_
        ingest := h.ingest_fits (by rw [hpoint]; nofun) rfl rfl rfl rfl
        dispatcher := hfits }
    rw [hpoint]
    exact id
  case h_7 => exact h

/-! ### Runs -/

theorem step (hmode : config.executeDuringDiscovery = true) {act : IngestAct} (h : Released config s)
    (hpromised : s.Promised config act) (hintime : s.InTime config act) :
    Released config (s.step config act) := by
  cases act with
  | found event => exact h.found event hintime
  | completed root => exact h.completed hmode root hpromised
  | finish => exact h.finish hpromised
  | cancel => exact hpromised.elim
  | ingest reply => exact h.ingestStep hmode reply hpromised hintime
  | dispatcher =>
    simp only [IngestState.step, hmode, if_true]
    exact h.dispatcherStep
  | take => exact { h with }
  | hangUp => exact hpromised.elim

theorem initial (config : IngestConfig) : Released config (.initial config) where
  cancelled := rfl
  poolGone := rfl
  gate := by
    intro root hopen
    simp [IngestState.initial] at hopen
  completions := nofun
  room := le_rfl
  reports := fun _ => Nat.zero_le _
  complete := nofun
  lossy := nofun
  held := nofun
  sent := nofun
  ingest := trivial
  dispatcher := trivial

end Released

/-! ## The places of the items -/

def FileItem.isFrom (path : Path) (item : FileItem) : Bool := item.source = path

/-- The item a point of the ingest task has in hand. -/
def IngestPoint.items : IngestPoint → List FileItem
  | .checking _ item | .pushing _ item | .sending item => [item]
  | _ => []

def DispatcherPoint.items : DispatcherPoint → List FileItem
  | .sending items | .counting items => items
  | _ => []

/-- The items that were sent by a task which has not counted them yet. -/
def IngestPoint.uncounted : IngestPoint → Nat
  | .counting => 1
  | _ => 0

def DispatcherPoint.uncounted : DispatcherPoint → Nat
  | .counting _ => 1
  | _ => 0

/-- The items of a file, wherever they are. -/
def IngestState.places (s : IngestState) (path : Path) : Nat :=
  s.sent.countP (·.isFrom path) + s.ingest.items.countP (·.isFrom path) +
    s.dispatcher.items.countP (·.isFrom path) + s.holding.drainAll.countP (·.isFrom path)

/-- Each wanted file that was seen has one item, in one place. -/
structure Tallied (config : IngestConfig) (s : IngestState) : Prop where
  nodup : s.seen.Nodup
  found : ∀ path, path ∈ s.found.map (·.path) ↔ path ∈ s.seen ∨ path ∈ s.files.map (·.path)
  places : ∀ path, s.places path = (s.seen.filter config.wanted).count path
  enqueued : s.enqueued + s.ingest.uncounted + s.dispatcher.uncounted = s.sent.length

namespace Tallied

variable {config : IngestConfig} {s : IngestState}

/-- A step that moves items between places and counts what it sends. -/
theorem move (h : Tallied config s) {s' : IngestState} (hseen : s'.seen = s.seen)
    (hfound : s'.found = s.found) (hfiles : s'.files = s.files)
    (hplaces : ∀ path, s'.places path = s.places path)
    (hcount : s'.enqueued + s'.ingest.uncounted + s'.dispatcher.uncounted = s'.sent.length) :
    Tallied config s' where
  nodup := by rw [hseen]; exact h.nodup
  found := by rw [hseen, hfound, hfiles]; exact h.found
  places := fun path => by rw [hseen, hplaces]; exact h.places path
  enqueued := hcount

/-- A step that moves and counts nothing. -/
theorem quiet (h : Tallied config s) {s' : IngestState} (hseen : s'.seen = s.seen)
    (hfound : s'.found = s.found) (hfiles : s'.files = s.files) (hsent : s'.sent = s.sent)
    (hheld : s'.holding = s.holding) (henqueued : s'.enqueued = s.enqueued)
    (hingest : s'.ingest.items = s.ingest.items ∧ s'.ingest.uncounted = s.ingest.uncounted)
    (hdispatcher : s'.dispatcher.items = s.dispatcher.items ∧
      s'.dispatcher.uncounted = s.dispatcher.uncounted) : Tallied config s' := by
  refine h.move hseen hfound hfiles (fun path => ?_) ?_
  · rw [IngestState.places, hsent, hheld, hingest.1, hdispatcher.1]
    rfl
  · rw [hsent, henqueued, hingest.2, hdispatcher.2]
    exact h.enqueued

theorem route_items (config : IngestConfig) (item : FileItem) :
    (IngestState.route config item).items = [item] := by
  unfold IngestState.route
  split
  · split <;> rfl
  · rfl

theorem route_uncounted (config : IngestConfig) (item : FileItem) :
    (IngestState.route config item).uncounted = 0 := by
  unfold IngestState.route
  split
  · split <;> rfl
  · rfl

/-- A file that was taken off the channel is seen, and has an item if it is wanted. -/
theorem accept (h : Tallied config s) (hpoint : s.ingest = .receiving) {event : FileDiscoveredEvent}
    {files : List FileDiscoveredEvent} (hfiles : s.files = event :: files) {reply : IngestReply}
    (hreply : ∃ decision, reply.decision = .ok decision) :
    Tallied config ({ s with files }.accept config event reply) := by
  obtain ⟨flag, hflag⟩ := Released.register_ok event hreply
  have hfound := h.found
  rw [hfiles] at hfound
  unfold IngestState.accept
  split
  · rename_i hmem
    refine { h with found := fun path => ?_ }
    rw [hfound path, List.map_cons, List.mem_cons]
    constructor
    · rintro (hseen | rfl | hrest)
      · exact .inl hseen
      · exact .inl hmem
      · exact .inr hrest
    · rintro (hseen | hrest)
      · exact .inl hseen
      · exact .inr (.inr hrest)
  · rename_i hnew
    have hnodup : (s.seen ++ [event.path]).Nodup :=
      List.nodup_append.mpr ⟨h.nodup, List.nodup_singleton _, by
        rintro a ha b hb rfl
        exact hnew (List.mem_singleton.mp hb ▸ ha)⟩
    have hfound' : ∀ path, path ∈ s.found.map (·.path) ↔
        path ∈ s.seen ++ [event.path] ∨ path ∈ files.map (·.path) := by
      intro path
      rw [hfound path, List.map_cons, List.mem_cons, List.mem_append, List.mem_singleton, or_assoc]
    have hcount := h.enqueued
    rw [hpoint] at hcount
    simp only [hflag]
    split
    · rename_i hwanted
      refine ⟨hnodup, hfound', fun path => ?_, ?_⟩
      · have hplaces := h.places path
        simp only [IngestState.places, hpoint, IngestPoint.items, List.countP_nil] at hplaces
        simp only [IngestState.places, route_items, List.filter_append, List.count_append,
          List.filter_cons, hwanted, if_true, List.filter_nil, List.countP_cons, List.countP_nil,
          List.count_cons, List.count_nil, FileItem.isFrom, IngestState.itemOf, decide_eq_true_eq,
          beq_iff_eq] at hplaces ⊢
        omega
      · simp only [route_uncounted]
        exact hcount
    · rename_i hunwanted
      refine ⟨hnodup, hfound', fun path => ?_, h.enqueued⟩
      have hplaces := h.places path
      simp only [IngestState.places, List.filter_append, List.count_append, List.filter_cons,
        hunwanted, List.filter_nil] at hplaces ⊢
      simpa using hplaces

theorem ingestStep (hmode : config.executeDuringDiscovery = true) (h : Tallied config s)
    (hreleased : Released config s) (reply : IngestReply)
    (hreply : ∃ decision, reply.decision = .ok decision) :
    Tallied config (s.ingestStep config reply) := by
  have hcount := h.enqueued
  unfold IngestState.ingestStep
  split
  case h_1 hpoint =>
    rw [if_neg (by simp [hreleased.cancelled])]
    split
    · split
      · exact h.quiet rfl rfl rfl rfl rfl rfl (by rw [hpoint]; exact ⟨rfl, rfl⟩) ⟨rfl, rfl⟩
      · exact h
    · rename_i event files hfiles
      exact h.accept hpoint hfiles hreply
  case h_2 root item hpoint =>
    refine h.quiet rfl rfl rfl rfl rfl rfl ?_ ⟨rfl, rfl⟩
    rw [hpoint]
    split <;> exact ⟨rfl, rfl⟩
  case h_3 root item hpoint =>
    refine h.move rfl rfl rfl (fun path => ?_) ?_
    · simp only [IngestState.places, hpoint, IngestPoint.items, HoldingBuffer.push,
        HoldingBuffer.drainAll, List.map_append, List.countP_append, List.map_cons, List.map_nil,
        List.countP_nil]
      omega
    · rw [hpoint] at hcount
      exact hcount
  case h_4 item hpoint =>
    rw [if_neg (by simp [hreleased.poolGone])]
    split
    · rename_i s' hsend
      rw [Released.sendItem_eq hsend]
      refine h.move rfl rfl rfl (fun path => ?_) ?_
      · simp only [IngestState.places, hpoint, IngestPoint.items, List.countP_append, List.countP_nil]
        omega
      · simp only [hpoint, IngestPoint.uncounted] at hcount
        simp only [IngestPoint.uncounted, List.length_append, List.length_singleton]
        omega
    · exact h
  case h_5 hpoint =>
    refine h.move rfl rfl rfl (fun path => ?_) ?_
    · simp only [IngestState.places, hpoint, IngestPoint.items]
    · rw [hpoint] at hcount
      exact hcount
  case h_6 hpoint =>
    rw [if_pos hmode]
    split
    · rename_i hexit
      have hnil := hreleased.holding_nil hexit
      rw [Released.settle_eq hnil]
      exact h.quiet rfl rfl rfl rfl hnil.symm rfl (by rw [hpoint]; exact ⟨rfl, rfl⟩) ⟨rfl, rfl⟩
    · exact h
  case h_7 hpoint =>
    exact h.quiet rfl rfl rfl rfl rfl rfl (by rw [hpoint]; exact ⟨rfl, rfl⟩) ⟨rfl, rfl⟩
  case h_8 => exact h

theorem dispatcherStep (h : Tallied config s) (hreleased : Released config s) :
    Tallied config (s.dispatcherStep config) := by
  have hcount := h.enqueued
  unfold IngestState.dispatcherStep
  split
  case h_1 hpoint =>
    rw [if_neg (by simp [hreleased.cancelled])]
    split
    · split
      · exact h.quiet rfl rfl rfl rfl rfl rfl ⟨rfl, rfl⟩ (by rw [hpoint]; exact ⟨rfl, rfl⟩)
      · exact h
    · exact h.quiet rfl rfl rfl rfl rfl rfl ⟨rfl, rfl⟩ (by rw [hpoint]; exact ⟨rfl, rfl⟩)
  case h_2 root hpoint =>
    exact h.quiet rfl rfl rfl rfl rfl rfl ⟨rfl, rfl⟩ (by rw [hpoint]; exact ⟨rfl, rfl⟩)
  case h_3 root hpoint =>
    refine h.move rfl rfl rfl (fun path => ?_) ?_
    · have hdrain := HoldingBuffer.countP_drainRoot s.holding root (·.isFrom path)
      simp only [IngestState.places, hpoint, DispatcherPoint.items, List.countP_nil]
      omega
    · rw [hpoint] at hcount
      exact hcount
  case h_4 hpoint =>
    exact h.quiet rfl rfl rfl rfl rfl rfl ⟨rfl, rfl⟩ (by rw [hpoint]; exact ⟨rfl, rfl⟩)
  case h_5 item items hpoint =>
    rw [if_neg (by simp [hreleased.poolGone])]
    split
    · rename_i s' hsend
      rw [Released.sendItem_eq hsend]
      refine h.move rfl rfl rfl (fun path => ?_) ?_
      · simp only [IngestState.places, hpoint, DispatcherPoint.items, List.countP_append,
          List.countP_cons, List.countP_nil]
        omega
      · simp only [hpoint, DispatcherPoint.uncounted] at hcount
        simp only [DispatcherPoint.uncounted, List.length_append, List.length_singleton]
        omega
    · exact h
  case h_6 items hpoint =>
    refine h.move rfl rfl rfl (fun path => ?_) ?_
    · simp only [IngestState.places, hpoint, DispatcherPoint.items]
    · simp only [hpoint, DispatcherPoint.uncounted] at hcount
      simp only [DispatcherPoint.uncounted]
      omega
  case h_7 => exact h

theorem step (hmode : config.executeDuringDiscovery = true) {act : IngestAct} (h : Tallied config s)
    (hreleased : Released config s) (hpromised : s.Promised config act) :
    Tallied config (s.step config act) := by
  cases act with
  | found event =>
    simp only [IngestState.step]
    split
    · exact h
    · refine { h with found := fun path => ?_ }
      simp only [List.map_append, List.mem_append, h.found path, or_assoc]
  | completed root =>
    simp only [IngestState.step]
    split
    · exact h
    · split <;> exact { h with }
  | finish => exact { h with }
  | cancel => exact hpromised.elim
  | ingest reply => exact h.ingestStep hmode hreleased reply hpromised
  | dispatcher =>
    simp only [IngestState.step, hmode, if_true]
    exact h.dispatcherStep hreleased
  | take => exact { h with }
  | hangUp => exact hpromised.elim

theorem initial (config : IngestConfig) : Tallied config (.initial config) where
  nodup := List.nodup_nil
  found := fun _ => ⟨nofun, nofun⟩
  places := fun _ => rfl
  enqueued := rfl

end Tallied

end Voom.Process
