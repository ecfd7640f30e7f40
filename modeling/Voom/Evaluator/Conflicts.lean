-- SUMMARY: When no track is both removed and acted upon, and defaults end up on the first tracks left.
import Voom.Evaluator.Applied

/-!
# Conflicts between operations

Every operation looks at the tracks of the file as it is, not at those that the operations
before it leave. So two removals may ask for one track, an edit may be for a track that is
removed, and a strategy for defaults may choose a track that is removed.
-/

namespace Voom.Evaluator

open Dsl

/-! ## The first track left -/

/-- The first track that is kept and passes the test is `t` if none before it is. -/
theorem find_kept_iff {tracks : List Track} (hdistinct : (tracks.map (·.index)).Nodup) {t : Track}
    (ht : t ∈ tracks) (keep : Track → Prop) [DecidablePred keep] (hkeep : keep t)
    {edit : Track → Track} (hedit : ∀ s, (edit s).index = s.index) (test : Track → Bool)
    (htest : test (edit t) = true) :
    (((tracks.filter fun s => decide (keep s)).map edit).find? test).any (·.index = t.index) = true ↔
      ∀ before after, tracks = before ++ t :: after →
        ∀ s ∈ before, ¬ keep s ∨ test (edit s) = false := by
  obtain ⟨before, after, rfl⟩ := List.append_of_mem ht
  have hne : ∀ s ∈ before, s.index ≠ t.index := by
    intro s hs heq
    rw [List.map_append, List.map_cons, List.nodup_append] at hdistinct
    exact hdistinct.2.2 s.index (List.mem_map_of_mem hs) t.index List.mem_cons_self heq
  have hfound : ((((before ++ t :: after).filter fun s => decide (keep s)).map edit).find? test).any
      (·.index = t.index) = true ↔ ∀ s ∈ before, ¬ keep s ∨ test (edit s) = false := by
    rw [List.filter_append, List.filter_cons_of_pos (by simpa using hkeep), List.map_append,
      List.map_cons, List.find?_append, List.find?_cons_of_pos htest]
    cases hfind : ((before.filter fun s => decide (keep s)).map edit).find? test with
    | none =>
      simp only [Option.none_or, Option.any_some, hedit, decide_true, true_iff]
      intro s hs
      by_cases hs' : keep s
      · have h := List.find?_eq_none.mp hfind (edit s)
          (List.mem_map_of_mem (List.mem_filter.mpr ⟨hs, by simpa using hs'⟩))
        exact Or.inr (by simpa using h)
      · exact Or.inl hs'
    | some found =>
      obtain ⟨s, hs, rfl⟩ := List.mem_map.mp (List.mem_of_find?_eq_some hfind)
      have hkept := List.mem_filter.mp hs
      simp only [Option.some_or, Option.any_some, hedit, decide_eq_true_eq]
      constructor
      · exact fun heq => absurd heq (hne s hkept.1)
      · intro h
        rcases h s hkept.1 with hdropped | hfails
        · exact absurd (by simpa using hkept.2) hdropped
        · rw [List.find?_some hfind] at hfails
          cases hfails
  rw [hfound]
  constructor
  · intro h before' after' heq s hs
    -- the track stands at one place only
    have hlen : before'.length = before.length := by
      have hidx (b a : List Track) (hb : before ++ t :: after = b ++ t :: a) :
          b.length = ((before ++ t :: after).map (·.index)).idxOf t.index := by
        have hnot : t.index ∉ b.map (·.index) := by
          intro hmem
          rw [hb, List.map_append, List.map_cons, List.nodup_append] at hdistinct
          exact hdistinct.2.2 t.index hmem t.index List.mem_cons_self rfl
        rw [hb, List.map_append, List.map_cons, List.idxOf_append_of_notMem hnot,
          List.idxOf_cons_self, Nat.add_zero, List.length_map]
      rw [hidx before' after' heq, ← hidx before after rfl]
    obtain ⟨rfl, -⟩ := List.append_inj heq hlen.symm
    exact h s hs
  · intro h
    exact h before after rfl

/-- The strategies that choose among the tracks. -/
def choosing : List DefaultStrategy := [.first, .firstPerLanguage]

theorem wantsDefault_eq_find {strategy : DefaultStrategy} (h : strategy ∈ choosing)
    (tracks : List Track) (t : Track) :
    wantsDefault strategy tracks t =
      (tracks.find? fun s => strategy = .first ∨ s.language = t.language).any
        (·.index = t.index) := by
  simp only [choosing, List.mem_cons, List.not_mem_nil, or_false] at h
  rcases h with rfl | rfl
  · cases tracks <;> simp [wantsDefault]
  · simp [wantsDefault]

section

variable (env : EvalEnv) (file : MediaFile) (ctx : EvalContext) (phase : CompiledPhase)

/-! ## What is claimed of a plan -/

/-- The entries of defaults blocks that the phase gets to. -/
def defaultEntries : List CompiledDefault :=
  (performed env file ctx phase.onError phase.operations).flatMap fun
    | .setDefaults defaults => defaults
    | _ => []

/-- In the file the plan leaves, the tracks of the entry flagged default are the ones its
strategy chooses among them. -/
def EntryHonoured (plan : Plan) (entry : CompiledDefault) : Prop :=
  ∀ t ∈ tracksForTarget (plan.applyTo file) entry.target,
    t.isDefault =
      wantsDefault entry.strategy (tracksForTarget (plan.applyTo file) entry.target) t

instance (plan : Plan) (entry : CompiledDefault) : Decidable (EntryHonoured file plan entry) :=
  inferInstanceAs (Decidable (∀ t ∈ tracksForTarget (plan.applyTo file) entry.target,
    t.isDefault = wantsDefault entry.strategy (tracksForTarget (plan.applyTo file) entry.target) t))

/-- No track is removed twice, none is removed and acted upon, and the defaults are on the
tracks the strategies choose among those left. -/
structure FreeOfConflicts (plan : Plan) : Prop where
  removedOnce : (removedIndices plan).Nodup
  removedOnly : ∀ a ∈ plan.actions, ∀ i, ActsOn a i → i ∉ removedIndices plan
  defaults : ∀ entry ∈ defaultEntries env file ctx phase, entry.strategy ∈ choosing →
    EntryHonoured file plan entry

/-! ## When it is so -/

/-- The phase leaves the default flag on: it is there and not wished away, or it is wished. -/
def FlaggedAfter (t : Track) : Prop :=
  if t.isDefault then ¬ Wishes env file ctx phase t (.default false)
  else Wishes env file ctx phase t (.default true)

/-- The language a track has after the edits that the operations plan. -/
def languageAfter (t : Track) : String :=
  (PlannedAction.editAll ((performed env file ctx phase.onError phase.operations).flatMap
    (operationPlans env file ctx)) t).language

/-- No track of the target that stays stands before this one, or none of its language. -/
def Leads (entry : CompiledDefault) (t : Track) : Prop :=
  ∀ before after, tracksForTarget file entry.target = before ++ t :: after →
    ∀ s ∈ before, Removes env file ctx phase s ∨
      entry.strategy = .firstPerLanguage ∧
        languageAfter env file ctx phase s ≠ languageAfter env file ctx phase t

/-- At most one request of the phase asks for each track, nothing is planned for a track that is
removed, and the flags that are left are those of the leading tracks. -/
structure Agrees : Prop where
  askedOnce : ∀ t ∈ file.tracks, ¬ Rescued env file ctx phase t →
    (phaseRequests env file ctx phase).countP (RemovalRequest.asks file t) ≤ 1
  nothingElse : ∀ t ∈ file.tracks, Removes env file ctx phase t →
    ∀ op ∈ performed env file ctx phase.onError phase.operations,
      ∀ a ∈ operationPlans env file ctx op, ¬ ActsOn a t.index
  leaders : ∀ entry ∈ defaultEntries env file ctx phase, entry.strategy ∈ choosing →
    ∀ t ∈ tracksForTarget file entry.target, ¬ Removes env file ctx phase t →
      (FlaggedAfter env file ctx phase t ↔ Leads env file ctx phase entry t)

end

/-! ## Proof -/

namespace Runs

variable {env : EvalEnv} {file : MediaFile} {ctx : EvalContext} {phase : CompiledPhase}
variable {plan : Plan} (hruns : Runs env file ctx phase plan)
include hruns

theorem track_of_removed {i : Nat} (h : i ∈ removedIndices plan) :
    ∃ t ∈ file.tracks, t.index = i := by
  rw [hruns.removedIndices_eq, removedBy, List.mem_filterMap] at h
  obtain ⟨a, ha, hindex⟩ := h
  have hasked : a ∈ (phaseEffect env file ctx phase).removals :=
    guardType_removals_sublist.subset (guardType_removals_sublist.subset ha)
  rw [(phaseEffect_requests phase).1] at hasked
  obtain ⟨r, -, hmem⟩ := List.mem_flatMap.mp hasked
  rw [granted_eq, RemovalRequest.granted] at hmem
  split at hmem
  · cases hmem
  · obtain ⟨t, ht, rfl⟩ := List.mem_map.mp hmem
    exact ⟨t, (mem_tracksForTarget.mp (List.mem_filter.mp ht).1).1, Option.some.inj hindex⟩

variable (hdistinct : DistinctIndices file)
include hdistinct

theorem removedOnce_iff :
    (removedIndices plan).Nodup ↔
      ∀ t ∈ file.tracks, ¬ Rescued env file ctx phase t →
        (phaseRequests env file ctx phase).countP (RemovalRequest.asks file t) ≤ 1 := by
  rw [List.nodup_iff_count_le_one]
  constructor
  · intro h t ht hrescued
    rw [← (hruns.count_removed hdistinct ht).2 hrescued]
    exact h t.index
  · intro h i
    by_cases hi : i ∈ removedIndices plan
    · obtain ⟨t, ht, rfl⟩ := hruns.track_of_removed hi
      by_cases hrescued : Rescued env file ctx phase t
      · rw [(hruns.count_removed hdistinct ht).1 hrescued]
        exact Nat.zero_le 1
      · rw [(hruns.count_removed hdistinct ht).2 hrescued]
        exact h t ht hrescued
    · rw [List.count_eq_zero_of_not_mem hi]
      exact Nat.zero_le 1

theorem removedOnly_iff :
    (∀ a ∈ plan.actions, ∀ i, ActsOn a i → i ∉ removedIndices plan) ↔
      ∀ t ∈ file.tracks, Removes env file ctx phase t →
        ∀ op ∈ performed env file ctx phase.onError phase.operations,
          ∀ a ∈ operationPlans env file ctx op, ¬ ActsOn a t.index := by
  constructor
  · intro h t ht hremoves op hop a ha hacts
    obtain ⟨a', ha', hacts'⟩ := hruns.acts_iff.mpr ⟨op, hop, a, ha, hacts⟩
    exact h a' ha' t.index hacts' ((hruns.mem_removed_iff hdistinct ht).mpr hremoves)
  · intro h a ha i hacts hi
    obtain ⟨t, ht, rfl⟩ := hruns.track_of_removed hi
    obtain ⟨op, hop, a', ha', hacts'⟩ := hruns.acts_iff.mp ⟨a, ha, hacts⟩
    exact h t ht ((hruns.mem_removed_iff hdistinct ht).mp hi) op hop a' ha' hacts'

/-- The flag stays as it is unless the phase wishes the other. -/
theorem isDefault_after {t : Track} (ht : t ∈ file.tracks) :
    (PlannedAction.editAll plan.actions t).isDefault = t.isDefault ↔
      ¬ Wishes env file ctx phase t (.default !t.isDefault) := by
  have hmakes {a : PlannedAction} {e : TrackEdit} (ha : a ∈ plan.actions) (he : a.makes t e) :=
    (hruns.makes_iff hdistinct ht).mp ⟨a, ha, he⟩
  constructor
  · intro hsame hwish
    have hchanged : (TrackEdit.default !t.isDefault).holds
        (PlannedAction.editAll plan.actions t) = true := by
      apply PlannedAction.holds_editAll
      · -- an edit to the flag that is there is not made
        intro a ha e he
        have hunmet := (hmakes ha he).2
        cases e with
        | default on => simpa [TrackEdit.holds, TrackEdit.conflicts, eq_comm] using hunmet
        | _ => rfl
      · exact Or.inr ((hruns.makes_iff hdistinct ht).mpr ⟨hwish, by simp [TrackEdit.holds]⟩)
    simp [TrackEdit.holds, hsame] at hchanged
  · intro hwish
    have hkept : (TrackEdit.default t.isDefault).holds
        (PlannedAction.editAll plan.actions t) = true := by
      apply PlannedAction.holds_editAll
      · intro a ha e he
        have hmade := hmakes ha he
        cases e with
        | default on =>
          by_cases hon : on = t.isDefault
          · simp [TrackEdit.conflicts, hon]
          · rw [Bool.eq_not.mpr hon] at hmade
            exact absurd hmade.1 hwish
        | _ => rfl
      · exact Or.inl (by simp [TrackEdit.holds])
    simpa [TrackEdit.holds] using hkept

theorem flaggedAfter_iff {t : Track} (ht : t ∈ file.tracks) :
    (PlannedAction.editAll plan.actions t).isDefault = true ↔ FlaggedAfter env file ctx phase t := by
  have h := hruns.isDefault_after hdistinct ht
  unfold FlaggedAfter
  cases hdefault : t.isDefault with
  | true => simpa [hdefault] using h
  | false =>
    rw [hdefault, Bool.not_false] at h
    simpa using not_congr h

theorem leads_iff {entry : CompiledDefault} (hchoosing : entry.strategy ∈ choosing) {t : Track}
    (ht : t ∈ tracksForTarget file entry.target) (hkept : t.index ∉ removedIndices plan) :
    wantsDefault entry.strategy (tracksForTarget (plan.applyTo file) entry.target)
        (PlannedAction.editAll plan.actions t) = true ↔
      Leads env file ctx phase entry t := by
  have hremoved {before after : List Track}
      (heq : tracksForTarget file entry.target = before ++ t :: after) {s : Track}
      (hs : s ∈ before) : ¬ s.index ∉ removedIndices plan ↔ Removes env file ctx phase s := by
    have hmem : s ∈ tracksForTarget file entry.target := heq ▸ List.mem_append_left _ hs
    rw [not_not]
    exact hruns.mem_removed_iff hdistinct (mem_tracksForTarget.mp hmem).1
  have hother : ¬ entry.strategy = .first ↔ entry.strategy = .firstPerLanguage := by
    simp only [choosing, List.mem_cons, List.not_mem_nil, or_false] at hchoosing
    rcases hchoosing with h | h <;> simp [h]
  rw [tracksForTarget_applyTo, wantsDefault_eq_find hchoosing, PlannedAction.editAll_index,
    find_kept_iff (tracksForTarget_distinct hdistinct entry.target) ht
      (fun s => s.index ∉ removedIndices plan) hkept (PlannedAction.editAll_index plan.actions)
      _ (by simp)]
  unfold Leads languageAfter
  rw [← hruns.editAll_eq]
  apply forall₃_congr
  intro before after heq
  apply forall₂_congr
  intro s hs
  rw [hremoved heq hs, decide_eq_false_iff_not, not_or, hother]

theorem entryHonoured_iff {entry : CompiledDefault} (hchoosing : entry.strategy ∈ choosing) :
    EntryHonoured file plan entry ↔
      ∀ t ∈ tracksForTarget file entry.target, ¬ Removes env file ctx phase t →
        (FlaggedAfter env file ctx phase t ↔ Leads env file ctx phase entry t) := by
  unfold EntryHonoured
  have htracks : tracksForTarget (plan.applyTo file) entry.target = _ :=
    tracksForTarget_applyTo plan entry.target
  constructor
  · intro h t ht hremoves
    have hmem := (mem_tracksForTarget.mp ht).1
    have hkept : t.index ∉ removedIndices plan :=
      mt (hruns.mem_removed_iff hdistinct hmem).mp hremoves
    have hleft : PlannedAction.editAll plan.actions t ∈
        tracksForTarget (plan.applyTo file) entry.target := by
      rw [htracks]
      exact List.mem_map_of_mem (List.mem_filter.mpr ⟨ht, by simpa using hkept⟩)
    rw [← hruns.flaggedAfter_iff hdistinct hmem, ← hruns.leads_iff hdistinct hchoosing ht hkept,
      h _ hleft]
  · intro h t' ht'
    rw [htracks] at ht'
    obtain ⟨t, ht, rfl⟩ := List.mem_map.mp ht'
    obtain ⟨ht, hkept⟩ := List.mem_filter.mp ht
    have hmem := (mem_tracksForTarget.mp ht).1
    have hkept : t.index ∉ removedIndices plan := by simpa using hkept
    have hiff := h t ht (mt (hruns.mem_removed_iff hdistinct hmem).mpr hkept)
    rw [← hruns.flaggedAfter_iff hdistinct hmem, ← hruns.leads_iff hdistinct hchoosing ht hkept] at hiff
    exact Bool.eq_iff_iff.mpr hiff

theorem freeOfConflicts_iff :
    FreeOfConflicts env file ctx phase plan ↔ Agrees env file ctx phase := by
  constructor
  · rintro ⟨honce, honly, hdefaults⟩
    refine ⟨(hruns.removedOnce_iff hdistinct).mp honce, (hruns.removedOnly_iff hdistinct).mp honly, ?_⟩
    intro entry hentry hchoosing
    exact (hruns.entryHonoured_iff hdistinct hchoosing).mp (hdefaults entry hentry hchoosing)
  · rintro ⟨honce, hnothing, hleaders⟩
    refine ⟨(hruns.removedOnce_iff hdistinct).mpr honce,
      (hruns.removedOnly_iff hdistinct).mpr hnothing, ?_⟩
    intro entry hentry hchoosing
    exact (hruns.entryHonoured_iff hdistinct hchoosing).mpr (hleaders entry hentry hchoosing)

end Runs

/-- A plan is free of conflicts exactly when the operations of its phase agree: no two requests
are for one track, no track that goes is acted upon, and the default flags end up on the tracks
that lead those that stay. -/
theorem plan_free_of_conflicts_iff (env : EvalEnv) (newId : Nat → Uuid) (policy : CompiledPolicy)
    (file : MediaFile) (capabilities : Option CapabilityMap)
    (phaseOutputLookup : Option (String → Option PhaseOutput)) (hdistinct : DistinctIndices file)
    (plan : Plan)
    (hplan : plan ∈ evaluateWithPhaseOutputs env newId policy file capabilities phaseOutputLookup)
    (hrun : plan.isSkipped = false) :
    ∃ phase, policy.phases.find? (·.name = plan.phaseName) = some phase ∧
      (FreeOfConflicts env file ⟨capabilities, phaseOutputLookup⟩ phase plan ↔
        Agrees env file ⟨capabilities, phaseOutputLookup⟩ phase) := by
  obtain ⟨phase, hphase, hruns⟩ := runs_of_mem hplan hrun
  exact ⟨phase, hphase, hruns.freeOfConflicts_iff hdistinct⟩

/-- Keeps the first audio track and makes it the default. -/
def firstKept : CompiledPhase :=
  { name := "languages"
    operations := [.keep .audio (some (.langIn ["eng"])), .setDefaults [⟨.audio, .first⟩]] }

theorem firstKept_agrees : Agrees plainEnv film {} firstKept := by
  obtain ⟨phase, hphase, hiff⟩ := plan_free_of_conflicts_iff plainEnv id (onePhase firstKept) film
    none none (by decide) (onePhasePlan firstKept) (mem_onePhasePlan firstKept) (by decide)
  have hfound : (onePhase firstKept).phases.find? (·.name = (onePhasePlan firstKept).phaseName) =
      some firstKept := by rfl
  cases hphase.symm.trans hfound
  apply hiff.mp
  refine ⟨by decide, ?_, ?_⟩
  · have h : ∀ a ∈ (onePhasePlan firstKept).actions, a.operation ≠ .removeTrack →
        ∀ i ∈ a.trackIndex, i ∉ removedIndices (onePhasePlan firstKept) := by decide
    exact fun a ha i hacts => h a ha hacts.1 i hacts.2
  · intro entry hentry _
    have hentries : defaultEntries plainEnv film {} firstKept = [⟨.audio, .first⟩] := by
      decide
    rw [hentries, List.mem_singleton] at hentry
    subst hentry
    exact (by decide : EntryHonoured film (onePhasePlan firstKept) ⟨.audio, .first⟩)

/-- Removes the first audio track, and makes the first audio track the default. -/
def firstRemoved : CompiledPhase :=
  { name := "languages"
    operations := [.remove .audio (some (.langIn ["eng"])), .setDefaults [⟨.audio, .first⟩]] }

theorem firstRemoved_conflicts :
    DistinctIndices film ∧ (onePhasePlan firstRemoved).isSkipped = false ∧
      onePhasePlan firstRemoved ∈
        evaluateWithPhaseOutputs plainEnv id (onePhase firstRemoved) film none none ∧
      ¬ (∀ a ∈ (onePhasePlan firstRemoved).actions, ∀ i, ActsOn a i →
          i ∉ removedIndices (onePhasePlan firstRemoved)) ∧
      ¬ EntryHonoured film (onePhasePlan firstRemoved) ⟨.audio, .first⟩ ∧
      ¬ FreeOfConflicts plainEnv film {} firstRemoved (onePhasePlan firstRemoved) := by
  have hboth : ¬∀ a ∈ (onePhasePlan firstRemoved).actions, ∀ i, ActsOn a i →
      i ∉ removedIndices (onePhasePlan firstRemoved) := by
    intro h
    have hset : setDefaultAction .audio
        { index := 1, trackType := .audioMain, codec := "ac3", language := "eng" } "" ∈
          (onePhasePlan firstRemoved).actions := by decide
    exact h _ hset 1 ⟨by decide, rfl⟩ (by decide)
  exact ⟨by decide, by decide, mem_onePhasePlan firstRemoved, hboth, by decide,
    fun h => hboth h.removedOnly⟩

end Voom.Evaluator
