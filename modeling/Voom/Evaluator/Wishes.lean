-- SUMMARY: What a phase wishes for the flags and texts of each track, and which edits it plans for it.
import Voom.Domain.Apply
import Voom.Evaluator.Emission

/-!
# Wishes

An operation that edits tracks wishes something for each track it looks at, and plans an
action where that does not hold yet. So the edits of a phase are those of its wishes that do
not hold (`operationPlans_edits`).
-/

namespace Voom.Evaluator

open Dsl

/-! ## Edits in a list of actions -/

/-- One of the actions makes the edit to the track of the index. -/
def Edits (actions : List PlannedAction) (i : Nat) (e : TrackEdit) : Prop :=
  ∃ a ∈ actions, a.trackIndex = some i ∧ a.trackEdit = some e

section

variable {i : Nat} {e : TrackEdit}

@[simp] theorem edits_nil : ¬ Edits [] i e := by
  simp [Edits]

theorem edits_append {as bs : List PlannedAction} :
    Edits (as ++ bs) i e ↔ Edits as i e ∨ Edits bs i e := by
  simp [Edits, or_and_right, exists_or]

theorem edits_flatMap {α : Type} {f : α → List PlannedAction} {xs : List α} :
    Edits (xs.flatMap f) i e ↔ ∃ x ∈ xs, Edits (f x) i e := by
  simp only [Edits, List.mem_flatMap]
  constructor
  · rintro ⟨a, ⟨x, hx, ha⟩, h⟩
    exact ⟨x, hx, a, ha, h⟩
  · rintro ⟨x, hx, a, ha, h⟩
    exact ⟨a, ⟨x, hx, ha⟩, h⟩

/-- One action a track, each with the same edit. -/
theorem edits_map {action : Track → PlannedAction} {e₀ : TrackEdit} {tracks : List Track}
    (h : ∀ t, (action t).makes t e₀) :
    Edits (tracks.map action) i e ↔ e = e₀ ∧ ∃ t ∈ tracks, t.index = i := by
  simp only [Edits, List.mem_map, exists_exists_and_eq_and]
  constructor
  · rintro ⟨t, ht, hindex, hedit⟩
    rw [(h t).1] at hindex
    rw [(h t).2] at hedit
    exact ⟨(Option.some.inj hedit).symm, t, ht, Option.some.inj hindex⟩
  · rintro ⟨rfl, t, ht, rfl⟩
    exact ⟨t, ht, h t⟩

theorem edits_singleton {a : PlannedAction} {t : Track} {e₀ : TrackEdit} (h : a.makes t e₀) :
    Edits [a] i e ↔ t.index = i ∧ e = e₀ := by
  simp [Edits, h.1, h.2, eq_comm]

theorem not_edits_of_none {actions : List PlannedAction} (h : ∀ a ∈ actions, a.trackEdit = none) :
    ¬ Edits actions i e := by
  rintro ⟨a, ha, -, hedit⟩
  rw [h a ha] at hedit
  cases hedit

end

/-! ## Wishes -/

/-- The default flag that a strategy wishes for one of the tracks. -/
def wantsDefault (strategy : DefaultStrategy) (tracks : List Track) (t : Track) : Bool :=
  match strategy with
  | .none => false
  | .all => true
  | .first => tracks.head?.any (·.index = t.index)
  | .firstPerLanguage => (tracks.find? (·.language = t.language)).any (·.index = t.index)

section

variable (env : EvalEnv) (file : MediaFile) (ctx : EvalContext)

def actionWishes : CompiledAction → List (Track × TrackEdit)
  | .setDefault target filter =>
    ((tracksForTarget file target).filter (filterMatches env file ctx filter)).map
      (·, .default true)
  | .setForced target filter =>
    ((tracksForTarget file target).filter (filterMatches env file ctx filter)).map (·, .forced true)
  | .setLanguage target filter value =>
    (resolveValueOrField env file ctx value).toList.flatMap fun lang =>
      ((tracksForTarget file target).filter (filterMatches env file ctx filter)).map
        (·, .language lang)
  | _ => []

/-- What an entry of a defaults block wishes. -/
def entryWishes (default : CompiledDefault) : List (Track × TrackEdit) :=
  (tracksForTarget file default.target).map fun t =>
    (t, .default (wantsDefault default.strategy (tracksForTarget file default.target) t))

/-- What clearing wishes for a track. -/
def clearEdits (settings : ClearActionsSettings) : List TrackEdit :=
  (if settings.clearAllDefault then [.default false] else []) ++
    (if settings.clearAllForced then [.forced false] else []) ++
    (if settings.clearAllTitles then [.title ""] else [])

def ownWishes : CompiledOperation → List (Track × TrackEdit)
  | .setDefaults defaults => defaults.flatMap (entryWishes file)
  | .clearActions target settings =>
    (tracksForTarget file target).flatMap fun t => (clearEdits settings).map (t, ·)
  | _ => []

def operationWishes (op : CompiledOperation) : List (Track × TrackEdit) :=
  (reached env file ctx (operationActions env file ctx op)).flatMap (actionWishes env file ctx) ++
    ownWishes file op

end

/-! ## Planned edits -/

/-- The edits are those of the wishes that do not hold. -/
def EditsUnmet (actions : List PlannedAction) (wishes : List (Track × TrackEdit)) : Prop :=
  ∀ i e, Edits actions i e ↔ ∃ t, (t, e) ∈ wishes ∧ t.index = i ∧ e.holds t = false

namespace EditsUnmet

theorem append {as bs : List PlannedAction} {us vs : List (Track × TrackEdit)}
    (h : EditsUnmet as us) (h' : EditsUnmet bs vs) : EditsUnmet (as ++ bs) (us ++ vs) := by
  intro i e
  rw [edits_append, h i e, h' i e]
  simp [List.mem_append, or_and_right, exists_or]

theorem flatMap {α : Type} {f : α → List PlannedAction} {g : α → List (Track × TrackEdit)}
    {xs : List α} (h : ∀ x ∈ xs, EditsUnmet (f x) (g x)) :
    EditsUnmet (xs.flatMap f) (xs.flatMap g) := by
  intro i e
  rw [edits_flatMap]
  simp only [List.mem_flatMap]
  constructor
  · rintro ⟨x, hx, hedits⟩
    obtain ⟨t, ht, hi, hunmet⟩ := (h x hx i e).mp hedits
    exact ⟨t, ⟨x, hx, ht⟩, hi, hunmet⟩
  · rintro ⟨t, ⟨x, hx, ht⟩, hi, hunmet⟩
    exact ⟨x, hx, (h x hx i e).mpr ⟨t, ht, hi, hunmet⟩⟩

theorem none {actions : List PlannedAction} (h : ∀ a ∈ actions, a.trackEdit = none) :
    EditsUnmet actions [] := by
  intro i e
  simp [not_edits_of_none h]

/-- One wish for all tracks, and an action for each that does not have it. -/
theorem map {action : Track → PlannedAction} {e₀ : TrackEdit} (tracks : List Track)
    (pick : Track → Bool) (h : ∀ t, (action t).makes t e₀) :
    EditsUnmet ((tracks.filter fun t => pick t && !e₀.holds t).map action)
      ((tracks.filter pick).map (·, e₀)) := by
  intro i e
  rw [edits_map h]
  simp only [List.mem_map, List.mem_filter, Prod.mk.injEq, Bool.and_eq_true, Bool.not_eq_true']
  constructor
  · rintro ⟨rfl, t, ⟨ht, hpick, hunmet⟩, rfl⟩
    exact ⟨t, ⟨t, ⟨ht, hpick⟩, rfl, rfl⟩, rfl, hunmet⟩
  · rintro ⟨t, ⟨t', ⟨ht, hpick⟩, rfl, rfl⟩, rfl, hunmet⟩
    exact ⟨rfl, t', ⟨ht, hpick, hunmet⟩, rfl⟩

/-- One track and one wish. -/
theorem single {a : PlannedAction} {t : Track} {e₀ : TrackEdit} (h : a.makes t e₀) :
    EditsUnmet (if e₀.holds t then [] else [a]) [(t, e₀)] := by
  intro i e
  cases hholds : e₀.holds t with
  | true =>
    simp only [if_true, edits_nil, List.mem_singleton, Prod.mk.injEq, false_iff]
    rintro ⟨t', ⟨rfl, rfl⟩, -, hunmet⟩
    rw [hholds] at hunmet
    cases hunmet
  | false =>
    simp only [Bool.false_eq_true, if_false, edits_singleton h, List.mem_singleton, Prod.mk.injEq]
    constructor
    · rintro ⟨rfl, rfl⟩
      exact ⟨t, ⟨rfl, rfl⟩, rfl, hholds⟩
    · rintro ⟨t', ⟨rfl, rfl⟩, rfl, -⟩
      exact ⟨rfl, rfl⟩

end EditsUnmet

section

variable {tracks : List Track} {target : TrackTarget}

theorem setDefaultAction_makes (target : TrackTarget) (detail : String) (t : Track) :
    (setDefaultAction target t detail).makes t (.default true) := ⟨rfl, rfl⟩

theorem clearDefaultAction_makes (target : TrackTarget) (detail : String) (t : Track) :
    (clearDefaultAction target t detail).makes t (.default false) := ⟨rfl, rfl⟩

theorem defaultsNone_edits (target : TrackTarget) (tracks : List Track) :
    EditsUnmet (defaultsNone target tracks) (tracks.map (·, .default false)) := by
  have h := EditsUnmet.map tracks (fun _ => true) (clearDefaultAction_makes target "")
  simpa [defaultsNone, TrackEdit.holds] using h

theorem defaultsAll_edits (target : TrackTarget) (tracks : List Track) :
    EditsUnmet (defaultsAll target tracks) (tracks.map (·, .default true)) := by
  have h := EditsUnmet.map tracks (fun _ => true) (setDefaultAction_makes target "")
  simpa [defaultsAll, TrackEdit.holds] using h

theorem defaultsFirst_edits (hdistinct : (tracks.map (·.index)).Nodup) :
    EditsUnmet (defaultsFirst target tracks)
      (tracks.map fun t => (t, .default (wantsDefault .first tracks t))) := by
  cases tracks with
  | nil => exact EditsUnmet.none (by simp [defaultsFirst])
  | cons first rest =>
    have hfirst := EditsUnmet.single (setDefaultAction_makes target "" first)
    have hrest := defaultsNone_edits target rest
    have hwants : rest.map (fun t => (t, TrackEdit.default (wantsDefault .first (first :: rest) t))) =
        rest.map (·, .default false) := by
      apply List.map_congr_left
      intro t ht
      have hne : first.index ≠ t.index := by
        intro heq
        rw [List.map_cons, List.nodup_cons] at hdistinct
        exact hdistinct.1 (heq ▸ List.mem_map_of_mem ht)
      simp [wantsDefault, hne]
    have hboth := hfirst.append hrest
    rw [List.map_cons, hwants]
    simpa [defaultsFirst, defaultsNone, TrackEdit.holds, wantsDefault] using hboth

/-- The recursion over the tracks, with the languages seen before them. -/
theorem defaultsFirstPerLanguage_edits (hdistinct : (tracks.map (·.index)).Nodup)
    (seen : List String) :
    EditsUnmet (defaultsFirstPerLanguage target tracks seen)
      (tracks.map fun t =>
        (t, .default (!seen.contains t.language && wantsDefault .firstPerLanguage tracks t))) := by
  induction tracks generalizing seen with
  | nil => exact EditsUnmet.none (by simp [defaultsFirstPerLanguage])
  | cons track rest ih =>
    rw [List.map_cons, List.nodup_cons] at hdistinct
    have hrest := ih hdistinct.2 (track.language :: seen)
    have hwants : rest.map (fun t => (t, TrackEdit.default
          (!seen.contains t.language && wantsDefault .firstPerLanguage (track :: rest) t))) =
        rest.map (fun t => (t, TrackEdit.default
          (!(track.language :: seen).contains t.language &&
            wantsDefault .firstPerLanguage rest t))) := by
      apply List.map_congr_left
      intro t ht
      have hne : track.index ≠ t.index := fun heq =>
        hdistinct.1 (heq ▸ List.mem_map_of_mem ht)
      by_cases hlanguage : track.language = t.language
      · -- the language has been seen, at the track before
        simp [wantsDefault, hlanguage, hne]
      · have hlanguage' : ¬ t.language = track.language := fun h => hlanguage h.symm
        simp [wantsDefault, hlanguage, hlanguage']
    have hown : EditsUnmet
        (if !seen.contains track.language && !track.isDefault then
          [setDefaultAction target track s!" (first for lang '{track.language}')"]
        else if !!seen.contains track.language && track.isDefault then
          [clearDefaultAction target track s!" (not first for lang '{track.language}')"]
        else [])
        [(track, .default (!seen.contains track.language))] := by
      cases seen.contains track.language with
      | true =>
        have h := EditsUnmet.single (clearDefaultAction_makes target
          s!" (not first for lang '{track.language}')" track)
        cases hdefault : track.isDefault <;> simpa [TrackEdit.holds, hdefault] using h
      | false =>
        have h := EditsUnmet.single (setDefaultAction_makes target
          s!" (first for lang '{track.language}')" track)
        cases hdefault : track.isDefault <;> simpa [TrackEdit.holds, hdefault] using h
    have hboth := hown.append hrest
    rw [List.map_cons, hwants, defaultsFirstPerLanguage]
    simpa [wantsDefault] using hboth

end

section

variable {env : EvalEnv} {file : MediaFile} {ctx : EvalContext}

/-- The tracks of a target, by their type. -/
def inTarget : TrackTarget → TrackType → Bool
  | .video, type => type = .video
  | .audio, type => type.isAudio
  | .subtitle, type => type.isSubtitle
  | .attachment, type => type = .attachment
  | .any, _ => true

theorem tracksForTarget_eq (file : MediaFile) (target : TrackTarget) :
    tracksForTarget file target = file.tracks.filter (inTarget target ·.trackType) := by
  cases target with
  | any => simp [tracksForTarget, inTarget]
  | _ => rfl

theorem tracksForTarget_distinct (hdistinct : (file.tracks.map (·.index)).Nodup)
    (target : TrackTarget) : ((tracksForTarget file target).map (·.index)).Nodup := by
  rw [tracksForTarget_eq]
  exact hdistinct.sublist (List.filter_sublist.map _)

theorem defaultActions_edits (hdistinct : (file.tracks.map (·.index)).Nodup)
    (default : CompiledDefault) :
    EditsUnmet (defaultActions file default) (entryWishes file default) := by
  have htracks := tracksForTarget_distinct hdistinct default.target
  unfold defaultActions entryWishes
  cases default.strategy with
  | none => exact defaultsNone_edits _ _
  | all => exact defaultsAll_edits _ _
  | first => exact defaultsFirst_edits htracks
  | firstPerLanguage => simpa using defaultsFirstPerLanguage_edits htracks []

theorem clearActions_edits (target : TrackTarget) (settings : ClearActionsSettings) :
    EditsUnmet (ownPlans env file ctx (.clearActions target settings))
      (ownWishes file (.clearActions target settings)) := by
  unfold ownPlans ownWishes
  apply EditsUnmet.flatMap
  intro t _
  have hdefault := EditsUnmet.single (clearDefaultAction_makes target "" t)
  have hforced := EditsUnmet.single
    (show (clearForcedAction target t).makes t (.forced false) from ⟨rfl, rfl⟩)
  have htitle := EditsUnmet.single
    (show (clearTitleAction target t).makes t (.title "") from ⟨rfl, rfl⟩)
  have hnone : EditsUnmet [] [] := EditsUnmet.none (by simp)
  obtain ⟨clearDefault, clearForced, clearTitles⟩ := settings
  simp only [clearEdits, List.map_append]
  refine EditsUnmet.append (EditsUnmet.append ?_ ?_) ?_
  · cases clearDefault with
    | false => simpa using hnone
    | true => cases h : t.isDefault <;> simpa [TrackEdit.holds, h] using hdefault
  · cases clearForced with
    | false => simpa using hnone
    | true => cases h : t.isForced <;> simpa [TrackEdit.holds, h] using hforced
  · cases clearTitles with
    | false => simpa using hnone
    | true => by_cases h : t.title = "" <;> simpa [TrackEdit.holds, h] using htitle

theorem trackEdit_eq_none {a : PlannedAction}
    (h : a.operation ∉ [OperationType.setDefault, .clearDefault, .setForced, .clearForced, .setTitle,
      .setLanguage]) : a.trackEdit = none := by
  obtain ⟨operation, trackIndex, parameters, description, checked⟩ := a
  cases operation <;> simp_all [PlannedAction.trackEdit]

theorem granted_trackEdit {r : RemovalRequest} {a : PlannedAction} (h : a ∈ r.granted file) :
    a.trackEdit = none := by
  apply trackEdit_eq_none
  rw [operation_of_mem_granted h]
  decide

theorem actionPlans_edits (action : CompiledAction) :
    EditsUnmet (actionPlans env file ctx action) (actionWishes env file ctx action) := by
  cases action with
  | keep target filter => exact EditsUnmet.none fun a ha => granted_trackEdit ha
  | remove target filter => exact EditsUnmet.none fun a ha => granted_trackEdit ha
  | skip phase => exact EditsUnmet.none (by simp [actionPlans])
  | warn message => exact EditsUnmet.none (by simp [actionPlans])
  | fail message => exact EditsUnmet.none (by simp [actionPlans])
  | setDefault target filter =>
    have h := EditsUnmet.map (tracksForTarget file target) (filterMatches env file ctx filter)
      (show ∀ t, (flagAction target .default t).makes t (.default true) from fun _ => ⟨rfl, rfl⟩)
    simpa [actionPlans, actionWishes, flagActions, TrackEdit.holds, FlagKind.isSet] using h
  | setForced target filter =>
    have h := EditsUnmet.map (tracksForTarget file target) (filterMatches env file ctx filter)
      (show ∀ t, (flagAction target .forced t).makes t (.forced true) from fun _ => ⟨rfl, rfl⟩)
    simpa [actionPlans, actionWishes, flagActions, TrackEdit.holds, FlagKind.isSet] using h
  | setLanguage target filter value =>
    apply EditsUnmet.flatMap
    intro lang _
    have h := EditsUnmet.map (tracksForTarget file target) (filterMatches env file ctx filter)
      (show ∀ t, (setLanguageAction target lang t).makes t (.language lang) from
        fun _ => ⟨rfl, rfl⟩)
    simpa [languageActions, TrackEdit.holds] using h
  | setTag tag value =>
    apply EditsUnmet.none
    intro a ha
    obtain ⟨val, -, rfl⟩ := List.mem_map.mp ha
    rfl

theorem ownPlans_edits (hdistinct : (file.tracks.map (·.index)).Nodup) (op : CompiledOperation) :
    EditsUnmet (ownPlans env file ctx op) (ownWishes file op) := by
  cases op with
  | setDefaults defaults =>
    apply EditsUnmet.flatMap
    intro default _
    exact defaultActions_edits hdistinct default
  | clearActions target settings => exact clearActions_edits target settings
  | transcode target codec settings =>
    apply EditsUnmet.none
    intro a ha
    have hkind := operation_of_mem_ownPlans ha
    apply trackEdit_eq_none
    cases target <;> simp_all [ownKinds]
  | _ =>
    apply EditsUnmet.none
    intro a ha
    have hkind := operation_of_mem_ownPlans ha
    apply trackEdit_eq_none
    simp_all [ownKinds]

/-- An operation plans the edits it wishes for, where they do not hold yet. -/
theorem operationPlans_edits (hdistinct : (file.tracks.map (·.index)).Nodup)
    (op : CompiledOperation) :
    EditsUnmet (operationPlans env file ctx op) (operationWishes env file ctx op) :=
  (EditsUnmet.flatMap fun action _ => actionPlans_edits action).append (ownPlans_edits hdistinct op)

end

end Voom.Evaluator
