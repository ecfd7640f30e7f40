-- SUMMARY: What the actions of a plan mean for the file: tracks dropped, flags, texts, tags and container set.
import Voom.Domain.Plan

/-!
# Carrying out actions

The meaning of an action on the description of a file, as the policies intend it. Actions that
re-encode, synthesise, mux, reorder or verify leave the flags, texts, tags and container as
they are.
-/

namespace Voom

/-! ## Edits of a track -/

/-- A flag or a text of a track, as it should be. -/
inductive TrackEdit where
  | default (on : Bool)
  | forced (on : Bool)
  | title (text : String)
  | language (text : String)
  deriving DecidableEq, Repr

namespace TrackEdit

def holds (t : Track) : TrackEdit → Bool
  | .default on => t.isDefault = on
  | .forced on => t.isForced = on
  | .title text => t.title = text
  | .language text => t.language = text

/-- The track with the edit made. -/
def make (t : Track) : TrackEdit → Track
  | .default on => { t with isDefault := on }
  | .forced on => { t with isForced := on }
  | .title text => { t with title := text }
  | .language text => { t with language := text }

/-- No track can have both. -/
def conflicts : TrackEdit → TrackEdit → Bool
  | .default a, .default b | .forced a, .forced b => a ≠ b
  | .title a, .title b | .language a, .language b => a ≠ b
  | _, _ => false

@[simp] theorem holds_make (t : Track) (e : TrackEdit) : e.holds (e.make t) = true := by
  cases e <;> simp [holds, make]

theorem holds_make_of_holds {t : Track} {e e' : TrackEdit} (hfree : e.conflicts e' = false)
    (h : e'.holds t = true) : e'.holds (e.make t) = true := by
  cases e <;> cases e' <;> simp_all [holds, make, conflicts]

@[simp] theorem make_index (t : Track) (e : TrackEdit) : (e.make t).index = t.index := by
  cases e <;> rfl

@[simp] theorem make_trackType (t : Track) (e : TrackEdit) :
    (e.make t).trackType = t.trackType := by
  cases e <;> rfl

end TrackEdit

/-! ## Actions -/

namespace PlannedAction

/-- The edit an action makes to its track. -/
def trackEdit (a : PlannedAction) : Option TrackEdit :=
  match a.operation, a.parameters with
  | .setDefault, _ => some (.default true)
  | .clearDefault, _ => some (.default false)
  | .setForced, _ => some (.forced true)
  | .clearForced, _ => some (.forced false)
  | .setTitle, .title title => some (.title title)
  | .setLanguage, .language language => some (.language language)
  | _, _ => none

/-- The action makes the edit to the track. -/
def makes (a : PlannedAction) (t : Track) (e : TrackEdit) : Prop :=
  a.trackIndex = some t.index ∧ a.trackEdit = some e

/-- The action carried out on a track that stays. -/
def onTrack (a : PlannedAction) (t : Track) : Track :=
  if a.trackIndex = some t.index then a.trackEdit.elim t (TrackEdit.make t) else t

/-- The action drops the track. -/
def drops (a : PlannedAction) (t : Track) : Bool :=
  a.operation = .removeTrack && a.trackIndex = some t.index

def onTracks (a : PlannedAction) (tracks : List Track) : List Track :=
  (tracks.filter fun t => !a.drops t).map a.onTrack

def onContainer (a : PlannedAction) (container : Container) : Container :=
  match a.operation, a.parameters with
  | .convertContainer, .container target => target
  | _, _ => container

def onTags (a : PlannedAction) (tags : List (String × String)) : List (String × String) :=
  match a.operation, a.parameters with
  | .setContainerTag, .setTag tag value => (tag, value) :: tags.filter (·.1 ≠ tag)
  | .clearContainerTags, _ => []
  | .deleteContainerTag, .deleteTag tag => tags.filter (·.1 ≠ tag)
  | _, _ => tags

def apply (a : PlannedAction) (file : MediaFile) : MediaFile :=
  { file with
    tracks := a.onTracks file.tracks
    container := a.onContainer file.container
    tags := a.onTags file.tags }

theorem makes_congr {a : PlannedAction} {t t' : Track} {e : TrackEdit} (h : t.index = t'.index) :
    a.makes t e ↔ a.makes t' e := by
  simp [makes, h]

/-- An action either edits the track or leaves it. -/
theorem onTrack_cases (a : PlannedAction) (t : Track) :
    (∃ e, a.makes t e ∧ a.onTrack t = e.make t) ∨ (∀ e, ¬ a.makes t e) ∧ a.onTrack t = t := by
  unfold onTrack makes
  by_cases hindex : a.trackIndex = some t.index
  · cases hedit : a.trackEdit with
    | none => exact Or.inr ⟨by simp, by simp⟩
    | some e => exact Or.inl ⟨e, ⟨hindex, rfl⟩, by simp [hindex]⟩
  · exact Or.inr ⟨by simp [hindex], by simp [hindex]⟩

@[simp] theorem onTrack_index (a : PlannedAction) (t : Track) : (a.onTrack t).index = t.index := by
  obtain ⟨e, -, heq⟩ | ⟨-, heq⟩ := a.onTrack_cases t <;> simp [heq]

@[simp] theorem onTrack_trackType (a : PlannedAction) (t : Track) :
    (a.onTrack t).trackType = t.trackType := by
  obtain ⟨e, -, heq⟩ | ⟨-, heq⟩ := a.onTrack_cases t <;> simp [heq]

theorem drops_congr (a : PlannedAction) {t t' : Track} (h : t.index = t'.index) :
    a.drops t = a.drops t' := by
  simp [drops, h]

/-! ## Many actions -/

/-- A track after actions that do not drop it. -/
def editAll (actions : List PlannedAction) (t : Track) : Track :=
  actions.foldl (fun t a => a.onTrack t) t

def applyAll (actions : List PlannedAction) (file : MediaFile) : MediaFile :=
  actions.foldl (fun file a => a.apply file) file

@[simp] theorem editAll_nil (t : Track) : editAll [] t = t := rfl

@[simp] theorem editAll_cons (a : PlannedAction) (rest : List PlannedAction) (t : Track) :
    editAll (a :: rest) t = editAll rest (a.onTrack t) := rfl

@[simp] theorem editAll_index (actions : List PlannedAction) (t : Track) :
    (editAll actions t).index = t.index := by
  induction actions generalizing t with
  | nil => rfl
  | cons a rest ih => simp [ih]

@[simp] theorem editAll_trackType (actions : List PlannedAction) (t : Track) :
    (editAll actions t).trackType = t.trackType := by
  induction actions generalizing t with
  | nil => rfl
  | cons a rest ih => simp [ih]

/-- An edit that was made or held before holds after the actions, if none of them conflicts
with it. -/
theorem holds_editAll {actions : List PlannedAction} {t : Track} {e : TrackEdit}
    (hfree : ∀ a ∈ actions, ∀ e', a.makes t e' → e'.conflicts e = false)
    (h : e.holds t = true ∨ ∃ a ∈ actions, a.makes t e) :
    e.holds (editAll actions t) = true := by
  induction actions generalizing t with
  | nil => simpa using h
  | cons a rest ih =>
    rw [List.forall_mem_cons] at hfree
    rw [editAll_cons]
    have hcongr (b : PlannedAction) (e' : TrackEdit) :
        b.makes (a.onTrack t) e' ↔ b.makes t e' := makes_congr (onTrack_index a t)
    apply ih
    · intro b hb e' he'
      exact hfree.2 b hb e' ((hcongr b e').mp he')
    · simp only [List.exists_mem_cons_iff] at h
      simp only [hcongr]
      obtain ⟨e', he', heq⟩ | ⟨hnone, heq⟩ := a.onTrack_cases t
      · rw [heq]
        rcases h with hholds | hmakes | hlater
        · exact Or.inl (TrackEdit.holds_make_of_holds (hfree.1 e' he') hholds)
        · obtain rfl : e' = e := Option.some.inj (he'.2.symm.trans hmakes.2)
          exact Or.inl (TrackEdit.holds_make t e')
        · exact Or.inr hlater
      · rw [heq]
        rcases h with hholds | hmakes | hlater
        · exact Or.inl hholds
        · exact absurd hmakes (hnone e)
        · exact Or.inr hlater

/-- Actions without an edit can be left out. -/
theorem editAll_filter {actions : List PlannedAction} {keep : PlannedAction → Bool}
    (h : ∀ a ∈ actions, keep a = false → a.trackEdit = none) (t : Track) :
    editAll (actions.filter keep) t = editAll actions t := by
  induction actions generalizing t with
  | nil => rfl
  | cons a rest ih =>
    rw [List.forall_mem_cons] at h
    cases hkeep : keep a with
    | true => simp [hkeep, ih h.2]
    | false =>
      have honTrack : a.onTrack t = t := by
        simp [onTrack, h.1 hkeep]
      simp [hkeep, ih h.2, honTrack]

/-- The tracks left are those no action drops, each with all its edits. -/
theorem foldl_onTracks (actions : List PlannedAction) (tracks : List Track) :
    actions.foldl (fun tracks a => a.onTracks tracks) tracks =
      (tracks.filter fun t => !actions.any (·.drops t)).map (editAll actions) := by
  induction actions generalizing tracks with
  | nil => simp [show editAll ([] : List PlannedAction) = id from rfl]
  | cons a rest ih =>
    have hfilter : (fun t => !rest.any (·.drops t)) ∘ a.onTrack = fun t => !rest.any (·.drops t) := by
      funext t
      simp only [Function.comp_apply]
      congr 2
      funext b
      exact drops_congr b (onTrack_index a t)
    have hedit : editAll (a :: rest) = editAll rest ∘ a.onTrack := rfl
    rw [List.foldl_cons, ih, onTracks, List.filter_map, hfilter, List.map_map, List.filter_filter,
      hedit]
    congr 2
    funext t
    simp [Bool.and_comm]

theorem applyAll_eq (actions : List PlannedAction) (file : MediaFile) :
    applyAll actions file =
      { file with
        tracks := (file.tracks.filter fun t => !actions.any (·.drops t)).map (editAll actions)
        container := actions.foldl (fun c a => a.onContainer c) file.container
        tags := actions.foldl (fun tags a => a.onTags tags) file.tags } := by
  rw [← foldl_onTracks]
  unfold applyAll
  induction actions generalizing file with
  | nil => rfl
  | cons a rest ih => simp only [List.foldl_cons, ih]; rfl

end PlannedAction

namespace Plan

/-- The file as the plan leaves it. -/
def applyTo (plan : Plan) (file : MediaFile) : MediaFile := PlannedAction.applyAll plan.actions file

end Plan

end Voom
