-- SUMMARY: What an execution of the MKVToolNix executor carries out, by the states of its runs.
import Voom.Executors.Mkvtoolnix
import Voom.Lib.Outcome

/-!
# Carrying out a plan

An execution is made of parts, one for each run of a tool. From the outcome of a run its
state can be told, and from the states of the runs what the execution reports and what it
has carried out (`executePlan_complete_iff`).
-/

namespace Voom.Executors

/-! ## Actions that were carried out -/

namespace Mkvtoolnix

/-- The option of mkvmerge that leaves out tracks of the type; there is none for attachments. -/
def removalOption (trackType : TrackType) : Option String :=
  if trackType.isVideo then some "--video-tracks"
  else if trackType.isAudio then some "--audio-tracks"
  else if trackType.isSubtitle then some "--subtitle-tracks"
  else none

/-- The arguments ask mkvpropedit for the action. -/
def AskedToEdit (args : List String) (action : PlannedAction) : Prop :=
  ∃ request, propeditArgs action = .ok request ∧ request ≠ [] ∧ request <:+: args

/-- Whether the segment information holds the tag after the action. -/
def holdsTag (tag : String) (held : Bool) (action : PlannedAction) : Bool :=
  match action.parameters with
  | .setTag t _ => held || (t = tag && isSegmentInfoProperty t)
  | .deleteTag t => held && !(t = tag && isSegmentInfoProperty t)
  | _ => held

/-- The tags that the action lists are gone. `--tags all:` leaves the segment information as it
is: what that still holds is deleted before, or a later action says what becomes of it. -/
def Clears (segmentInfo : List String) (actions : List PlannedAction) (action : PlannedAction) :
    Prop :=
  match action.parameters with
  | .clearTags tags =>
    ∀ before after, actions = before ++ action :: after → ∀ tag ∈ tags,
      before.foldl (holdsTag tag) (decide (tag ∈ segmentInfo)) = true →
        ∃ other ∈ after, holdsTag tag true other = false ∨ holdsTag tag false other = true
  | _ => True

/-- The arguments ask mkvmerge for the action. Its output is always an MKV file. -/
def AskedToMerge (args : List String) (action : PlannedAction) : Prop :=
  match action.parameters with
  | .removeTrack _ trackType =>
    ∃ option, removalOption trackType = some option ∧
      ∃ ids idx, action.trackIndex = some idx ∧ idx ∈ ids ∧ removalArgs option ids <:+: args
  | .reorderTracks order =>
    order ≠ [] ∧ (∀ v ∈ order, (parseUnsigned 64 v).isSome = true) ∧
      ["--track-order", ",".intercalate (trackOrder order)] <:+: args
  | .container container => container = .mkv
  | _ => False

/-- The deed carries out the action. -/
def Deed.Does (action : PlannedAction) : Deed → Prop
  | .edited args actions segmentInfo =>
    action ∈ actions ∧ AskedToEdit args action ∧ Clears segmentInfo actions action
  | .merged args actions => action ∈ actions ∧ AskedToMerge args action
  | .muxed done => done = action

end Mkvtoolnix

/-! ## The state of a run, as far as its outcome tells -/

/-- A run that ends the execution, one that is reported as a failed action, and one that
took effect. -/
inductive RunState where
  | aborted | failed | done
  deriving DecidableEq, Repr

namespace Mkvtoolnix

/-- Moving the new file into place. -/
def placed (storage : Option (Except String Unit)) (session : Option Uuid) (dest : Path)
    (rename : Except String Unit) : Bool :=
  (recordMutationForPendingWrite storage session dest).isOk && rename.isOk

def editState (env : Env) (path : Path) (actions : List PlannedAction) : RunState :=
  match buildPropeditArgs path actions, env.propedit with
  | .ok _, .ok output => if output.success then .done else .aborted
  | _, _ => .aborted

def mergeState (env : Env) (path : Path) (session : Option Uuid) (actions : List PlannedAction) :
    RunState :=
  match env.stillExists, env.merge.outcome with
  | true, .ok output =>
    if mergeSucceeded output then
      if placed env.storage session (determineFinalPath path actions) env.merge.rename then .done
      else .aborted
    else .failed
  | _, _ => .aborted

def muxState (env : Env) (plan : Plan) (i : Nat) (action : PlannedAction) : RunState :=
  match action.parameters, (env.mux i).outcome with
  | .muxSubtitle _ language _ _, .ok output =>
    if !isValidLanguage language then .aborted
    else if muxSucceeded output then
      if placed env.storage plan.scanSession plan.file.path (env.mux i).rename then .done
      else .aborted
    else .failed
  | _, _ => .aborted

/-! ## Parts of an execution -/

/-- A part of an execution in a state, with the deed it leaves when it is done. -/
def IsPart (e : Execution) (deed : Deed) : RunState → Prop
  | .aborted => ∃ error, e.result = .error error
  | .failed => e.deeds = [] ∧ ∃ r, e.result = .ok [r] ∧ r.success = false
  | .done =>
    e.deeds = [deed] ∧ ∃ rs, e.result = .ok rs ∧ rs ≠ [] ∧ ∀ r ∈ rs, r.success = true

def editDeed (env : Env) (path : Path) (actions : List PlannedAction) : Deed :=
  .edited ((buildPropeditArgs path actions).toOption.getD []) actions env.segmentInfo

def mergeDeed (env : Env) (path : Path) (actions : List PlannedAction) : Deed :=
  .merged (buildMergeArgs path (tempPathWithExt path env.merge.tempId "mkv") actions) actions

theorem editPart {env : Env} {path : Path} {actions : List PlannedAction} (hne : actions ≠ []) :
    IsPart (executePropeditActions env path actions) (editDeed env path actions)
      (editState env path actions) := by
  unfold executePropeditActions editState editDeed
  rw [if_neg hne]
  cases hargs : buildPropeditArgs path actions with
  | error e => exact ⟨e, rfl⟩
  | ok args =>
    cases env.propedit with
    | error e => exact ⟨e, rfl⟩
    | ok output =>
      dsimp only
      split
      · refine ⟨rfl, _, rfl, by simpa using hne, ?_⟩
        simp
      · exact ⟨_, rfl⟩

theorem mergePart {env : Env} {path : Path} {session : Option Uuid} {actions : List PlannedAction}
    (hne : actions ≠ []) :
    IsPart (executeMergeActions env path session actions) (mergeDeed env path actions)
      (mergeState env path session actions) := by
  unfold executeMergeActions mergeState mergeDeed
  cases actions with
  | nil => exact absurd rfl hne
  | cons first rest =>
    cases env.stillExists with
    | false => exact ⟨_, rfl⟩
    | true =>
      cases env.merge.outcome with
      | error e => exact ⟨_, rfl⟩
      | ok output =>
        by_cases hcode : mergeSucceeded output = true
        · cases hrecord : recordMutationForPendingWrite env.storage session
            (determineFinalPath path (first :: rest)) with
          | error e => simp [hcode, hrecord, placed, IsPart, Except.isOk, Except.toBool]
          | ok u =>
            cases hrename : env.merge.rename with
            | error e => simp [hcode, hrecord, placed, IsPart, Except.isOk, Except.toBool]
            | ok u => simp [hcode, hrecord, placed, IsPart, Except.isOk, Except.toBool]
        · simp [hcode, IsPart]

theorem muxPart (env : Env) (plan : Plan) (i : Nat) (action : PlannedAction) :
    IsPart (executeMuxSubtitle env.storage (env.mux i) plan action) (.muxed action)
      (muxState env plan i action) := by
  unfold executeMuxSubtitle muxState
  cases action.parameters with
  | muxSubtitle subtitlePath language forced title =>
    cases houtcome : (env.mux i).outcome with
    | error e =>
      by_cases hlanguage : isValidLanguage language = true
      · simp [hlanguage, IsPart]
      · simp [hlanguage, IsPart]
    | ok output =>
      by_cases hlanguage : isValidLanguage language = true
      · by_cases hcode : muxSucceeded output = true
        · cases hrecord :
            recordMutationForPendingWrite env.storage plan.scanSession plan.file.path with
          | error e => simp [hlanguage, hcode, hrecord, placed, IsPart, Except.isOk, Except.toBool]
          | ok u =>
            cases hrename : (env.mux i).rename with
            | error e => simp [hlanguage, hcode, hrecord, placed, IsPart, Except.isOk, Except.toBool]
            | ok u => simp [hlanguage, hcode, placed, hrecord, IsPart, Except.isOk, Except.toBool]
        · simp [hlanguage, hcode, IsPart]
      · simp [hlanguage, IsPart]
  | _ => exact ⟨_, rfl⟩

/-- An execution made of parts, one after the other. -/
inductive Parts : Execution → List (Deed × RunState) → Prop
  | nil : Parts { result := .ok [] } []
  | cons {e e' : Execution} {deed : Deed} {state : RunState} {parts : List (Deed × RunState)} :
    IsPart e deed state → Parts e' parts → Parts (e.andThen e') ((deed, state) :: parts)

theorem Execution.nil_andThen (e : Execution) : Execution.andThen { result := .ok [] } e = e := by
  obtain ⟨result, deeds⟩ := e
  cases result with
  | error error => rfl
  | ok results => rfl

theorem Execution.andThen_nil (e : Execution) : e.andThen { result := .ok [] } = e := by
  obtain ⟨result, deeds⟩ := e
  cases result with
  | error error => rfl
  | ok results => simp [Execution.andThen, Except.map]

theorem Parts.single {e : Execution} {deed : Deed} {state : RunState} (h : IsPart e deed state) :
    Parts e [(deed, state)] := by
  rw [← e.andThen_nil]
  exact .cons h .nil

/-- The execution fails if a part aborts it, and otherwise reports a result for every part. -/
theorem Parts.result {e : Execution} {parts : List (Deed × RunState)} (h : Parts e parts) :
    (.aborted ∈ parts.map Prod.snd → ∃ error, e.result = .error error) ∧
      (.aborted ∉ parts.map Prod.snd →
        ∃ rs, e.result = .ok rs ∧ (rs = [] ↔ parts = []) ∧
          ((∃ r ∈ rs, r.success = true) ↔ .done ∈ parts.map Prod.snd) ∧
          ∀ deed, deed ∈ e.deeds ↔ (deed, .done) ∈ parts) := by
  induction h with
  | nil => simp
  | @cons e e' deed state parts hpart _ ih =>
    obtain ⟨ihAborted, ihOk⟩ := ih
    cases state with
    | aborted =>
      obtain ⟨error, herror⟩ := hpart
      simp [Execution.andThen, herror]
    | failed =>
      obtain ⟨hdeeds, r, hr, hfailed⟩ := hpart
      simp only [Execution.andThen, hr, hdeeds, List.map_cons, List.mem_cons, reduceCtorEq, false_or,
        List.nil_append, Prod.mk.injEq, and_false]
      refine ⟨fun h => ?_, fun h => ?_⟩
      · obtain ⟨error, herror⟩ := ihAborted h
        exact ⟨error, by simp only [herror, Except.map]⟩
      · obtain ⟨rs, hrs, -, hsuccess, hmem⟩ := ihOk h
        refine ⟨r :: rs, by simp only [hrs, Except.map, List.singleton_append], by simp, ?_, hmem⟩
        rw [List.exists_mem_cons_iff, hfailed, hsuccess]
        simp
    | done =>
      obtain ⟨hdeeds, rs₀, hrs₀, hne, hall⟩ := hpart
      simp only [Execution.andThen, hrs₀, hdeeds, List.map_cons, List.mem_cons, reduceCtorEq,
        false_or, true_or, iff_true, List.singleton_append, Prod.mk.injEq, and_true]
      refine ⟨fun h => ?_, fun h => ?_⟩
      · obtain ⟨error, herror⟩ := ihAborted h
        exact ⟨error, by simp only [herror, Except.map]⟩
      · obtain ⟨rs, hrs, -, -, hmem⟩ := ihOk h
        refine ⟨rs₀ ++ rs, by simp only [hrs, Except.map], by simp [hne], ?_, fun d => ?_⟩
        · obtain ⟨r, hr⟩ := List.exists_mem_of_ne_nil _ hne
          exact ⟨r, List.mem_append_left _ hr, hall r hr⟩
        · rw [hmem d]

/-! ## The parts of a plan -/

def muxes (plan : Plan) : List PlannedAction := plan.actions.filter (·.operation = .muxSubtitle)

def edits (plan : Plan) : List PlannedAction := (classifyActions plan.actions).1

def merges (plan : Plan) : List PlannedAction := (classifyActions plan.actions).2

/-- The path that metadata is edited under. -/
def editPath (plan : Plan) : Path :=
  if plan.file.container = .mkv ∨ merges plan = [] then plan.file.path
  else plan.file.path.withExtension "mkv"

/-- The run of mkvpropedit, if there is anything to edit. -/
def editRuns (env : Env) (plan : Plan) : List (Deed × RunState) :=
  if edits plan = [] then []
  else [(editDeed env (editPath plan) (edits plan), editState env (editPath plan) (edits plan))]

/-- The run of mkvmerge, if there is anything to merge. -/
def mergeRuns (env : Env) (plan : Plan) : List (Deed × RunState) :=
  if merges plan = [] then []
  else [(mergeDeed env plan.file.path (merges plan),
    mergeState env plan.file.path plan.scanSession (merges plan))]

/-- The runs that a plan takes. -/
def runs (env : Env) (plan : Plan) : List (Deed × RunState) :=
  if plan.actions.any (·.operation = .muxSubtitle) then
    (muxes plan).zipIdx.map fun p => (.muxed p.1, muxState env plan p.2 p.1)
  else if plan.file.container = .mkv ∨ merges plan = [] then editRuns env plan ++ mergeRuns env plan
  else mergeRuns env plan ++ editRuns env plan

theorem muxParts (env : Env) (plan : Plan) (actions : List PlannedAction) (i : Nat) :
    Parts (executeMuxes env plan actions i)
      ((actions.zipIdx i).map fun p => (.muxed p.1, muxState env plan p.2 p.1)) := by
  induction actions generalizing i with
  | nil => exact .nil
  | cons action rest ih => exact .cons (muxPart env plan i action) (ih (i + 1))

theorem Parts.edit_merge {e e' : Execution} {parts parts' : List (Deed × RunState)}
    (h : e = { result := .ok [] } ∧ parts = [] ∨
      ∃ deed state, IsPart e deed state ∧ parts = [(deed, state)])
    (h' : Parts e' parts') : Parts (e.andThen e') (parts ++ parts') := by
  obtain ⟨rfl, rfl⟩ | ⟨deed, state, hpart, rfl⟩ := h
  · rw [Execution.nil_andThen]
    exact h'
  · exact .cons hpart h'

theorem editRuns_part (env : Env) (plan : Plan) :
    executePropeditActions env (editPath plan) (edits plan) = { result := .ok [] } ∧
        editRuns env plan = [] ∨
      ∃ deed state, IsPart (executePropeditActions env (editPath plan) (edits plan)) deed state ∧
        editRuns env plan = [(deed, state)] := by
  unfold editRuns
  split
  · rename_i hnil
    exact .inl ⟨by rw [hnil]; rfl, rfl⟩
  · rename_i hne
    exact .inr ⟨_, _, editPart hne, rfl⟩

theorem mergeRuns_part (env : Env) (plan : Plan) :
    executeMergeActions env plan.file.path plan.scanSession (merges plan) = { result := .ok [] } ∧
        mergeRuns env plan = [] ∨
      ∃ deed state, IsPart (executeMergeActions env plan.file.path plan.scanSession (merges plan))
          deed state ∧
        mergeRuns env plan = [(deed, state)] := by
  unfold mergeRuns
  split
  · rename_i hnil
    exact .inl ⟨by rw [hnil]; rfl, rfl⟩
  · rename_i hne
    exact .inr ⟨_, _, mergePart hne, rfl⟩

theorem Parts.of_part {e : Execution} {parts : List (Deed × RunState)}
    (h : e = { result := .ok [] } ∧ parts = [] ∨
      ∃ deed state, IsPart e deed state ∧ parts = [(deed, state)]) : Parts e parts := by
  obtain ⟨rfl, rfl⟩ | ⟨deed, state, hpart, rfl⟩ := h
  · exact .nil
  · exact .single hpart

theorem executePlan_parts {env : Env} {plan : Plan} (hfile : env.fileExists = true) :
    Parts (executePlan env plan) (runs env plan) := by
  unfold executePlan runs
  simp only [hfile, Bool.not_true, Bool.false_eq_true, if_false]
  split
  · exact muxParts env plan (muxes plan) 0
  · have hedit := editRuns_part env plan
    have hmerge := mergeRuns_part env plan
    by_cases hfirst : plan.file.container = .mkv ∨ merges plan = []
    · have hpath : editPath plan = plan.file.path := if_pos hfirst
      rw [hpath] at hedit
      rw [if_pos hfirst, if_pos (show _ ∨ (classifyActions plan.actions).2 = [] from hfirst)]
      exact Parts.edit_merge hedit (.of_part hmerge)
    · have hpath : editPath plan = plan.file.path.withExtension "mkv" := if_neg hfirst
      rw [hpath] at hedit
      rw [if_neg hfirst, if_neg (show ¬ (_ ∨ (classifyActions plan.actions).2 = []) from hfirst)]
      exact Parts.edit_merge hmerge (.of_part hedit)

/-! ## What the tools are asked for -/

/-- The action names something that the tools can be asked for: a track, a property of the
segment, a video, audio or subtitle track to remove, an order of track numbers, MKV. -/
def Addressed (action : PlannedAction) : Prop :=
  match action.parameters with
  | .empty | .title _ | .language _ => action.trackIndex.isSome = true
  | .setTag tag _ | .deleteTag tag => isSegmentInfoProperty tag = true
  | .clearTags _ => True
  | .removeTrack _ trackType => action.trackIndex.isSome = true ∧ trackType ≠ .attachment
  | .reorderTracks order => order ≠ [] ∧ ∀ v ∈ order, (parseUnsigned 64 v).isSome = true
  | .container container => container = .mkv
  | _ => False

theorem trackEdit_ne_nil {index : Option Nat} {setting : String} :
    trackEdit index setting ≠ [] ↔ index.isSome = true := by
  cases index with
  | none => simp [trackEdit]
  | some idx => simp [trackEdit]

theorem checkedTrackEdit_ne_nil {index : Option Nat} {key value : String} {request : List String}
    (h : checkedTrackEdit index key value = .ok request) :
    request ≠ [] ↔ index.isSome = true := by
  unfold checkedTrackEdit at h
  split at h
  · split at h
    · rw [← Except.ok.inj h, trackEdit_ne_nil]
    · cases h
  · rw [← Except.ok.inj h]
    simp

/-- An edit asks for something exactly if it is addressed. -/
theorem propeditArgs_ne_nil {action : PlannedAction} (hop : action.operation.isMetadataOp = true)
    {request : List String} (h : propeditArgs action = .ok request) :
    request ≠ [] ↔ Addressed action := by
  obtain ⟨operation, trackIndex, parameters, description, checked⟩ := action
  cases operation with
  | setDefault | clearDefault | setForced | clearForced =>
    cases parameters with
    | empty =>
      obtain rfl := Except.ok.inj h
      exact trackEdit_ne_nil
    | _ => cases checked
  | setTitle =>
    cases parameters with
    | title => exact checkedTrackEdit_ne_nil h
    | _ => cases checked
  | setLanguage =>
    cases parameters with
    | language => exact checkedTrackEdit_ne_nil h
    | _ => cases checked
  | setContainerTag =>
    cases parameters with
    | setTag tag value =>
      simp only [propeditArgs] at h
      split at h
      · rename_i htag
        obtain ⟨-, -, h⟩ := Lib.bind_eq_ok.mp h
        obtain ⟨-, -, h⟩ := Lib.bind_eq_ok.mp h
        obtain rfl := Except.ok.inj h
        simp [Addressed, htag]
      · rename_i htag
        obtain rfl := Except.ok.inj h
        simp [Addressed, htag]
    | _ => cases checked
  | clearContainerTags =>
    cases parameters with
    | clearTags tags =>
      obtain rfl := Except.ok.inj h
      simp [Addressed]
    | _ => cases checked
  | deleteContainerTag =>
    cases parameters with
    | deleteTag tag =>
      simp only [propeditArgs] at h
      split at h
      · rename_i htag
        obtain ⟨-, -, h⟩ := Lib.bind_eq_ok.mp h
        obtain rfl := Except.ok.inj h
        simp [Addressed, htag]
      · rename_i htag
        obtain rfl := Except.ok.inj h
        simp [Addressed, htag]
    | _ => cases checked
  | _ => cases hop

/-- The arguments of each action stand in the arguments of all. -/
theorem allPropeditArgs_mem {actions : List PlannedAction} {args : List String}
    (h : allPropeditArgs actions = .ok args) {action : PlannedAction} (ha : action ∈ actions) :
    ∃ request, propeditArgs action = .ok request ∧ request <:+: args := by
  induction actions generalizing args with
  | nil => cases ha
  | cons first rest ih =>
    obtain ⟨request, hrequest, h⟩ := Lib.bind_eq_ok.mp h
    obtain ⟨others, hothers, h⟩ := Lib.bind_eq_ok.mp h
    obtain rfl := Except.ok.inj h
    rcases List.mem_cons.mp ha with rfl | ha
    · exact ⟨request, hrequest, (List.prefix_append request others).isInfix⟩
    · obtain ⟨r, hr, hin⟩ := ih hothers ha
      exact ⟨r, hr, hin.trans (List.suffix_append request others).isInfix⟩

theorem askedToEdit_iff {path : Path} {actions : List PlannedAction} {args : List String}
    (h : buildPropeditArgs path actions = .ok args) {action : PlannedAction}
    (ha : action ∈ actions) (hop : action.operation.isMetadataOp = true) :
    AskedToEdit args action ↔ Addressed action := by
  cases hall : allPropeditArgs actions with
  | error e =>
    rw [buildPropeditArgs, hall] at h
    cases h
  | ok all =>
    rw [buildPropeditArgs, hall] at h
    obtain rfl := Except.ok.inj h
    obtain ⟨request, hrequest, hin⟩ := allPropeditArgs_mem hall ha
    constructor
    · rintro ⟨request', hrequest', hne, -⟩
      exact (propeditArgs_ne_nil hop hrequest').mp hne
    · intro haddressed
      refine ⟨request, hrequest, (propeditArgs_ne_nil hop hrequest).mpr haddressed, ?_⟩
      exact hin.trans (List.suffix_cons _ _).isInfix

theorem infix_flatMap {α β : Type} {f : α → List β} {a : α} {as : List α} (h : a ∈ as) :
    f a <:+: as.flatMap f := by
  obtain ⟨before, after, rfl⟩ := List.append_of_mem h
  rw [List.flatMap_append, List.flatMap_cons]
  exact ⟨before.flatMap f, after.flatMap f, by simp⟩

theorem removal_asked {inPath outPath : Path} {actions : List PlannedAction}
    {action : PlannedAction} (ha : action ∈ actions) {reason : String} {trackType : TrackType}
    (hop : action.operation = .removeTrack) (hparams : action.parameters = .removeTrack reason trackType)
    {idx : Nat} (hidx : action.trackIndex = some idx) (hattachment : trackType ≠ .attachment) :
    ∃ option, removalOption trackType = some option ∧
      ∃ ids, idx ∈ ids ∧ removalArgs option ids <:+: buildMergeArgs inPath outPath actions := by
  have hmem (inCategory : TrackType → Bool) (hin : inCategory trackType = true) :
      idx ∈ removals inCategory actions := by
    refine List.mem_filterMap.mpr ⟨action, ha, ?_⟩
    simp [hop, hparams, hidx, hin]
  have hargs (before after : List String) (option : String) (ids : List Nat) :
      removalArgs option ids <:+: before ++ removalArgs option ids ++ after := ⟨before, after, rfl⟩
  unfold removalOption
  split
  · rename_i hvideo
    refine ⟨_, rfl, removals TrackType.isVideo actions, hmem _ hvideo, ?_⟩
    simp only [buildMergeArgs, List.append_assoc]
    rw [← List.append_assoc]
    exact hargs _ _ _ _
  · split
    · rename_i haudio
      refine ⟨_, rfl, removals TrackType.isAudio actions, hmem _ haudio, ?_⟩
      simp only [buildMergeArgs, List.append_assoc]
      rw [← List.append_assoc, ← List.append_assoc]
      exact hargs _ _ _ _
    · split
      · rename_i hsubtitle
        refine ⟨_, rfl, removals TrackType.isSubtitle actions, hmem _ hsubtitle, ?_⟩
        simp only [buildMergeArgs, List.append_assoc]
        rw [← List.append_assoc, ← List.append_assoc, ← List.append_assoc]
        exact hargs _ _ _ _
      · cases trackType <;> simp_all [TrackType.isVideo, TrackType.isAudio, TrackType.isSubtitle]

theorem order_asked {inPath outPath : Path} {actions : List PlannedAction}
    {action : PlannedAction} (ha : action ∈ actions) {order : List String}
    (hop : action.operation = .reorderTracks) (hparams : action.parameters = .reorderTracks order)
    (hne : order ≠ []) (hnumbers : ∀ v ∈ order, (parseUnsigned 64 v).isSome = true) :
    ["--track-order", ",".intercalate (trackOrder order)] <:+:
      buildMergeArgs inPath outPath actions := by
  have htracks : trackOrder order ≠ [] := by
    obtain ⟨v, hv⟩ := List.exists_mem_of_ne_nil _ hne
    obtain ⟨idx, hidx⟩ := Option.isSome_iff_exists.mp (hnumbers v hv)
    intro hnil
    have hmem : idx ∈ order.filterMap (parseUnsigned 64) := List.mem_filterMap.mpr ⟨v, hv, hidx⟩
    rw [List.map_eq_nil_iff.mp hnil] at hmem
    cases hmem
  have hown : orderArgs action = ["--track-order", ",".intercalate (trackOrder order)] := by
    simp only [orderArgs, hop, hparams]
    exact if_neg htracks
  rw [← hown]
  exact (infix_flatMap ha).trans ⟨_, _, rfl⟩

theorem askedToMerge_iff {inPath outPath : Path} {actions : List PlannedAction}
    {action : PlannedAction} (ha : action ∈ actions) (hop : action.operation ∈ mergeOps) :
    AskedToMerge (buildMergeArgs inPath outPath actions) action ↔ Addressed action := by
  obtain ⟨operation, trackIndex, parameters, description, checked⟩ := action
  simp only [mergeOps, List.mem_cons, List.not_mem_nil, or_false] at hop
  rcases hop with rfl | rfl | rfl
  · cases parameters with
    | removeTrack reason trackType =>
      constructor
      · rintro ⟨option, hoption, ids, idx, hidx, -⟩
        have hidx : trackIndex = some idx := hidx
        refine ⟨by simp [hidx], ?_⟩
        rintro rfl
        cases hoption
      · rintro ⟨hidx, hattachment⟩
        obtain ⟨idx, hidx⟩ := Option.isSome_iff_exists.mp hidx
        obtain ⟨option, hoption, ids, hmem, hin⟩ := removal_asked ha rfl rfl hidx hattachment
        exact ⟨option, hoption, ids, idx, hidx, hmem, hin⟩
    | _ => cases checked
  · cases parameters with
    | reorderTracks order =>
      constructor
      · rintro ⟨hne, hnumbers, -⟩
        exact ⟨hne, hnumbers⟩
      · rintro ⟨hne, hnumbers⟩
        exact ⟨hne, hnumbers, order_asked ha rfl rfl hne hnumbers⟩
    | _ => cases checked
  · cases parameters with
    | container c => exact Iff.rfl
    | _ => cases checked

/-! ## Executions that are reported successful -/

/-- The run that the action is for is done, and the tool is asked for it; tags to clear are not
left in the segment information. A plan that muxes has no other runs. -/
def Served (env : Env) (plan : Plan) (action : PlannedAction) : Prop :=
  if plan.actions.any (·.operation = .muxSubtitle) then
    ∃ i, (muxes plan)[i]? = some action ∧ muxState env plan i action = .done
  else if action.operation.isMetadataOp then
    editState env (editPath plan) (edits plan) = .done ∧ Addressed action ∧
      Clears env.segmentInfo (edits plan) action
  else
    mergeState env plan.file.path plan.scanSession (merges plan) = .done ∧ Addressed action

/-- The states of the runs that a plan takes. -/
def states (env : Env) (plan : Plan) : List RunState := (runs env plan).map Prod.snd

/-- The execution ends in an error, no run is done, or every action is served. -/
def Complete (env : Env) (plan : Plan) : Prop :=
  env.fileExists = false ∨ .aborted ∈ states env plan ∨ .done ∉ states env plan ∨
    ∀ action ∈ plan.actions, Served env plan action

theorem mem_merges {plan : Plan} {action : PlannedAction} :
    action ∈ merges plan ↔
      action ∈ plan.actions ∧ action.operation.isMetadataOp = false ∧ action.operation ∈ mergeOps := by
  simp [merges, classifyActions]

theorem mem_edits {plan : Plan} {action : PlannedAction} :
    action ∈ edits plan ↔ action ∈ plan.actions ∧ action.operation.isMetadataOp = true := by
  simp [edits, classifyActions]

theorem edited_iff {env : Env} {plan : Plan} {action : PlannedAction} (ha : action ∈ edits plan) :
    (∃ deed, (deed, .done) ∈ editRuns env plan ∧ deed.Does action) ↔
      editState env (editPath plan) (edits plan) = .done ∧ Addressed action ∧
        Clears env.segmentInfo (edits plan) action := by
  have hne : edits plan ≠ [] := List.ne_nil_of_mem ha
  simp only [editRuns, if_neg hne, List.mem_singleton, Prod.mk.injEq]
  cases hargs : buildPropeditArgs (editPath plan) (edits plan) with
  | error e => simp [editState, hargs]
  | ok args =>
    have hasked := askedToEdit_iff hargs ha (mem_edits.mp ha).2
    constructor
    · rintro ⟨deed, ⟨rfl, hstate⟩, -, hdoes, hclears⟩
      rw [hargs] at hdoes
      exact ⟨hstate.symm, hasked.mp hdoes, hclears⟩
    · rintro ⟨hstate, haddressed, hclears⟩
      refine ⟨_, ⟨rfl, hstate.symm⟩, ha, ?_, hclears⟩
      rw [hargs]
      exact hasked.mpr haddressed

theorem merged_iff {env : Env} {plan : Plan} {action : PlannedAction}
    (ha : action ∈ merges plan) :
    (∃ deed, (deed, .done) ∈ mergeRuns env plan ∧ deed.Does action) ↔
      mergeState env plan.file.path plan.scanSession (merges plan) = .done ∧ Addressed action := by
  have hne : merges plan ≠ [] := List.ne_nil_of_mem ha
  have hasked {inPath outPath : Path} :
      AskedToMerge (buildMergeArgs inPath outPath (merges plan)) action ↔ Addressed action :=
    askedToMerge_iff ha (mem_merges.mp ha).2.2
  simp only [mergeRuns, if_neg hne, List.mem_singleton, Prod.mk.injEq]
  constructor
  · rintro ⟨deed, ⟨rfl, hstate⟩, -, hdoes⟩
    exact ⟨hstate.symm, hasked.mp hdoes⟩
  · rintro ⟨hstate, haddressed⟩
    exact ⟨_, ⟨rfl, hstate.symm⟩, ha, hasked.mpr haddressed⟩

/-- Runs of the other tool do nothing for an action. -/
theorem not_edited {env : Env} {plan : Plan} {action : PlannedAction}
    (ha : action ∉ edits plan) {deed : Deed} {state : RunState}
    (h : (deed, state) ∈ editRuns env plan) : ¬ deed.Does action := by
  unfold editRuns at h
  split at h
  · cases h
  · obtain ⟨rfl, -⟩ := Prod.mk.inj (List.mem_singleton.mp h)
    exact fun hdoes => ha hdoes.1

theorem not_merged {env : Env} {plan : Plan} {action : PlannedAction}
    (ha : action ∉ merges plan) {deed : Deed} {state : RunState}
    (h : (deed, state) ∈ mergeRuns env plan) : ¬ deed.Does action := by
  unfold mergeRuns at h
  split at h
  · cases h
  · obtain ⟨rfl, -⟩ := Prod.mk.inj (List.mem_singleton.mp h)
    exact fun hdoes => ha hdoes.1

theorem mem_runs_of_no_mux {env : Env} {plan : Plan}
    (hmux : ¬ plan.actions.any (·.operation = .muxSubtitle) = true) {p : Deed × RunState} :
    p ∈ runs env plan ↔ p ∈ editRuns env plan ∨ p ∈ mergeRuns env plan := by
  unfold runs
  rw [if_neg hmux]
  split
  · exact List.mem_append
  · rw [List.mem_append, or_comm]

theorem served_iff {env : Env} {plan : Plan} {action : PlannedAction}
    (ha : action ∈ plan.actions) (hop : isSupportedOp action.operation = true) :
    (∃ deed, (deed, .done) ∈ runs env plan ∧ deed.Does action) ↔ Served env plan action := by
  unfold Served
  split
  · rename_i hmux
    simp only [runs, if_pos hmux, List.mem_map, Prod.mk.injEq, Prod.exists,
      List.mem_zipIdx_iff_getElem?]
    constructor
    · rintro ⟨deed, ⟨a, i, hi, rfl, hstate⟩, rfl⟩
      exact ⟨i, hi, hstate⟩
    · rintro ⟨i, hi, hstate⟩
      exact ⟨_, ⟨action, i, hi, rfl, hstate⟩, rfl⟩
  · rename_i hmux
    simp only [mem_runs_of_no_mux hmux]
    split
    · rename_i hmetadata
      have hnot : action ∉ merges plan := fun h => by
        rw [(mem_merges.mp h).2.1] at hmetadata
        cases hmetadata
      rw [← edited_iff (mem_edits.mpr ⟨ha, hmetadata⟩)]
      refine exists_congr fun deed => and_congr_left fun hdoes => ?_
      exact or_iff_left fun h => not_merged hnot h hdoes
    · rename_i hmetadata
      have hnot : action ∉ edits plan := fun h => hmetadata (mem_edits.mp h).2
      have hne : action.operation ≠ .muxSubtitle := fun h =>
        hmux (List.any_eq_true.mpr ⟨action, ha, decide_eq_true h⟩)
      have hmerge : action.operation ∈ mergeOps := by
        simpa [isSupportedOp, hmetadata, hne] using hop
      rw [← merged_iff (mem_merges.mpr ⟨ha, by simpa using hmetadata, hmerge⟩)]
      refine exists_congr fun deed => and_congr_left fun hdoes => ?_
      exact or_iff_right fun h => not_edited hnot h hdoes

theorem runs_ne_nil {env : Env} {plan : Plan} (hne : plan.actions ≠ [])
    (hops : ∀ action ∈ plan.actions, isSupportedOp action.operation = true) :
    runs env plan ≠ [] := by
  obtain ⟨action, ha⟩ := List.exists_mem_of_ne_nil _ hne
  unfold runs
  split
  · rename_i hmux
    obtain ⟨mux, hmem, hop⟩ := List.any_eq_true.mp hmux
    have hmuxes : muxes plan ≠ [] := List.ne_nil_of_mem (List.mem_filter.mpr ⟨hmem, hop⟩)
    simpa using hmuxes
  · rename_i hmux
    have hnil : ¬ (editRuns env plan = [] ∧ mergeRuns env plan = []) := by
      rintro ⟨hedit, hmerge⟩
      have hnoEdit : edits plan = [] := by
        by_contra h
        simp [editRuns, h] at hedit
      have hnoMerge : merges plan = [] := by
        by_contra h
        simp [mergeRuns, h] at hmerge
      have hmetadata : ¬ action.operation.isMetadataOp = true := fun h => by
        have := mem_edits.mpr ⟨ha, h⟩
        rw [hnoEdit] at this
        cases this
      have hneMux : action.operation ≠ .muxSubtitle := fun h =>
        hmux (List.any_eq_true.mpr ⟨action, ha, decide_eq_true h⟩)
      have hmem : action ∈ merges plan := mem_merges.mpr ⟨ha, by simpa using hmetadata, by
        simpa [isSupportedOp, hmetadata, hneMux] using hops action ha⟩
      rw [hnoMerge] at hmem
      cases hmem
    split
    · exact fun h => hnil (List.append_eq_nil_iff.mp h)
    · exact fun h => hnil (List.append_eq_nil_iff.mp h).symm

/-- The execution of a plan is reported successful only with every action carried out. -/
theorem executePlan_complete_iff {env : Env} {plan : Plan} (hne : plan.actions ≠ [])
    (hops : ∀ action ∈ plan.actions, isSupportedOp action.operation = true) :
    ((EventResult.fromPlanExecution pluginName (executePlan env plan).result).executionError = none →
        ∀ action ∈ plan.actions, ∃ deed ∈ (executePlan env plan).deeds, deed.Does action) ↔
      Complete env plan := by
  rw [EventResult.fromPlanExecution_ok_iff]
  unfold Complete
  cases hfile : env.fileExists with
  | false => simp [executePlan, hfile]
  | true =>
    have hparts : Parts (executePlan env plan) (runs env plan) := executePlan_parts hfile
    obtain ⟨haborted, hok⟩ := hparts.result
    by_cases hstates : .aborted ∈ states env plan
    · obtain ⟨error, herror⟩ := haborted hstates
      simp [herror, hstates]
    · obtain ⟨rs, hrs, hnil, hsuccess, hmem⟩ := hok hstates
      have hreported : (∃ results, (executePlan env plan).result = .ok results ∧
          (results = [] ∨ ∃ x ∈ results, x.success = true)) ↔ .done ∈ states env plan := by
        rw [hrs]
        constructor
        · rintro ⟨results, heq, hresults⟩
          obtain rfl := Except.ok.inj heq
          rcases hresults with hempty | hsome
          · exact absurd (hnil.mp hempty) (runs_ne_nil hne hops)
          · exact hsuccess.mp hsome
        · exact fun h => ⟨rs, rfl, .inr (hsuccess.mpr h)⟩
      have hdone (action : PlannedAction) (ha : action ∈ plan.actions) :
          (∃ deed ∈ (executePlan env plan).deeds, deed.Does action) ↔ Served env plan action := by
        rw [← served_iff ha (hops action ha)]
        exact exists_congr fun deed => and_congr_left fun _ => hmem deed
      rw [hreported, forall₂_congr hdone]
      by_cases hany : .done ∈ states env plan
      · simp [hany, hstates]
      · simp [hany]

end Mkvtoolnix

end Voom.Executors
