-- SUMMARY: The order of tracks that a policy asks for, from the validator to the command line of mkvmerge.
import Voom.Dsl.Totality
import Voom.Executors.TrackEdits

/-!
# Ordering tracks

The validator takes names of track classes in an order, the evaluator hands them on as they
are, and the MKVToolNix executor reads numbers of tracks. No name of a class is a number, so
an order never gets to mkvmerge (`order_never_takes_effect`).
-/

namespace Voom.Executors.Mkvtoolnix

open Dsl Evaluator

/-! ## What an order asks for -/

/-- The tracks that an item of an order is for. -/
def inClass : String → TrackType → Bool
  | "video", type => type.isVideo
  | "audio", type => type.isAudio
  | "audio_main", type => type = .audioMain
  | "audio_alternate", type => type = .audioAlternate
  | "audio_commentary", type => type = .audioCommentary
  | "subtitle", type | "subtitles", type => type.isSubtitle
  | "subtitle_main", type => type = .subtitleMain
  | "subtitle_forced", type => type = .subtitleForced
  | "subtitle_commentary", type => type = .subtitleCommentary
  | "attachment", type => type = .attachment
  | _, _ => false

/-- The place of the first item that a track falls under; after all of them if there is none. -/
def rank (order : List String) (t : Track) : Nat := order.findIdx (inClass · t.trackType)

/-- Classes in the order of the list, and in each class the tracks as they were. -/
def Precedes (order : List String) (t u : Track) : Prop :=
  rank order t < rank order u ∨ rank order t = rank order u ∧ t.index < u.index

/-- mkvmerge is told to put the tracks that stay into the order. -/
def TakesEffect (plan : Plan) (order : List String) (args : List String) : Prop :=
  ∃ command tracks, readMergeArgs args = some command ∧ List.Perm tracks (surviving plan) ∧
    tracks.Pairwise (Precedes order) ∧ command.trackOrder = some (tracks.map (·.index))

/-! ## Where orders come from -/

theorem validOrderItems_not_numbers {item : String} (h : item ∈ validOrderItems) :
    parseUnsigned 64 item = none := by
  have hall : ∀ item ∈ validOrderItems, parseUnsigned 64 item = none := by decide
  exact hall item h

/-- The orders of an operation name classes only. -/
def OrdersClasses (op : CompiledOperation) : Prop :=
  ∀ order, op = .reorderTracks order → ∀ item ∈ order, item ∈ validOrderItems

theorem compileOperation_ordersClasses {cenv : CompileEnv} {phaseNames : List String}
    {node : OperationNode} {span : Span} {op : CompiledOperation}
    (hvalid : validateOperation cenv phaseNames node span = [])
    (hcompile : compileOperation cenv node = .ok op) : OrdersClasses op := by
  rintro order rfl
  cases node with
  | order items =>
    obtain ⟨⟩ := Except.ok.inj hcompile
    simpa [validateOperation, List.flatMap_eq_nil_iff, errorUnless_eq_nil] using hvalid
  | container name =>
    simp only [compileOperation] at hcompile
    split at hcompile <;> cases hcompile
  | keep target filter normalize =>
    simp only [compileOperation] at hcompile
    obtain ⟨target, -, hcompile⟩ := Lib.bind_eq_ok.mp hcompile
    obtain ⟨filter, -, hcompile⟩ := Lib.bind_eq_ok.mp hcompile
    cases normalize with
    | none => cases hcompile
    | some setting =>
      obtain ⟨settings, -, hcompile⟩ := Lib.bind_eq_ok.mp hcompile
      cases hcompile
  | clearTags => cases hcompile
  | setTag tag value => cases hcompile
  | deleteTag tag => cases hcompile
  | verify mode => cases hcompile
  | _ => simp [compileOperation, Lib.bind_eq_ok, pure, Except.pure] at hcompile

/-- In a policy that the validator accepts, orders name classes only. -/
theorem compiled_ordersClasses {cenv : CompileEnv} {partition : PartitionPoint} {ast : PolicyAst}
    {chain : List String} {sources : String → Option PhaseComposition} {policy : CompiledPolicy}
    (hvalid : validate cenv ast = .ok ())
    (hcompile : compileAstWithComposition cenv partition ast chain sources = .ok policy)
    {phase : CompiledPhase} (hphase : phase ∈ policy.phases) {op : CompiledOperation}
    (hop : op ∈ phase.operations) : OrdersClasses op := by
  have herrors : validationErrors cenv ast = [] := by
    simp only [validate] at hvalid
    split at hvalid
    · assumption
    · cases hvalid
  obtain ⟨phases, hphases, hcompile⟩ := Lib.bind_eq_ok.mp hcompile
  obtain ⟨phaseOrder, -, hcompile⟩ := Lib.bind_eq_ok.mp hcompile
  obtain rfl := Except.ok.inj hcompile
  obtain ⟨node, hnode, hcompiled⟩ := Lib.mem_of_mapM hphases hphase
  have hphaseValid : validatePhase cenv ast.phaseNames node = [] := by
    simp only [validationErrors, List.append_eq_nil_iff] at herrors
    exact List.flatMap_eq_nil_iff.mp herrors.2 node hnode
  unfold compilePhase at hcompiled
  split at hcompiled
  · cases hcompiled
  · obtain ⟨skipWhen, -, hcompiled⟩ := Lib.bind_eq_ok.mp hcompiled
    obtain ⟨operations, hoperations, hcompiled⟩ := Lib.bind_eq_ok.mp hcompiled
    obtain rfl := Except.ok.inj hcompiled
    obtain ⟨spanned, hspanned, hoperation⟩ := Lib.mem_of_mapM hoperations hop
    have hvalidated : validateOperation cenv ast.phaseNames spanned.node spanned.span = [] := by
      simp only [validatePhase, List.append_eq_nil_iff] at hphaseValid
      exact List.flatMap_eq_nil_iff.mp hphaseValid.1.1.2 spanned hspanned
    exact compileOperation_ordersClasses hvalidated hoperation

/-- An order of classes is nothing to mkvmerge. -/
theorem orderOf_planned {env : EvalEnv} {file : MediaFile} {ctx : EvalContext}
    {op : CompiledOperation} (hclasses : OrdersClasses op) {a : PlannedAction}
    (ha : a ∈ operationPlans env file ctx op) : orderOf a = none := by
  by_cases hkind : a.operation = .reorderTracks
  · rcases List.mem_append.mp ha with ha | ha
    · obtain ⟨action, -, ha⟩ := List.mem_flatMap.mp ha
      have hkinds := operation_of_mem_actionPlans ha
      rw [hkind] at hkinds
      cases action <;> simp [actionKinds] at hkinds
    · have hkinds := operation_of_mem_ownPlans ha
      rw [hkind] at hkinds
      cases op with
      | reorderTracks order =>
        rw [List.mem_singleton.mp ha]
        have hnone : order.filterMap (parseUnsigned 64) = [] := by
          apply List.filterMap_eq_nil_iff.mpr
          intro item hitem
          exact validOrderItems_not_numbers (hclasses order rfl item hitem)
        exact if_pos hnone
      | transcode target codec settings => cases target <;> simp [ownKinds] at hkinds
      | _ => simp [ownKinds] at hkinds
  · unfold orderOf
    split
    · exact absurd ‹_› hkind
    · rfl

/-- Whatever order a valid policy asks for, mkvmerge is not told it. -/
theorem order_never_takes_effect (cenv : CompileEnv) (partition : PartitionPoint) (ast : PolicyAst)
    (chain : List String) (sources : String → Option PhaseComposition) (policy : CompiledPolicy)
    (hvalid : validate cenv ast = .ok ())
    (hcompile : compileAstWithComposition cenv partition ast chain sources = .ok policy)
    (env : EvalEnv) (newId : Nat → Uuid) (file : MediaFile) (capabilities : Option CapabilityMap)
    (phaseOutputLookup : Option (String → Option PhaseOutput)) (plan : Plan)
    (hplan : plan ∈ evaluateWithPhaseOutputs env newId policy file capabilities phaseOutputLookup)
    (order : List String) (output : Path) :
    ¬ TakesEffect plan order
      (buildMergeArgs plan.file.path output (classifyActions plan.actions).2) := by
  obtain ⟨name, id, outcomes, phase, hphase, rfl⟩ := mem_evaluatePhases hplan
  rintro ⟨command, tracks, hread, -, -, horder⟩
  rw [readMergeArgs_buildMergeArgs] at hread
  obtain rfl := Option.some.inj hread
  have hnone : ∀ a ∈ (classifyActions (evaluatePhase env file ⟨capabilities, phaseOutputLookup⟩ policy
      id outcomes phase).actions).2, orderOf a = none := by
    intro a ha
    obtain ⟨op, hop, hplanned⟩ := operation_of_planned (List.mem_filter.mp ha).1
    have hclasses := compiled_ordersClasses hvalid hcompile (List.mem_of_find?_eq_some hphase) hop
    exact orderOf_planned hclasses hplanned
  simp [mergeCommand, List.filterMap_eq_nil_iff.mpr hnone] at horder

/-! ## An order that gets lost -/

/-- `policy "p" { phase a { order tracks [audio, video] } }` -/
def audioFirst : PolicyAst where
  name := "p"
  phases := [{ name := "a", operations := [⟨.order ["audio", "video"], default⟩] }]

def audioFirstPhase : CompiledPhase :=
  { name := "a", operations := [.reorderTracks ["audio", "video"]] }

def audioFirstPolicy : CompiledPolicy :=
  { name := "p", phases := [audioFirstPhase], phaseOrder := ["a"] }

theorem audioFirst_valid : validate oneBadPattern audioFirst = .ok () := by decide

theorem audioFirst_compiles :
    compileAst oneBadPattern linearPartitionPoint audioFirst = .ok audioFirstPolicy := by
  have h : topologicalSort linearPartitionPoint audioFirst = .ok ["a"] := by decide +kernel
  unfold compileAst compileAstWithComposition
  rw [h]
  rfl

def mkvFilm : MediaFile :=
  { film with path := ⟨["films", "film.mkv"]⟩, container := .mkv }

def audioFirstPlan : Plan :=
  evaluatePhase plainEnv mkvFilm {} audioFirstPolicy 0 [] audioFirstPhase

/-- The arguments for a run of mkvmerge on the plan. -/
def audioFirstArgs : List String :=
  buildMergeArgs audioFirstPlan.file.path ⟨["films", "film.voom_tmp_1.mkv"]⟩
    (classifyActions audioFirstPlan.actions).2

theorem audioFirst_not_told : ¬ TakesEffect audioFirstPlan ["audio", "video"] audioFirstArgs :=
  order_never_takes_effect oneBadPattern linearPartitionPoint audioFirst [] (fun _ => none)
    audioFirstPolicy audioFirst_valid audioFirst_compiles plainEnv id mkvFilm none none
    audioFirstPlan
    (by simp [evaluateWithPhaseOutputs, evaluatePhases, audioFirstPlan, audioFirstPolicy,
      audioFirstPhase]) _ _

/-- Audio and video tracks are to change places, and the command line says nothing of it. -/
theorem audioFirst_order_lost :
    validate oneBadPattern audioFirst = .ok () ∧
      (∃ a ∈ audioFirstPlan.actions, a.operation = .reorderTracks ∧
        a.parameters = .reorderTracks ["audio", "video"]) ∧
      audioFirstArgs = ["-o", "/films/film.voom_tmp_1.mkv", "/films/film.mkv"] ∧
      ¬ TakesEffect audioFirstPlan ["audio", "video"] audioFirstArgs := by
  refine ⟨audioFirst_valid, by decide, by decide, ?_⟩
  rintro ⟨command, tracks, hread, -, -, horder⟩
  have hcommand : readMergeArgs audioFirstArgs = some
      { output := "/films/film.voom_tmp_1.mkv", input := "/films/film.mkv" } := by
    decide
  obtain rfl := Option.some.inj (hread.symm.trans hcommand)
  cases horder

end Voom.Executors.Mkvtoolnix
