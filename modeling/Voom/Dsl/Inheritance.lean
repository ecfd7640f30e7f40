-- SUMMARY: A policy resolved along its chain of parents is the declarative fold of the chain.
import Voom.Dsl.Composition
import Voom.Lib.Outcome

/-!
# Inheritance

What a chain of policies means is said without merging: a phase is its last definition
that does not extend, followed by the extensions after it. Resolution, which merges one
policy at a time, is shown to compute this.
-/

namespace Voom.Dsl

/-! ## Merging in closed form -/

namespace PolicyAst

/-- The phase a policy defines under a name. -/
def definition (ast : PolicyAst) (name : String) : Option PhaseNode :=
  ast.phases.find? (·.name = name)

theorem definition_eq_none_iff {ast : PolicyAst} {name : String} :
    ast.definition name = none ↔ name ∉ ast.phaseNames := by
  simp [definition, phaseNames]

theorem name_of_definition {ast : PolicyAst} {name : String} {phase : PhaseNode}
    (h : ast.definition name = some phase) : phase.name = name := by
  simpa using List.find?_some h

theorem definition_of_mem {ast : PolicyAst} (hnd : ast.phaseNames.Nodup) {phase : PhaseNode}
    (h : phase ∈ ast.phases) : ast.definition phase.name = some phase := by
  cases hd : ast.definition phase.name with
  | none => exact absurd (List.mem_map_of_mem h) (definition_eq_none_iff.mp hd)
  | some other =>
    have hmem : other ∈ ast.phases := List.mem_of_find?_eq_some hd
    have hinj := List.inj_on_of_nodup_map hnd hmem h (name_of_definition hd)
    rw [hinj]

end PolicyAst

/-- The child phases while the parent phases named in `done` are behind. -/
def marked (done : List String) (phases : List PhaseNode) : List (PhaseNode × Bool) :=
  phases.map fun phase => (phase, decide (phase.name ∈ done))

theorem marked_nil (phases : List PhaseNode) : marked [] phases = phases.map (·, false) := by
  simp [marked]

/-- Marking a name that no phase bears changes nothing. -/
theorem marked_cons_of_notMem {name : String} {done : List String} {phases : List PhaseNode}
    (h : name ∉ phases.map (·.name)) : marked (name :: done) phases = marked done phases := by
  apply List.map_congr_left
  intro phase hphase
  have hne : phase.name ≠ name := fun heq => h (heq ▸ List.mem_map_of_mem hphase)
  simp [hne]

theorem consume_marked {name : String} {done : List String} (hname : name ∉ done)
    {phases : List PhaseNode} (hnd : (phases.map (·.name)).Nodup) :
    consume name (marked done phases) =
      (phases.find? (·.name = name)).map fun phase => (phase, marked (name :: done) phases) := by
  induction phases with
  | nil => rfl
  | cons phase rest ih =>
    rw [List.map_cons, List.nodup_cons] at hnd
    have hcons (d : List String) :
        marked d (phase :: rest) = (phase, decide (phase.name ∈ d)) :: marked d rest := rfl
    rw [hcons, hcons]
    by_cases heq : phase.name = name
    · subst heq
      simp only [consume, hname, decide_false, and_self, ↓reduceIte, decide_true,
        List.find?_cons_of_pos, Option.map_some, List.mem_cons, true_or]
      rw [marked_cons_of_notMem hnd.1]
    · simp only [consume, heq, and_false, ↓reduceIte, ih hnd.2, decide_false,
        Bool.false_eq_true, not_false_eq_true, List.find?_cons_of_neg, List.mem_cons, false_or,
        Option.map_map]
      rfl

/-- The phase a parent phase becomes. -/
def mergedPhase (child : PolicyAst) (phase : PhaseNode) : PhaseNode :=
  match child.definition phase.name with
  | none => clearExtend phase
  | some childPhase =>
    if childPhase.extend then extendPhase phase childPhase else clearExtend childPhase

/-- What is recorded of it. -/
def mergedSource (parent : ResolvedPolicyAst) (child : PolicyAst) (childSource name : String) :
    PhaseComposition :=
  match child.definition name with
  | none => .inherited (parent.phaseSource name)
  | some childPhase =>
    if childPhase.extend then .extended (parent.phaseSource name) childPhase.operations.length
    else .overridden childSource

@[simp] theorem name_clearExtend (phase : PhaseNode) : (clearExtend phase).name = phase.name := rfl

@[simp] theorem name_extendPhase (parent child : PhaseNode) :
    (extendPhase parent child).name = parent.name := rfl

theorem name_mergedPhase (child : PolicyAst) (phase : PhaseNode) :
    (mergedPhase child phase).name = phase.name := by
  unfold mergedPhase
  split
  · rfl
  · next childPhase h =>
    have := PolicyAst.name_of_definition h
    split
    · rfl
    · exact this

theorem parentPhase_eq {parent : ResolvedPolicyAst} {child : PolicyAst} {childSource : String}
    {done : List String} {phases : List PhaseNode} {sources : String → Option PhaseComposition}
    {phase : PhaseNode} (hnd : child.phaseNames.Nodup) (hphase : phase.name ∉ done) :
    Merging.parentPhase parent childSource ⟨marked done child.phases, phases, sources⟩ phase =
      ⟨marked (phase.name :: done) child.phases, phases ++ [mergedPhase child phase],
        Function.update sources phase.name
          (some (mergedSource parent child childSource phase.name))⟩ := by
  have hconsume := consume_marked hphase hnd
  simp only [Merging.parentPhase, hconsume, mergedPhase, mergedSource, PolicyAst.definition]
  cases hfind : child.phases.find? (·.name = phase.name) with
  | none =>
    have hno : phase.name ∉ child.phaseNames := PolicyAst.definition_eq_none_iff.mp hfind
    simp only [Option.map_none, Merging.push, Merging.mk.injEq, and_true]
    exact (marked_cons_of_notMem hno).symm
  | some childPhase =>
    simp only [Option.map_some]
    split
    · rfl
    · rfl

theorem foldl_parentPhase {parent : ResolvedPolicyAst} {child : PolicyAst} {childSource : String}
    (hnd : child.phaseNames.Nodup) (rest : List PhaseNode) {done : List String}
    {phases : List PhaseNode} {sources : String → Option PhaseComposition}
    (hrest : (rest.map (·.name)).Nodup) (hdone : ∀ phase ∈ rest, phase.name ∉ done) :
    rest.foldl (Merging.parentPhase parent childSource)
        ⟨marked done child.phases, phases, sources⟩ =
      ⟨marked ((rest.map (·.name)).reverse ++ done) child.phases,
        phases ++ rest.map (mergedPhase child),
        fun name => if name ∈ rest.map (·.name) then
          some (mergedSource parent child childSource name) else sources name⟩ := by
  induction rest generalizing done phases sources with
  | nil => simp
  | cons phase rest ih =>
    rw [List.map_cons, List.nodup_cons] at hrest
    rw [List.foldl_cons, parentPhase_eq hnd (hdone phase List.mem_cons_self), ih hrest.2]
    · simp only [List.map_cons, List.reverse_cons, List.append_assoc, List.singleton_append,
        Merging.mk.injEq, true_and]
      funext name
      by_cases heq : name = phase.name
      · subst heq
        simp [hrest.1]
      · simp [heq]
    · intro other hother
      simp only [List.mem_cons, not_or]
      refine ⟨?_, hdone other (List.mem_cons_of_mem _ hother)⟩
      intro heq
      exact hrest.1 (heq ▸ List.mem_map_of_mem hother)

/-- The phases of a child that are new to its parent. -/
def newPhases (parent : ResolvedPolicyAst) (child : PolicyAst) : List PhaseNode :=
  child.phases.filter (·.name ∉ parent.ast.phaseNames)

theorem mergeNewPhases_marked (done : List String) (rest : List PhaseNode)
    (hrest : (rest.map (·.name)).Nodup) (merging : Merging) :
    mergeNewPhases merging (marked done rest) =
      match (rest.filter (·.name ∉ done)).find? (·.extend) with
      | some phase => .error (noParentPhase phase.name)
      | none => .ok {
          merging with
          phases := merging.phases ++ (rest.filter (·.name ∉ done)).map clearExtend
          phaseSources := fun name =>
            if name ∈ (rest.filter (·.name ∉ done)).map (·.name) then some .local
            else merging.phaseSources name } := by
  induction rest generalizing merging with
  | nil => simp [marked, mergeNewPhases]
  | cons phase rest ih =>
    rw [List.map_cons, List.nodup_cons] at hrest
    have hcons : marked done (phase :: rest) =
        (phase, decide (phase.name ∈ done)) :: marked done rest := rfl
    rw [hcons]
    by_cases hdone : phase.name ∈ done
    · have hfilter : (phase :: rest).filter (·.name ∉ done) = rest.filter (·.name ∉ done) := by
        simp [hdone]
      rw [hfilter]
      simpa [mergeNewPhases, hdone] using ih hrest.2 merging
    · have hfilter : (phase :: rest).filter (·.name ∉ done) =
          phase :: rest.filter (·.name ∉ done) := by
        simp [hdone]
      rw [hfilter]
      by_cases hext : phase.extend = true
      · simp [mergeNewPhases, hdone, hext]
      · simp only [mergeNewPhases, hdone, decide_false, Bool.false_eq_true, ↓reduceIte, hext,
          ih hrest.2, Merging.push, not_false_eq_true, List.find?_cons_of_neg, List.map_cons,
          List.append_assoc, List.singleton_append]
        split
        · rfl
        · simp only [Except.ok.injEq, Merging.mk.injEq, true_and]
          funext name
          by_cases heq : name = phase.name
          · subst heq
            simp
          · rw [Function.update_of_ne heq]
            simp only [List.mem_cons, heq, false_or]

/-- The policy a merge makes, when it makes one. -/
def mergeResult (parent : ResolvedPolicyAst) (child : PolicyAst) (sourceId : PolicySourceId) :
    ResolvedPolicyAst where
  ast := {
    name := child.name
    metadata := mergeMetadata parent.ast.metadata child.metadata
    config := child.config.or parent.ast.config
    phases := parent.ast.phases.map (mergedPhase child) ++
      (newPhases parent child).map clearExtend
    span := child.span }
  sourceId := sourceId
  extendsChain := parent.extendsChain ++ [sourceLabel parent.sourceId]
  phaseSources := fun name =>
    if name ∈ (newPhases parent child).map (·.name) then some .local
    else if name ∈ parent.ast.phaseNames then
      some (mergedSource parent child (sourceLabel sourceId) name)
    else none

/-- Merging fails on the first new phase that extends, and else maps each parent phase and
appends the new ones. -/
theorem mergePolicy_eq {parent : ResolvedPolicyAst} {child : PolicyAst}
    (sourceId : PolicySourceId) (hparent : parent.ast.phaseNames.Nodup)
    (hchild : child.phaseNames.Nodup) :
    mergePolicy parent child sourceId =
      match (newPhases parent child).find? (·.extend) with
      | some phase => .error (noParentPhase phase.name)
      | none => .ok (mergeResult parent child sourceId) := by
  have hfold : parent.ast.phases.foldl (Merging.parentPhase parent (sourceLabel sourceId))
      ⟨marked [] child.phases, [], fun _ => none⟩ = _ :=
    foldl_parentPhase hchild parent.ast.phases hparent (fun _ _ => List.not_mem_nil)
  have hnew : child.phases.filter
      (fun phase => decide (phase.name ∉ (parent.ast.phases.map (·.name)).reverse ++ [])) =
        newPhases parent child := by
    simp [newPhases, PolicyAst.phaseNames]
  simp only [mergePolicy]
  rw [← marked_nil, hfold]
  simp only
  rw [mergeNewPhases_marked _ _ hchild, hnew]
  cases (newPhases parent child).find? (·.extend) with
  | some phase => rfl
  | none => rfl

/-! ## What a chain means

A chain is listed from the child to the root. -/

/-- The definitions of a phase along a chain, from the root down, with their policies. -/
def definitions : List LoadedPolicy → String → List (PolicySourceId × PhaseNode)
  | [], _ => []
  | policy :: ancestors, name =>
    definitions ancestors name ++ (policy.ast.definition name).toList.map (policy.sourceId, ·)

/-- The phases of a chain: those of the parent, then the new ones. -/
def chainNames : List LoadedPolicy → List String
  | [] => []
  | policy :: ancestors =>
    chainNames ancestors ++ policy.ast.phaseNames.filter (· ∉ chainNames ancestors)

/-- The last of some definitions to state a control. -/
def lastStated {α : Type} (control : PhaseNode → Option α)
    (defs : List (PolicySourceId × PhaseNode)) : Option α :=
  (defs.filterMap fun d => control d.2).getLast?

/-- `base` is the last definition that does not extend, `later` the extensions after it, and
`phase` is what they make. -/
structure ComposedOf (defs : List (PolicySourceId × PhaseNode)) (base : PolicySourceId × PhaseNode)
    (later : List (PolicySourceId × PhaseNode)) (phase : PhaseNode) : Prop where
  split : ∃ earlier, defs = earlier ++ base :: later
  base_defines : base.2.extend = false
  later_extend : ∀ d ∈ later, d.2.extend = true
  resolved : phase.extend = false
  operations : phase.operations = base.2.operations ++ later.flatMap (·.2.operations)
  skipWhen : phase.skipWhen = lastStated (·.skipWhen) (base :: later)
  dependsOn : phase.dependsOn = lastStated (·.dependsOn) (base :: later)
  runIf : phase.runIf = lastStated (·.runIf) (base :: later)
  onError : phase.onError = lastStated (·.onError) (base :: later)

/-- What should be recorded of a phase whose base definition is in the policy `source`. -/
def provenance (policy : LoadedPolicy) (ancestors : List LoadedPolicy) (name : String)
    (source : PolicySourceId) : Option PhaseComposition :=
  match ancestors, policy.ast.definition name with
  | [], _ => none
  | _ :: _, none => some (.inherited (sourceLabel source))
  | _ :: _, some phase =>
    if phase.extend then some (.extended (sourceLabel source) phase.operations.length)
    else if name ∈ chainNames ancestors then some (.overridden (sourceLabel source))
    else some .local

/-- `resolved` is the fold of a policy and its ancestors. -/
structure Composed (policy : LoadedPolicy) (ancestors : List LoadedPolicy)
    (resolved : ResolvedPolicyAst) : Prop where
  names : resolved.ast.phaseNames = chainNames (policy :: ancestors)
  phases : ∀ phase ∈ resolved.ast.phases, ∃ base later,
    ComposedOf (definitions (policy :: ancestors) phase.name) base later phase ∧
    resolved.phaseSources phase.name = provenance policy ancestors phase.name base.1
  extendsChain : resolved.extendsChain = ancestors.reverse.map (sourceLabel ·.sourceId)
  sourceId : resolved.sourceId = policy.sourceId

/-- Some policy of the chain extends a phase that none of its ancestors has. -/
def ExtendsUndefined (chain : List LoadedPolicy) : Prop :=
  ∃ policy ancestors, policy :: ancestors <:+ chain ∧
    ∃ phase ∈ policy.ast.phases, phase.extend = true ∧
      ∀ ancestor ∈ ancestors, phase.name ∉ ancestor.ast.phaseNames

def IsExtendError (error : DslPipelineError) : Prop :=
  ∃ name, error = noParentPhase name ∨ error = unresolvedPhaseExtend name

theorem mem_chainNames {chain : List LoadedPolicy} {name : String} :
    name ∈ chainNames chain ↔ ∃ policy ∈ chain, name ∈ policy.ast.phaseNames := by
  induction chain with
  | nil => simp [chainNames]
  | cons policy ancestors ih =>
    simp only [chainNames, List.mem_append, List.mem_filter, decide_eq_true_eq,
      List.exists_mem_cons_iff, ← ih]
    tauto

theorem nodup_chainNames {chain : List LoadedPolicy}
    (h : ∀ policy ∈ chain, policy.ast.phaseNames.Nodup) : (chainNames chain).Nodup := by
  induction chain with
  | nil => exact List.nodup_nil
  | cons policy ancestors ih =>
    apply List.Nodup.append
    · exact ih fun p hp => h p (List.mem_cons_of_mem _ hp)
    · exact (h policy List.mem_cons_self).filter _
    · intro name hname hnew
      simp only [List.mem_filter, decide_eq_true_eq] at hnew
      exact hnew.2 hname

/-! ## One merge -/

theorem lastStated_append {α : Type} (control : PhaseNode → Option α)
    (defs : List (PolicySourceId × PhaseNode)) (d : PolicySourceId × PhaseNode) :
    lastStated control (defs ++ [d]) = (control d.2).or (lastStated control defs) := by
  unfold lastStated
  rw [List.filterMap_append]
  cases h : control d.2 with
  | none => simp [h]
  | some value => simp [h]

namespace ComposedOf

variable {defs later : List (PolicySourceId × PhaseNode)} {base : PolicySourceId × PhaseNode}
  {phase : PhaseNode}

/-- A definition that does not extend starts afresh. -/
theorem define (defs : List (PolicySourceId × PhaseNode)) (source : PolicySourceId)
    {definition : PhaseNode} (h : definition.extend = false) :
    ComposedOf (defs ++ [(source, definition)]) (source, definition) []
      (clearExtend definition) where
  split := ⟨defs, rfl⟩
  base_defines := h
  later_extend := fun _ hd => absurd hd List.not_mem_nil
  resolved := rfl
  operations := (List.append_nil _).symm
  skipWhen := by cases hs : definition.skipWhen <;> simp [lastStated, clearExtend, hs]
  dependsOn := by cases hs : definition.dependsOn <;> simp [lastStated, clearExtend, hs]
  runIf := by cases hs : definition.runIf <;> simp [lastStated, clearExtend, hs]
  onError := by cases hs : definition.onError <;> simp [lastStated, clearExtend, hs]

/-- An extension is added to what there is. -/
theorem extend (h : ComposedOf defs base later phase) (source : PolicySourceId)
    {extension : PhaseNode} (hext : extension.extend = true) :
    ComposedOf (defs ++ [(source, extension)]) base (later ++ [(source, extension)])
      (extendPhase phase extension) where
  split := by
    obtain ⟨earlier, hsplit⟩ := h.split
    exact ⟨earlier, by rw [hsplit]; simp⟩
  base_defines := h.base_defines
  later_extend := by
    intro d hd
    rcases List.mem_append.mp hd with hd | hd
    · exact h.later_extend d hd
    · rw [List.mem_singleton] at hd
      rw [hd]
      exact hext
  resolved := rfl
  operations := by simp [extendPhase, h.operations]
  skipWhen := by
    rw [← List.cons_append, lastStated_append, ← h.skipWhen]
    rfl
  dependsOn := by
    rw [← List.cons_append, lastStated_append, ← h.dependsOn]
    rfl
  runIf := by
    rw [← List.cons_append, lastStated_append, ← h.runIf]
    rfl
  onError := by
    rw [← List.cons_append, lastStated_append, ← h.onError]
    rfl

/-- When the last definition does not extend, it is the base. -/
theorem base_eq_last {d : PolicySourceId × PhaseNode} (h : ComposedOf (defs ++ [d]) base later phase)
    (hd : d.2.extend = false) : base = d := by
  obtain ⟨earlier, hsplit⟩ := h.split
  cases hlater : later.reverse with
  | nil =>
    rw [List.reverse_eq_nil_iff] at hlater
    rw [hlater] at hsplit
    exact (List.append_inj_right' hsplit rfl |> List.cons.inj |>.1).symm
  | cons last rest =>
    have heq : later = rest.reverse ++ [last] := by
      rw [← List.reverse_inj, hlater]
      simp
    rw [heq, ← List.cons_append, ← List.append_assoc] at hsplit
    have hlast : d = last := (List.cons.inj (List.append_inj_right' hsplit rfl)).1
    have := h.later_extend last (by simp [heq])
    rw [← hlast, hd] at this
    cases this

end ComposedOf

namespace Composed

variable {policy : LoadedPolicy} {ancestors : List LoadedPolicy} {resolved : ResolvedPolicyAst}

/-- The label a child records for an inherited phase is that of the policy with its base. -/
theorem phaseSource_eq (h : Composed policy ancestors resolved) {phase : PhaseNode}
    (hphase : phase ∈ resolved.ast.phases) {base : PolicySourceId × PhaseNode}
    {later : List (PolicySourceId × PhaseNode)}
    (hcomp : ComposedOf (definitions (policy :: ancestors) phase.name) base later phase)
    (hsource : resolved.phaseSources phase.name =
      provenance policy ancestors phase.name base.1) :
    resolved.phaseSource phase.name = sourceLabel base.1 := by
  have hname : phase.name ∈ chainNames (policy :: ancestors) :=
    h.names ▸ List.mem_map_of_mem hphase
  rw [ResolvedPolicyAst.phaseSource, hsource, h.sourceId]
  cases ancestors with
  | nil =>
    -- the root records nothing, and is the only policy that can define the phase
    obtain ⟨earlier, hsplit⟩ := hcomp.split
    have hmem : base ∈ definitions [policy] phase.name := by
      rw [hsplit]
      exact List.mem_append_right _ List.mem_cons_self
    simp only [definitions, List.nil_append, List.mem_map] at hmem
    obtain ⟨_, _, hbase⟩ := hmem
    simp [provenance, ← hbase]
  | cons parent rest =>
    cases hdef : policy.ast.definition phase.name with
    | none => simp [provenance, hdef, phaseSourceLabel]
    | some own =>
      cases hext : own.extend with
      | true => simp [provenance, hdef, hext, phaseSourceLabel]
      | false =>
        have hdefs : definitions (policy :: parent :: rest) phase.name =
            definitions (parent :: rest) phase.name ++ [(policy.sourceId, own)] := by
          simp [definitions, hdef]
        rw [hdefs] at hcomp
        have hbase := hcomp.base_eq_last hext
        rw [hbase]
        by_cases hold : phase.name ∈ chainNames (parent :: rest)
        · simp [provenance, hdef, hext, hold, phaseSourceLabel]
        · simp [provenance, hdef, hext, hold, phaseSourceLabel]

theorem nodup_names (h : Composed policy ancestors resolved)
    (hnd : ∀ p ∈ policy :: ancestors, p.ast.phaseNames.Nodup) :
    resolved.ast.phaseNames.Nodup := by
  rw [h.names]
  exact nodup_chainNames hnd

end Composed

section Merge

variable {child parent : LoadedPolicy} {rest : List LoadedPolicy} {resolved : ResolvedPolicyAst}

theorem mem_newPhases {ast : PolicyAst} {phase : PhaseNode} :
    phase ∈ newPhases resolved ast ↔
      phase ∈ ast.phases ∧ phase.name ∉ resolved.ast.phaseNames := by
  simp [newPhases]

variable (child) in
/-- A parent phase, whatever the child says of it. -/
theorem mergedPhase_composed (hresolved : Composed parent rest resolved) {phase : PhaseNode}
    (hphase : phase ∈ resolved.ast.phases) :
    ∃ base later,
      ComposedOf (definitions (child :: parent :: rest) phase.name) base later
        (mergedPhase child.ast phase) ∧
      some (mergedSource resolved child.ast (sourceLabel child.sourceId) phase.name) =
        provenance child (parent :: rest) phase.name base.1 := by
  obtain ⟨base, later, hcomp, hsource⟩ := hresolved.phases phase hphase
  have hlabel := hresolved.phaseSource_eq hphase hcomp hsource
  have hold : phase.name ∈ chainNames (parent :: rest) :=
    hresolved.names ▸ List.mem_map_of_mem hphase
  have hdefs : definitions (child :: parent :: rest) phase.name =
      definitions (parent :: rest) phase.name ++
        (child.ast.definition phase.name).toList.map (child.sourceId, ·) := rfl
  rw [hdefs]
  cases hdef : child.ast.definition phase.name with
  | none =>
    have hsame : clearExtend phase = phase := by
      simp only [clearExtend, ← hcomp.resolved]
    refine ⟨base, later, ?_, ?_⟩
    · simpa [mergedPhase, hdef, hsame] using hcomp
    · simp [mergedSource, provenance, hdef, hlabel]
  | some own =>
    cases hext : own.extend with
    | true =>
      refine ⟨base, later ++ [(child.sourceId, own)], ?_, ?_⟩
      · simpa [mergedPhase, hdef, hext] using hcomp.extend child.sourceId hext
      · simp [mergedSource, provenance, hdef, hext, hlabel]
    | false =>
      refine ⟨(child.sourceId, own), [], ?_, ?_⟩
      · simpa [mergedPhase, hdef, hext] using ComposedOf.define _ child.sourceId hext
      · simp [mergedSource, provenance, hdef, hext, hold]

/-- A phase that is new in the child. -/
theorem newPhase_composed (hresolved : Composed parent rest resolved)
    (hchild : child.ast.phaseNames.Nodup) {phase : PhaseNode}
    (hphase : phase ∈ newPhases resolved child.ast) (hext : phase.extend = false) :
    ∃ base later,
      ComposedOf (definitions (child :: parent :: rest) phase.name) base later
        (clearExtend phase) ∧
      some .local = provenance child (parent :: rest) phase.name base.1 := by
  obtain ⟨hmem, hnew⟩ := mem_newPhases.mp hphase
  rw [hresolved.names] at hnew
  have hdef := PolicyAst.definition_of_mem hchild hmem
  refine ⟨(child.sourceId, phase), [], ?_, ?_⟩
  · have := ComposedOf.define (definitions (parent :: rest) phase.name) child.sourceId hext
    simpa [definitions, hdef] using this
  · simp [provenance, hdef, hext, hnew]

theorem mergeResult_composed (hresolved : Composed parent rest resolved)
    (hchild : child.ast.phaseNames.Nodup)
    (hext : ∀ phase ∈ newPhases resolved child.ast, phase.extend = false) :
    Composed child (parent :: rest) (mergeResult resolved child.ast child.sourceId) where
  names := by
    have hold : (resolved.ast.phases.map (mergedPhase child.ast)).map (·.name) =
        resolved.ast.phaseNames := by
      simp [PolicyAst.phaseNames, name_mergedPhase]
    have hnew : ((newPhases resolved child.ast).map clearExtend).map (·.name) =
        child.ast.phaseNames.filter (· ∉ resolved.ast.phaseNames) := by
      simp [newPhases, PolicyAst.phaseNames, List.filter_map, Function.comp_def]
    change (_ ++ _ : List PhaseNode).map (·.name) = chainNames (parent :: rest) ++ _
    rw [List.map_append, hold, hnew, hresolved.names]
  phases := by
    intro phase hphase
    rcases List.mem_append.mp hphase with hphase | hphase
    · obtain ⟨old, hold, rfl⟩ := List.mem_map.mp hphase
      rw [name_mergedPhase]
      obtain ⟨base, later, hcomp, hsource⟩ := mergedPhase_composed child hresolved hold
      refine ⟨base, later, hcomp, ?_⟩
      have hin : old.name ∈ resolved.ast.phaseNames := List.mem_map_of_mem hold
      have hnot : old.name ∉ (newPhases resolved child.ast).map (·.name) := by
        intro hmem
        obtain ⟨new, hnew, heq⟩ := List.mem_map.mp hmem
        exact (mem_newPhases.mp hnew).2 (heq ▸ hin)
      simp only [mergeResult, hnot, ↓reduceIte, hin, hsource]
    · obtain ⟨new, hnew, rfl⟩ := List.mem_map.mp hphase
      obtain ⟨base, later, hcomp, hsource⟩ :=
        newPhase_composed hresolved hchild hnew (hext new hnew)
      refine ⟨base, later, hcomp, ?_⟩
      have hin : new.name ∈ (newPhases resolved child.ast).map (·.name) :=
        List.mem_map_of_mem hnew
      simp only [mergeResult, name_clearExtend, hin, ↓reduceIte, hsource]
  extendsChain := by
    simp [mergeResult, hresolved.extendsChain, hresolved.sourceId]
  sourceId := rfl

end Merge

/-! ## The whole chain -/

/-- Resolution of a chain, with the reading of the parents left out. -/
def resolveChain : LoadedPolicy → List LoadedPolicy → Except DslPipelineError ResolvedPolicyAst
  | root, [] => resolveRoot root
  | policy, parent :: rest =>
    (resolveChain parent rest).bind fun resolved =>
      mergePolicy resolved policy.ast policy.sourceId

/-- What a resolution gives back is right: the fold of the chain, or a true extend error. -/
def ResolvesTo (policy : LoadedPolicy) (ancestors : List LoadedPolicy)
    (result : Except DslPipelineError ResolvedPolicyAst) : Prop :=
  match result with
  | .ok resolved => Composed policy ancestors resolved ∧ ¬ ExtendsUndefined (policy :: ancestors)
  | .error error => IsExtendError error ∧ ExtendsUndefined (policy :: ancestors)

theorem extendsUndefined_cons {policy : LoadedPolicy} {ancestors : List LoadedPolicy} :
    ExtendsUndefined (policy :: ancestors) ↔
      (∃ phase ∈ policy.ast.phases, phase.extend = true ∧ phase.name ∉ chainNames ancestors) ∨
      ExtendsUndefined ancestors := by
  unfold ExtendsUndefined
  constructor
  · rintro ⟨p, rest, hsuffix, phase, hphase, hext, hno⟩
    rcases List.suffix_cons_iff.mp hsuffix with heq | hsuffix
    · obtain ⟨rfl, rfl⟩ := List.cons.inj heq
      refine .inl ⟨phase, hphase, hext, ?_⟩
      rintro hmem
      obtain ⟨q, hq, hqname⟩ := mem_chainNames.mp hmem
      exact hno q hq hqname
    · exact .inr ⟨p, rest, hsuffix, phase, hphase, hext, hno⟩
  · rintro (⟨phase, hphase, hext, hno⟩ | ⟨p, rest, hsuffix, hrest⟩)
    · refine ⟨policy, ancestors, List.suffix_refl _, phase, hphase, hext, ?_⟩
      intro q hq hqname
      exact hno (mem_chainNames.mpr ⟨q, hq, hqname⟩)
    · exact ⟨p, rest, hsuffix.trans (List.suffix_cons _ _), hrest⟩

theorem not_extendsUndefined_nil : ¬ ExtendsUndefined [] := by
  rintro ⟨_, _, hsuffix, _⟩
  simp at hsuffix

theorem resolveRoot_resolvesTo {root : LoadedPolicy} (hnd : root.ast.phaseNames.Nodup) :
    ResolvesTo root [] (resolveRoot root) := by
  unfold resolveRoot rejectUnresolvedPhaseExtends
  cases hfind : root.ast.phases.find? (·.extend) with
  | some phase =>
    refine ⟨⟨phase.name, .inr rfl⟩, extendsUndefined_cons.mpr (.inl ?_)⟩
    exact ⟨phase, List.mem_of_find?_eq_some hfind, List.find?_some hfind, List.not_mem_nil⟩
  | none =>
    have hext : ∀ phase ∈ root.ast.phases, phase.extend = false := by
      simpa using hfind
    refine ⟨⟨?_, ?_, rfl, rfl⟩, ?_⟩
    · simp [chainNames]
    · intro phase hphase
      have hsame : clearExtend phase = phase := by
        simp only [clearExtend, ← hext phase hphase]
      have hcomp := ComposedOf.define [] root.sourceId (hext phase hphase)
      rw [hsame] at hcomp
      refine ⟨(root.sourceId, phase), [], ?_, rfl⟩
      simpa [definitions, PolicyAst.definition_of_mem hnd hphase] using hcomp
    · intro hundef
      rcases extendsUndefined_cons.mp hundef with ⟨phase, hphase, htrue, _⟩ | hundef
      · rw [hext phase hphase] at htrue
        cases htrue
      · exact not_extendsUndefined_nil hundef

theorem mergePolicy_resolvesTo {child parent : LoadedPolicy} {rest : List LoadedPolicy}
    {resolved : ResolvedPolicyAst} (hresolved : Composed parent rest resolved)
    (hdefined : ¬ ExtendsUndefined (parent :: rest))
    (hnd : ∀ p ∈ child :: parent :: rest, p.ast.phaseNames.Nodup) :
    ResolvesTo child (parent :: rest) (mergePolicy resolved child.ast child.sourceId) := by
  have hchild := hnd child List.mem_cons_self
  have hparent := hresolved.nodup_names fun p hp => hnd p (List.mem_cons_of_mem _ hp)
  rw [mergePolicy_eq _ hparent hchild]
  cases hfind : (newPhases resolved child.ast).find? (·.extend) with
  | some phase =>
    obtain ⟨hmem, hnew⟩ := mem_newPhases.mp (List.mem_of_find?_eq_some hfind)
    rw [hresolved.names] at hnew
    refine ⟨⟨phase.name, .inl rfl⟩, extendsUndefined_cons.mpr (.inl ?_)⟩
    exact ⟨phase, hmem, List.find?_some hfind, hnew⟩
  | none =>
    have hext : ∀ phase ∈ newPhases resolved child.ast, phase.extend = false := by
      simpa using hfind
    refine ⟨mergeResult_composed hresolved hchild hext, ?_⟩
    intro hundef
    rcases extendsUndefined_cons.mp hundef with ⟨phase, hphase, htrue, hnew⟩ | hundef
    · have hfalse := hext phase (mem_newPhases.mpr ⟨hphase, hresolved.names ▸ hnew⟩)
      rw [hfalse] at htrue
      cases htrue
    · exact hdefined hundef

theorem resolveChain_resolvesTo (policy : LoadedPolicy) (ancestors : List LoadedPolicy)
    (hnd : ∀ p ∈ policy :: ancestors, p.ast.phaseNames.Nodup) :
    ResolvesTo policy ancestors (resolveChain policy ancestors) := by
  induction ancestors generalizing policy with
  | nil => exact resolveRoot_resolvesTo (hnd policy List.mem_cons_self)
  | cons parent rest ih =>
    have hparent := ih parent fun p hp => hnd p (List.mem_cons_of_mem _ hp)
    unfold resolveChain
    cases hresult : resolveChain parent rest with
    | error e =>
      rw [hresult] at hparent
      exact ⟨hparent.1, extendsUndefined_cons.mpr (.inr hparent.2)⟩
    | ok resolved =>
      rw [hresult] at hparent
      exact mergePolicy_resolvesTo hparent.1 hparent.2 hnd

/-! ## Reading the chain -/

/-- What reading a source gives, cycles apart. -/
def Reads (env : PolicyEnv) (policy : LoadedPolicy) : Prop :=
  match policy.sourceId with
  | .inline => policy.baseDir = none
  | .bundled name => loadBundledPolicy env name [] = .ok (policy, [.bundled name])
  | .file path => loadFilePath env path [] = .ok (policy, [.file path])

/-- The policies that the `extends` clauses of a policy lead to, up to one without. -/
inductive Ancestry (env : PolicyEnv) (allowFiles : AllowFiles) :
    LoadedPolicy → List LoadedPolicy → Prop where
  | root {policy : LoadedPolicy} (h : policy.ast.extendsSource = none) :
      Ancestry env allowFiles policy []
  | child {policy parent : LoadedPolicy} {source : ExtendsSource} {stack : List PolicySourceId}
      {rest : List LoadedPolicy} (h : policy.ast.extendsSource = some source)
      (hload : loadParent env allowFiles policy.baseDir [] source = .ok (parent, stack))
      (hrest : Ancestry env allowFiles parent rest) :
      Ancestry env allowFiles policy (parent :: rest)

theorem pushSource_of_notMem {sourceId : PolicySourceId} {stack : List PolicySourceId}
    (h : sourceId ∉ stack) : pushSource sourceId stack = .ok (stack ++ [sourceId]) := by
  simp [pushSource, h]

section Reading

variable {env : PolicyEnv} {allowFiles : AllowFiles}

theorem loadFilePath_eq {path : Path} {stack : List PolicySourceId} (h : .file path ∉ stack) :
    loadFilePath env path stack =
      (loadFilePath env path []).map fun loaded => (loaded.1, stack ++ [.file path]) := by
  have hnil : PolicySourceId.file path ∉ [] := List.not_mem_nil
  simp only [loadFilePath, pushSource_of_notMem h, pushSource_of_notMem hnil, bind, Except.bind]
  cases (env.readToString path) with
  | error e => rfl
  | ok source =>
    simp only [Except.mapError]
    cases parseSource env source with
    | error e => rfl
    | ok ast => rfl

theorem loadBundledPolicy_eq {name : String} {stack : List PolicySourceId}
    (h : .bundled name ∉ stack) :
    loadBundledPolicy env name stack =
      (loadBundledPolicy env name []).map fun loaded => (loaded.1, stack ++ [.bundled name]) := by
  have hnil : PolicySourceId.bundled name ∉ [] := List.not_mem_nil
  simp only [loadBundledPolicy, pushSource_of_notMem h, pushSource_of_notMem hnil, bind,
    Except.bind]
  cases env.bundledPolicy name with
  | none => rfl
  | some source =>
    simp only
    cases parseSource env source with
    | error e => rfl
    | ok ast => rfl

theorem loadFilePath_reads {path : Path} {policy : LoadedPolicy} {stack : List PolicySourceId}
    (h : loadFilePath env path [] = .ok (policy, stack)) :
    policy.sourceId = .file path ∧ stack = [.file path] := by
  have hreads : Lib.Yields (fun loaded => loaded.1.sourceId = .file path ∧ loaded.2 = [.file path])
      (loadFilePath env path []) := by
    unfold loadFilePath
    rw [pushSource_of_notMem List.not_mem_nil, Lib.ok_bind]
    exact .step fun source => .step fun ast => .pure ⟨rfl, rfl⟩
  exact hreads _ h

theorem loadBundledPolicy_reads {name : String} {policy : LoadedPolicy}
    {stack : List PolicySourceId} (h : loadBundledPolicy env name [] = .ok (policy, stack)) :
    policy.sourceId = .bundled name ∧ stack = [.bundled name] := by
  have hreads : Lib.Yields (fun loaded => loaded.1.sourceId = .bundled name ∧
      loaded.2 = [.bundled name]) (loadBundledPolicy env name []) := by
    unfold loadBundledPolicy
    rw [pushSource_of_notMem List.not_mem_nil, Lib.ok_bind]
    dsimp only
    split <;> exact .step fun source => .step fun ast => .pure ⟨rfl, rfl⟩
  exact hreads _ h

/-- A parent is read from a file or a bundled text, whatever is on the stack besides. -/
theorem loadParent_ok {baseDir : Option Path} {source : ExtendsSource} {parent : LoadedPolicy}
    {stack : List PolicySourceId}
    (h : loadParent env allowFiles baseDir [] source = .ok (parent, stack)) :
    Reads env parent ∧ parent.sourceId ≠ .inline ∧
      ∀ stack, parent.sourceId ∉ stack →
        loadParent env allowFiles baseDir stack source =
          .ok (parent, stack ++ [parent.sourceId]) := by
  cases source with
  | bundled name =>
    simp only [loadParent] at h ⊢
    split at h
    · cases h
    · next huri =>
      obtain ⟨hid, rfl⟩ := loadBundledPolicy_reads h
      refine ⟨?_, ?_, ?_⟩
      · simpa [Reads, hid] using h
      · rw [hid]
        nofun
      · intro stack hstack
        rw [if_neg huri, loadBundledPolicy_eq (hid ▸ hstack), h, hid]
        rfl
  | file uri =>
    simp only [loadParent] at h ⊢
    split at h
    · cases h
    · next hallow =>
      cases hpath : resolveFileUri env uri baseDir with
      | error e => simp [hpath, bind, Except.bind] at h
      | ok path =>
        simp only [hpath, bind, Except.bind] at h
        obtain ⟨hid, rfl⟩ := loadFilePath_reads h
        refine ⟨?_, ?_, ?_⟩
        · simpa [Reads, hid] using h
        · rw [hid]
          nofun
        · intro stack hstack
          simp only [hallow, ↓reduceIte, bind, Except.bind]
          rw [loadFilePath_eq (hid ▸ hstack), h, hid]
          rfl

/-- A source that is not inline determines the policy read from it. -/
theorem Reads.unique {p q : LoadedPolicy} (hp : Reads env p) (hq : Reads env q)
    (hid : p.sourceId = q.sourceId) (hinline : q.sourceId ≠ .inline) : p = q := by
  unfold Reads at hp hq
  rw [hid] at hp
  cases hsource : q.sourceId with
  | inline => exact absurd hsource hinline
  | bundled name =>
    simp only [hsource] at hp hq
    have := hp.symm.trans hq
    simpa using this
  | file path =>
    simp only [hsource] at hp hq
    have := hp.symm.trans hq
    simpa using this

namespace Ancestry

theorem unique {policy : LoadedPolicy} {xs ys : List LoadedPolicy}
    (hx : Ancestry env allowFiles policy xs) (hy : Ancestry env allowFiles policy ys) :
    xs = ys := by
  induction hx generalizing ys with
  | root h =>
    cases hy with
    | root => rfl
    | child h' => simp [h] at h'
  | child h hload hrest ih =>
    cases hy with
    | root h' => simp [h] at h'
    | child h' hload' hrest' =>
      rw [h, Option.some.injEq] at h'
      subst h'
      rw [hload] at hload'
      simp only [Except.ok.injEq, Prod.mk.injEq] at hload'
      obtain ⟨rfl, _⟩ := hload'
      rw [ih hrest']

/-- Every ancestor was read, and its own ancestors are those behind it. -/
theorem of_mem {policy : LoadedPolicy} {ancestors : List LoadedPolicy}
    (h : Ancestry env allowFiles policy ancestors) {q : LoadedPolicy} (hq : q ∈ ancestors) :
    Reads env q ∧ q.sourceId ≠ .inline ∧
      ∃ rest, Ancestry env allowFiles q rest ∧ rest.length < ancestors.length := by
  induction h with
  | root => cases hq
  | child h hload hrest ih =>
    obtain ⟨hreads, hinline, _⟩ := loadParent_ok hload
    rcases List.mem_cons.mp hq with rfl | hq
    · exact ⟨hreads, hinline, _, hrest, Nat.lt_succ_self _⟩
    · obtain ⟨hreads, hinline, tail, htail, hlt⟩ := ih hq
      exact ⟨hreads, hinline, tail, htail, Nat.lt_succ_of_lt hlt⟩

/-- No policy is among its own ancestors: its chain would never end. -/
theorem sourceId_notMem {policy : LoadedPolicy} {ancestors : List LoadedPolicy}
    (h : Ancestry env allowFiles policy ancestors) (hreads : Reads env policy) :
    policy.sourceId ∉ ancestors.map (·.sourceId) := by
  intro hmem
  obtain ⟨q, hq, hid⟩ := List.mem_map.mp hmem
  obtain ⟨hq, hinline, rest, hrest, hlt⟩ := h.of_mem hq
  have heq : policy = q := hreads.unique hq hid.symm hinline
  subst heq
  rw [hrest.unique h] at hlt
  exact Nat.lt_irrefl _ hlt

/-- With fuel for the whole chain, `resolve_ast` resolves the chain. -/
theorem resolveAst_eq {policy : LoadedPolicy} {ancestors : List LoadedPolicy}
    (h : Ancestry env allowFiles policy ancestors) {fuel : Nat} (hfuel : ancestors.length < fuel)
    {stack : List PolicySourceId} (hstack : ∀ q ∈ ancestors, q.sourceId ∉ stack) :
    resolveAst env allowFiles fuel policy stack = some (resolveChain policy ancestors) := by
  induction h generalizing fuel stack with
  | root h =>
    cases fuel with
    | zero => exact absurd hfuel (Nat.not_lt_zero _)
    | succ fuel => simp [resolveAst, h, resolveChain]
  | @child policy parent source _ rest h hload hrest ih =>
    cases fuel with
    | zero => exact absurd hfuel (Nat.not_lt_zero _)
    | succ fuel =>
      obtain ⟨hreads, _, hany⟩ := loadParent_ok hload
      have hparent := hany stack (hstack parent List.mem_cons_self)
      have hfresh := hrest.sourceId_notMem hreads
      have hnext : ∀ q ∈ rest, q.sourceId ∉ stack ++ [parent.sourceId] := by
        intro q hq hmem
        rcases List.mem_append.mp hmem with hmem | hmem
        · exact hstack q (List.mem_cons_of_mem _ hq) hmem
        · rw [List.mem_singleton] at hmem
          exact hfresh (hmem ▸ List.mem_map_of_mem hq)
      simp only [resolveAst, h, hparent, ih (Nat.lt_of_succ_lt_succ hfuel) hnext,
        Option.map_some, resolveChain]

end Ancestry

end Reading

/-! ## The entry points -/

/-- What resolution starts from: a file, or a text in memory. -/
inductive PolicyInput where
  | file (path : String)
  | text (source : String)

def resolvePolicy (env : PolicyEnv) (fuel : Nat) :
    PolicyInput → Option (Except DslPipelineError ResolvedPolicyAst)
  | .file path => resolvePolicyFile env fuel path
  | .text source => resolvePolicyWithBundled env fuel source

/-- The policy an input holds, and whether it may extend files. -/
inductive Opens (env : PolicyEnv) : PolicyInput → AllowFiles → LoadedPolicy → Prop where
  | file {path : String} {canonical : Path} {policy : LoadedPolicy}
      {stack : List PolicySourceId} (hpath : canonicalizeExistingPath env path = .ok canonical)
      (hload : loadFilePath env canonical [] = .ok (policy, stack)) :
      Opens env (.file path) .yes policy
  | text {source : String} {ast : PolicyAst} (hparse : parseSource env source = .ok ast) :
      Opens env (.text source) .no { sourceId := .inline, ast, baseDir := none }

theorem resolvePolicy_eq {env : PolicyEnv} {input : PolicyInput} {allowFiles : AllowFiles}
    {policy : LoadedPolicy} {ancestors : List LoadedPolicy}
    (hopens : Opens env input allowFiles policy)
    (hchain : Ancestry env allowFiles policy ancestors) {fuel : Nat}
    (hfuel : ancestors.length < fuel) :
    resolvePolicy env fuel input = some (resolveChain policy ancestors) := by
  cases hopens with
  | file hpath hload =>
    obtain ⟨hid, rfl⟩ := loadFilePath_reads hload
    have hreads : Reads env policy := by simpa [Reads, hid] using hload
    have hfresh := hchain.sourceId_notMem hreads
    simp only [resolvePolicy, resolvePolicyFile, hpath, hload]
    apply hchain.resolveAst_eq hfuel
    intro q hq hmem
    rw [List.mem_singleton, ← hid] at hmem
    exact hfresh (hmem ▸ List.mem_map_of_mem hq)
  | text hparse =>
    simp only [resolvePolicy, resolvePolicyWithBundled, hparse]
    exact hchain.resolveAst_eq hfuel fun _ _ => List.not_mem_nil

/-- Along every chain of parents, resolution ends and is the fold of the chain: one phase for
each name, made of its definitions as `ComposedOf` says, in the order and with the provenance
that `Composed` says. It fails exactly when a policy extends a phase no ancestor has, and then
with an error that says so. -/
theorem resolution_folds_chain {env : PolicyEnv} {input : PolicyInput} {allowFiles : AllowFiles}
    {policy : LoadedPolicy} {ancestors : List LoadedPolicy}
    (hopens : Opens env input allowFiles policy)
    (hchain : Ancestry env allowFiles policy ancestors)
    (hnames : ∀ p ∈ policy :: ancestors, p.ast.phaseNames.Nodup) {fuel : Nat}
    (hfuel : ancestors.length < fuel) :
    ∃ result, resolvePolicy env fuel input = some result ∧
      (∀ resolved, result = .ok resolved →
        resolved.ast.phaseNames.Nodup ∧
        (∀ name, name ∈ resolved.ast.phaseNames ↔
          ∃ p ∈ policy :: ancestors, name ∈ p.ast.phaseNames) ∧
        Composed policy ancestors resolved) ∧
      (∀ error, result = .error error → IsExtendError error) ∧
      ((∃ error, result = .error error ∧ IsExtendError error) ↔
        ExtendsUndefined (policy :: ancestors)) := by
  refine ⟨resolveChain policy ancestors, resolvePolicy_eq hopens hchain hfuel, ?_⟩
  have hresult := resolveChain_resolvesTo policy ancestors hnames
  cases heq : resolveChain policy ancestors with
  | ok resolved =>
    rw [heq] at hresult
    obtain ⟨hcomposed, hdefined⟩ := hresult
    refine ⟨?_, (fun _ h => by cases h), ?_⟩
    · rintro _ ⟨rfl⟩
      refine ⟨hcomposed.nodup_names hnames, ?_, hcomposed⟩
      intro name
      rw [hcomposed.names, mem_chainNames]
    · constructor
      · rintro ⟨_, h, _⟩
        cases h
      · exact fun h => absurd h hdefined
  | error error =>
    rw [heq] at hresult
    obtain ⟨hextend, hundefined⟩ := hresult
    refine ⟨(fun _ h => by cases h), ?_, ?_⟩
    · rintro _ ⟨rfl⟩
      exact hextend
    · exact ⟨fun _ => hundefined, fun _ => ⟨error, rfl, hextend⟩⟩

def baseText : String := "policy \"base\" \x7b phase tidy \x7b container mkv \x7d \x7d"

def midText : String :=
  "policy \"mid\" extends \"file:///p/base.voom\" \x7b phase tidy \x7b extend clear_tags \x7d \x7d"

def topText : String :=
  "policy \"top\" extends \"file://mid.voom\" \x7b phase name \x7b clear_tags \x7d " ++
    "phase tidy \x7b extend clear_tags \x7d \x7d"

def basePolicy : PolicyAst where
  name := "base"
  phases := [
    { name := "tidy"
      operations := [⟨.container "mkv", ⟨29, 42, 1, 30⟩⟩]
      span := ⟨16, 44, 1, 17⟩ }]
  span := ⟨0, 46, 1, 1⟩

def midPolicy : PolicyAst where
  name := "mid"
  extendsSource := some (.file "file:///p/base.voom")
  phases := [
    { name := "tidy"
      extend := true
      operations := [⟨.clearTags, ⟨65, 75, 1, 66⟩⟩]
      span := ⟨45, 77, 1, 46⟩ }]
  span := ⟨0, 79, 1, 1⟩

def topPolicy : PolicyAst where
  name := "top"
  extendsSource := some (.file "file://mid.voom")
  phases := [
    { name := "name"
      operations := [⟨.clearTags, ⟨54, 64, 1, 55⟩⟩]
      span := ⟨41, 66, 1, 42⟩ },
    { name := "tidy"
      extend := true
      operations := [⟨.clearTags, ⟨87, 97, 1, 88⟩⟩]
      span := ⟨67, 99, 1, 68⟩ }]
  span := ⟨0, 101, 1, 1⟩

/-- A directory `/p` with the three policies. -/
def threeFiles : PolicyEnv where
  parsePolicy source :=
    if source = baseText then .ok basePolicy
    else if source = midText then .ok midPolicy
    else if source = topText then .ok topPolicy
    else .error (.parse 1 1 "expected policy" none)
  bundledPolicy _ := none
  readToString path :=
    if path = ⟨["p", "base.voom"]⟩ then .ok baseText
    else if path = ⟨["p", "mid.voom"]⟩ then .ok midText
    else if path = ⟨["p", "top.voom"]⟩ then .ok topText
    else .error "No such file or directory (os error 2)"
  canonicalize path :=
    if path = "/p/base.voom" then .ok ⟨["p", "base.voom"]⟩
    else if path = "/p/mid.voom" then .ok ⟨["p", "mid.voom"]⟩
    else if path = "/p/top.voom" then .ok ⟨["p", "top.voom"]⟩
    else .error "No such file or directory (os error 2)"

def threeFilesTop : LoadedPolicy := ⟨.file ⟨["p", "top.voom"]⟩, topPolicy, some ⟨["p"]⟩⟩

def threeFilesAncestors : List LoadedPolicy :=
  [⟨.file ⟨["p", "mid.voom"]⟩, midPolicy, some ⟨["p"]⟩⟩,
    ⟨.file ⟨["p", "base.voom"]⟩, basePolicy, some ⟨["p"]⟩⟩]

theorem threeFiles_opens : Opens threeFiles (.file "/p/top.voom") .yes threeFilesTop :=
  .file rfl rfl

theorem threeFiles_ancestry : Ancestry threeFiles .yes threeFilesTop threeFilesAncestors :=
  .child rfl rfl (.child rfl rfl (.root rfl))

theorem threeFiles_composed :
    ∃ resolved, resolvePolicy threeFiles 3 (.file "/p/top.voom") = some (.ok resolved) ∧
      Composed threeFilesTop threeFilesAncestors resolved := by
  have hnames : ∀ p ∈ threeFilesTop :: threeFilesAncestors, p.ast.phaseNames.Nodup := by
    decide
  obtain ⟨result, hresult, hok, _, _⟩ :=
    resolution_folds_chain threeFiles_opens threeFiles_ancestry hnames (by decide : _ < 3)
  have hisOk : (resolvePolicy threeFiles 3 (.file "/p/top.voom")).map (·.isOk) = some true := rfl
  rw [hresult, Option.map_some, Option.some.injEq] at hisOk
  cases result with
  | error e => cases hisOk
  | ok resolved => exact ⟨resolved, hresult, (hok resolved rfl).2.2⟩

end Voom.Dsl
