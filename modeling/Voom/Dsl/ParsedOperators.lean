-- SUMMARY: The operators that the parser lets through for languages and codecs.
import Voom.Dsl.Guards
import Voom.Dsl.Parser

/-!
# Parsed operators

The grammar has one rule for the operators of all comparisons. Of a language or a codec the
parser keeps only equality and its negation, whatever tree the grammar gives it.
-/

namespace Voom.Dsl

open Lib

/-- Languages and codecs are only compared for equality. -/
def TextOperators (comparisons : List (Compared × CompareOp)) : Prop :=
  ∀ c ∈ comparisons, c.1 = .lang ∨ c.1 = .codec → c.2 = .eq ∨ c.2 = .ne

theorem textOperators_nil : TextOperators [] := fun _ h => absurd h List.not_mem_nil

theorem textOperators_append {xs ys : List (Compared × CompareOp)} :
    TextOperators (xs ++ ys) ↔ TextOperators xs ∧ TextOperators ys := by
  unfold TextOperators
  rw [List.forall_mem_append]

theorem textOperators_singleton {compared : Compared} {op : CompareOp} :
    TextOperators [(compared, op)] ↔
      (compared = .lang ∨ compared = .codec → op = .eq ∨ op = .ne) := by
  simp [TextOperators]

section

variable {env : ParseEnv}

/-! ## Filters -/

/-- What is left of a filter on a language or a codec. -/
theorem buildListOrCompareFilter_operators (inner : List Pair) (span : Span) (kind : String) :
    Yields (fun built => TextOperators built.lang.comparisons ∧ TextOperators built.codec.comparisons)
      (buildListOrCompareFilter inner span kind) := by
  unfold buildListOrCompareFilter
  refine .step fun next => ?_
  split
  · exact .step fun items => .pure ⟨textOperators_nil, textOperators_nil⟩
  · refine .step fun op => .step fun val => ?_
    split
    · split
      · refine .pure ?_
        simp [ListOrCompare.lang, ListOrCompare.codec, FilterNode.comparisons,
          textOperators_singleton]
      · refine .pure ?_
        simp [ListOrCompare.lang, ListOrCompare.codec, FilterNode.comparisons,
          textOperators_singleton]
      · exact .error _
    · refine .step fun text => ?_
      split
      · exact .pure ⟨textOperators_nil, textOperators_nil⟩
      · exact .pure ⟨textOperators_nil, textOperators_nil⟩
      · refine .pure ?_
        simp [ListOrCompare.lang, ListOrCompare.codec, FilterNode.comparisons,
          textOperators_singleton]
      · exact .error _

theorem buildFilterKeyword_operators {text : String} {span : Span} {inner : List Pair}
    {built : Except ParseFailure FilterNode}
    (hbuilt : buildFilterKeyword env text span inner = some built) :
    Yields (fun node => TextOperators node.comparisons) built := by
  unfold buildFilterKeyword at hbuilt
  split at hbuilt
  case h_10 => cases hbuilt
  all_goals obtain rfl := Option.some.inj hbuilt
  · refine .map fun built h => ?_
    exact (buildListOrCompareFilter_operators inner span "lang" built h).1
  · refine .map fun built h => ?_
    exact (buildListOrCompareFilter_operators inner span "codec" built h).2
  · refine .step fun op => .step fun op => .step fun num => .pure ?_
    simp [FilterNode.comparisons, textOperators_singleton]
  · exact .ok textOperators_nil
  · exact .ok textOperators_nil
  · exact .ok textOperators_nil
  · exact .ok textOperators_nil
  · refine .step fun pattern => .pure ?_
    split <;> exact textOperators_nil
  · refine .step fun pattern => .pure ?_
    split <;> exact textOperators_nil

theorem filterAtom_operators {text : String} {span : Span} {inner : List Pair} {depth : Nat}
    {parenthesized : Except ParseFailure FilterNode}
    (hinside : Yields (fun node => TextOperators node.comparisons) parenthesized) :
    Yields (fun node => TextOperators node.comparisons)
      (filterAtom env text span inner depth parenthesized) := by
  unfold filterAtom
  split
  · rename_i built hbuilt
    exact buildFilterKeyword_operators hbuilt
  · split
    · split
      · exact .error _
      · exact hinside
    · exact .error _

mutual

theorem buildFilter_operators : (pair : Pair) → (depth : Nat) →
    Yields (fun node => TextOperators node.comparisons) (buildFilter env pair depth)
  | .mk _ _ _ (inner :: _), depth => by
    rw [buildFilter]
    exact buildFilterOr_operators inner depth
  | .mk _ _ _ [], _ => by
    rw [buildFilter]
    exact .error _

theorem buildFilterOr_operators : (pair : Pair) → (depth : Nat) →
    Yields (fun node => TextOperators node.comparisons) (buildFilterOr env pair depth)
  | .mk _ _ _ [part], depth => by
    rw [buildFilterOr]
    exact buildFilterAnd_operators part depth
  | .mk _ _ _ [], depth | .mk _ _ _ (_ :: _ :: _), depth => by
    refine (buildFilterAnds_operators _ depth).bind fun nodes hnodes => ?_
    exact .pure hnodes

theorem buildFilterAnds_operators : (pairs : List Pair) → (depth : Nat) →
    Yields (fun nodes => TextOperators (filterComparisons nodes)) (buildFilterAnds env pairs depth)
  | [], _ => .ok textOperators_nil
  | part :: rest, depth => by
    refine (buildFilterAnd_operators part depth).bind fun node hnode => ?_
    refine (buildFilterAnds_operators rest depth).bind fun others hothers => ?_
    exact .pure (textOperators_append.mpr ⟨hnode, hothers⟩)

theorem buildFilterAnd_operators : (pair : Pair) → (depth : Nat) →
    Yields (fun node => TextOperators node.comparisons) (buildFilterAnd env pair depth)
  | .mk _ _ _ [part], depth => by
    rw [buildFilterAnd]
    exact buildFilterNot_operators part depth
  | .mk _ _ _ [], depth | .mk _ _ _ (_ :: _ :: _), depth => by
    refine (buildFilterNots_operators _ depth).bind fun nodes hnodes => ?_
    exact .pure hnodes

theorem buildFilterNots_operators : (pairs : List Pair) → (depth : Nat) →
    Yields (fun nodes => TextOperators (filterComparisons nodes)) (buildFilterNots env pairs depth)
  | [], _ => .ok textOperators_nil
  | part :: rest, depth => by
    refine (buildFilterNot_operators part depth).bind fun node hnode => ?_
    refine (buildFilterNots_operators rest depth).bind fun others hothers => ?_
    exact .pure (textOperators_append.mpr ⟨hnode, hothers⟩)

theorem buildFilterNot_operators : (pair : Pair) → (depth : Nat) →
    Yields (fun node => TextOperators node.comparisons) (buildFilterNot env pair depth)
  | .mk _ _ _ (inner :: _), depth => by
    rw [buildFilterNot]
    split
    · refine (buildFilterAtom_operators inner depth).bind fun atom hatom => ?_
      exact .pure hatom
    · exact buildFilterAtom_operators inner depth
  | .mk _ _ _ [], _ => by
    rw [buildFilterNot]
    exact .error _

theorem buildFilterAtom_operators : (pair : Pair) → (depth : Nat) →
    Yields (fun node => TextOperators node.comparisons) (buildFilterAtom env pair depth)
  | .mk _ _ _ (filter :: _), depth => by
    rw [buildFilterAtom]
    exact filterAtom_operators (buildFilter_operators filter (depth + 1))
  | .mk _ _ _ [], _ => by
    rw [buildFilterAtom]
    exact filterAtom_operators (.error _)

end

/-! ## Conditions -/

theorem buildTrackQuery_operators (pair : Pair) :
    Yields (fun query => TextOperators (queryComparisons query.filter)) (buildTrackQuery env pair) := by
  unfold buildTrackQuery
  refine .step fun found => ?_
  obtain ⟨target, child⟩ := found
  cases child with
  | none => exact .pure textOperators_nil
  | some child =>
    simp only
    split
    · refine (buildFilter_operators child 0).bind fun filter hfilter => ?_
      exact .pure hfilter
    · exact .pure textOperators_nil

theorem buildConditionKeyword_operators {text : String} {inner : List Pair}
    {built : Except ParseFailure ConditionNode}
    (hbuilt : buildConditionKeyword env text inner = some built) :
    Yields (fun node => TextOperators node.comparisons) built := by
  unfold buildConditionKeyword at hbuilt
  split at hbuilt
  case h_6 => cases hbuilt
  all_goals obtain rfl := Option.some.inj hbuilt
  · exact .ok textOperators_nil
  · exact .ok textOperators_nil
  · exact .ok textOperators_nil
  · refine .step fun pair => ?_
    refine (buildTrackQuery_operators pair).bind fun query hquery => ?_
    exact .pure hquery
  · refine .step fun pair => .step fun op => .step fun op => .step fun num => ?_
    refine (buildTrackQuery_operators pair).bind fun query hquery => ?_
    -- the operator of a count is not looked at
    exact .pure (textOperators_append.mpr ⟨hquery, by simp [textOperators_singleton]⟩)

theorem buildFieldCondition_operators (text : String) (inner : List Pair) :
    Yields (fun node => TextOperators node.comparisons) (buildFieldCondition env text inner) := by
  unfold buildFieldCondition
  refine .step fun first => ?_
  split
  · split
    · exact .pure textOperators_nil
    · split
      · refine .step fun op => .step fun val => .step fun value => .pure ?_
        simp [ConditionNode.comparisons, textOperators_singleton]
      · exact .pure textOperators_nil
  · exact .error _

theorem conditionAtom_operators {text : String} {span : Span} {inner : List Pair} {depth : Nat}
    {parenthesized : Except ParseFailure ConditionNode}
    (hinside : Yields (fun node => TextOperators node.comparisons) parenthesized) :
    Yields (fun node => TextOperators node.comparisons)
      (conditionAtom env text span inner depth parenthesized) := by
  unfold conditionAtom
  split
  · rename_i built hbuilt
    exact buildConditionKeyword_operators hbuilt
  · split
    · split
      · exact .error _
      · exact hinside
    · exact buildFieldCondition_operators text inner

mutual

theorem buildCondition_operators : (pair : Pair) → (depth : Nat) →
    Yields (fun node => TextOperators node.comparisons) (buildCondition env pair depth)
  | .mk _ _ _ (inner :: _), depth => by
    rw [buildCondition]
    exact buildConditionOr_operators inner depth
  | .mk _ _ _ [], _ => by
    rw [buildCondition]
    exact .error _

theorem buildConditionOr_operators : (pair : Pair) → (depth : Nat) →
    Yields (fun node => TextOperators node.comparisons) (buildConditionOr env pair depth)
  | .mk _ _ _ [part], depth => by
    rw [buildConditionOr]
    exact buildConditionAnd_operators part depth
  | .mk _ _ _ [], depth | .mk _ _ _ (_ :: _ :: _), depth => by
    refine (buildConditionAnds_operators _ depth).bind fun nodes hnodes => ?_
    exact .pure hnodes

theorem buildConditionAnds_operators : (pairs : List Pair) → (depth : Nat) →
    Yields (fun nodes => TextOperators (conditionComparisons nodes)) (buildConditionAnds env pairs depth)
  | [], _ => .ok textOperators_nil
  | part :: rest, depth => by
    refine (buildConditionAnd_operators part depth).bind fun node hnode => ?_
    refine (buildConditionAnds_operators rest depth).bind fun others hothers => ?_
    exact .pure (textOperators_append.mpr ⟨hnode, hothers⟩)

theorem buildConditionAnd_operators : (pair : Pair) → (depth : Nat) →
    Yields (fun node => TextOperators node.comparisons) (buildConditionAnd env pair depth)
  | .mk _ _ _ [part], depth => by
    rw [buildConditionAnd]
    exact buildConditionNot_operators part depth
  | .mk _ _ _ [], depth | .mk _ _ _ (_ :: _ :: _), depth => by
    refine (buildConditionNots_operators _ depth).bind fun nodes hnodes => ?_
    exact .pure hnodes

theorem buildConditionNots_operators : (pairs : List Pair) → (depth : Nat) →
    Yields (fun nodes => TextOperators (conditionComparisons nodes)) (buildConditionNots env pairs depth)
  | [], _ => .ok textOperators_nil
  | part :: rest, depth => by
    refine (buildConditionNot_operators part depth).bind fun node hnode => ?_
    refine (buildConditionNots_operators rest depth).bind fun others hothers => ?_
    exact .pure (textOperators_append.mpr ⟨hnode, hothers⟩)

theorem buildConditionNot_operators : (pair : Pair) → (depth : Nat) →
    Yields (fun node => TextOperators node.comparisons) (buildConditionNot env pair depth)
  | .mk _ _ _ (inner :: _), depth => by
    rw [buildConditionNot]
    split
    · refine (buildConditionAtom_operators inner depth).bind fun atom hatom => ?_
      exact .pure hatom
    · exact buildConditionAtom_operators inner depth
  | .mk _ _ _ [], _ => by
    rw [buildConditionNot]
    exact .error _

theorem buildConditionAtom_operators : (pair : Pair) → (depth : Nat) →
    Yields (fun node => TextOperators node.comparisons) (buildConditionAtom env pair depth)
  | .mk _ _ _ (condition :: _), depth => by
    rw [buildConditionAtom]
    exact conditionAtom_operators (buildCondition_operators condition (depth + 1))
  | .mk _ _ _ [], _ => by
    rw [buildConditionAtom]
    exact conditionAtom_operators (.error _)

end

/-! ## Operations -/

/-- All guards compare languages and codecs for equality only. -/
def TextGuards (guards : List GuardNode) : Prop := ∀ g ∈ guards, TextOperators g.comparisons

theorem textGuards_nil : TextGuards [] := fun _ h => absurd h List.not_mem_nil

theorem textGuards_append {xs ys : List GuardNode} :
    TextGuards (xs ++ ys) ↔ TextGuards xs ∧ TextGuards ys := List.forall_mem_append

theorem textGuards_singleton {guard : GuardNode} :
    TextGuards [guard] ↔ TextOperators guard.comparisons := List.forall_mem_singleton

theorem textGuards_flatMap {α : Type} {items : List α} {guards : α → List GuardNode}
    (h : ∀ item ∈ items, TextGuards (guards item)) : TextGuards (items.flatMap guards) := by
  intro g hg
  obtain ⟨item, hitem, hg⟩ := List.mem_flatMap.mp hg
  exact h item hitem g hg

/-- What a loop builds has such guards, if each round does. -/
theorem textGuards_of_mapM {β : Type} {f : Pair → Except ParseFailure β} {pairs : List Pair}
    {guards : β → List GuardNode}
    (hround : ∀ pair, Yields (fun result => TextGuards (guards result)) (f pair)) :
    Yields (fun results => TextGuards (results.flatMap guards)) (pairs.mapM f) :=
  fun results h => textGuards_flatMap (Yields.mapM hround results h)

theorem buildFilter_guards (pair : Pair) :
    Yields (fun filter => TextGuards (filterGuard (some filter))) (buildFilter env pair 0) :=
  fun filter h => textGuards_singleton.mpr (buildFilter_operators pair 0 filter h)

theorem buildKeepRemovePart_guards {parts : Option FilterNode × Option NormalizeSetting}
    (child : Pair) (hparts : TextGuards (filterGuard parts.1)) :
    Yields (fun parts => TextGuards (filterGuard parts.1)) (buildKeepRemovePart env parts child) := by
  unfold buildKeepRemovePart
  split
  · refine .step fun filterPair => ?_
    refine (buildFilter_guards filterPair).bind fun filter hfilter => ?_
    exact .pure hfilter
  · split
    · exact .step fun normalize => .pure hparts
    · exact .ok hparts

theorem buildKeepRemoveParts_guards (pair : Pair) :
    Yields (fun parts => TextGuards (filterGuard parts.2.1)) (buildKeepRemoveParts env pair) := by
  refine .step fun first => ?_
  refine .bind (Q := fun parts => TextGuards (filterGuard parts.1)) ?_ fun parts hparts => ?_
  · exact .foldlM textGuards_nil fun parts child hparts => buildKeepRemovePart_guards child hparts
  · exact .pure hparts

theorem buildTrackRef_guards (pair : Pair) :
    Yields (fun track => TextGuards (filterGuard track.filter)) (buildTrackRef env pair) := by
  refine .step fun target => ?_
  split
  · exact .pure textGuards_nil
  · refine (buildFilter_guards _).bind fun filter hfilter => ?_
    exact .pure hfilter

theorem buildKeywordAction_guards (pair : Pair) :
    Yields (fun action => TextGuards action.guards) (buildKeywordAction env pair) := by
  unfold buildKeywordAction
  simp only
  split
  · exact .ok textGuards_nil
  · exact .step fun message => .pure textGuards_nil
  · exact .step fun message => .pure textGuards_nil
  · refine .step fun first => (buildTrackRef_guards first).bind fun track htrack => ?_
    exact .pure htrack
  · refine .step fun first => (buildTrackRef_guards first).bind fun track htrack => ?_
    exact .pure htrack
  · refine .step fun first => (buildTrackRef_guards first).bind fun track htrack => ?_
    exact .step fun val => .pure htrack
  · exact .step fun tag => .step fun val => .step fun val => .pure textGuards_nil
  · exact .error _

theorem buildAction_guards (pair : Pair) :
    Yields (fun action => TextGuards action.guards) (buildAction env pair) := by
  unfold buildAction
  split
  · exact buildKeywordAction_guards pair
  · split
    · refine (buildKeepRemoveParts_guards _).bind fun parts hparts => ?_
      exact .pure hparts
    · split
      · refine (buildKeepRemoveParts_guards _).bind fun parts hparts => ?_
        exact .pure hparts
      · exact buildKeywordAction_guards pair

theorem textGuards_when {node : WhenNode} :
    TextGuards node.guards ↔ TextOperators node.condition.comparisons ∧
      TextGuards (node.thenActions.flatMap ActionNode.guards) ∧
      TextGuards (node.elseActions.flatMap ActionNode.guards) := by
  rw [WhenNode.guards, ← List.singleton_append, textGuards_append, textGuards_append,
    textGuards_singleton]
  rfl

theorem buildWhenChild_guards {node : WhenNode} (child : Pair) (hnode : TextGuards node.guards) :
    Yields (fun node => TextGuards node.guards) (buildWhenChild env node child) := by
  obtain ⟨hcondition, hthen, helse⟩ := textGuards_when.mp hnode
  unfold buildWhenChild
  split
  · refine (buildAction_guards child).bind fun action haction => .pure (textGuards_when.mpr ?_)
    refine ⟨hcondition, ?_, helse⟩
    rw [List.flatMap_append, textGuards_append]
    exact ⟨hthen, textGuards_flatMap (by simpa using haction)⟩
  · split
    · refine (textGuards_of_mapM buildAction_guards).bind fun actions hactions => ?_
      refine .pure (textGuards_when.mpr ⟨hcondition, hthen, ?_⟩)
      rw [List.flatMap_append, textGuards_append]
      exact ⟨helse, hactions⟩
    · exact .error _

theorem buildWhen_guards (pair : Pair) :
    Yields (fun node => TextGuards node.guards) (buildWhen env pair) := by
  refine .step fun first => ?_
  refine (buildCondition_operators first 0).bind fun condition hcondition => ?_
  refine .foldlM ?_ fun node child hnode => buildWhenChild_guards child hnode
  exact textGuards_when.mpr ⟨hcondition, textGuards_nil, textGuards_nil⟩

theorem buildRules_guards (pair : Pair) :
    Yields (fun node => TextGuards node.guards) (buildRules env pair) := by
  have hrule (item : Pair) :
      Yields (fun rule => TextGuards rule.when.guards) (buildRule env item) := by
    refine .step fun name => .step fun first => ?_
    refine (buildWhen_guards first).bind fun when hwhen => ?_
    exact .pure hwhen
  refine .step fun mode => (textGuards_of_mapM hrule).bind fun rules hrules => ?_
  exact .pure hrules

/-! ## Synthesized tracks -/

/-- The guards of one setting. -/
def SynthSetting.guards (setting : SynthSetting) : List GuardNode :=
  filterGuard setting.source? ++ filterGuard setting.skipIfExists? ++
    setting.createIf?.toList.map .condition

theorem buildSynthItem_guards (child : Pair) :
    Yields (fun setting => TextGuards setting.guards) (buildSynthItem env child) := by
  unfold buildSynthItem
  split
  · exact .step fun val => .pure textGuards_nil
  · exact .step fun val => .step fun val => .pure textGuards_nil
  · refine .step fun source => .step fun filterPair => ?_
    refine (buildFilter_guards filterPair).bind fun filter hfilter => ?_
    exact .pure hfilter
  · exact .step fun val => .pure textGuards_nil
  · refine .step fun filterPair => ?_
    refine (buildFilter_guards filterPair).bind fun filter hfilter => ?_
    exact .pure hfilter
  · refine .step fun first => ?_
    refine (buildCondition_operators first 0).bind fun condition hcondition => ?_
    exact .pure (textGuards_singleton.mpr hcondition)
  · exact .step fun val => .pure textGuards_nil
  · exact .step fun val => .pure textGuards_nil
  · exact .step fun val => .step fun val => .pure textGuards_nil
  · exact .step fun setting => .pure textGuards_nil
  · exact .error _

theorem lastSetting_mem {α : Type} {kind : SynthSetting → Option α}
    {settings : List SynthSetting} {a : α} (h : lastSetting kind settings = some a) :
    ∃ setting ∈ settings, kind setting = some a :=
  List.mem_filterMap.mp (List.mem_of_getLast? h)

/-- The guards of a synthesized track are guards of its settings. -/
theorem synthGuards_subset (settings : List SynthSetting) :
    synthGuards settings ⊆ settings.flatMap SynthSetting.guards := by
  have hfilter (kind : SynthSetting → Option FilterNode)
      (hkind : ∀ setting, filterGuard (kind setting) ⊆ setting.guards) :
      filterGuard (lastSetting kind settings) ⊆ settings.flatMap SynthSetting.guards := by
    intro g hg
    cases hlast : lastSetting kind settings with
    | none => simp [hlast, filterGuard] at hg
    | some filter =>
      obtain ⟨setting, hsetting, hfound⟩ := lastSetting_mem hlast
      apply List.mem_flatMap.mpr
      refine ⟨setting, hsetting, hkind setting ?_⟩
      rwa [hfound, ← hlast]
  intro g hg
  rcases List.mem_append.mp hg with hg | hg
  · rcases List.mem_append.mp hg with hg | hg
    · exact hfilter _ (fun setting g hg => by simp [SynthSetting.guards, hg]) hg
    · exact hfilter _ (fun setting g hg => by simp [SynthSetting.guards, hg]) hg
  · cases hlast : lastSetting SynthSetting.createIf? settings with
    | none => simp [hlast] at hg
    | some condition =>
      obtain ⟨setting, hsetting, hfound⟩ := lastSetting_mem hlast
      apply List.mem_flatMap.mpr
      refine ⟨setting, hsetting, List.mem_append_right _ ?_⟩
      rwa [hfound, ← hlast]

theorem buildSynthesize_guards (pair : Pair) :
    Yields (fun node => TextGuards node.guards) (buildSynthesize env pair) := by
  refine .step fun name => (textGuards_of_mapM buildSynthItem_guards).bind fun settings h => ?_
  exact .pure fun g hg => h g (synthGuards_subset settings hg)

theorem buildKeepRemove_guards (pair : Pair) (isKeep : Bool) :
    Yields (fun node => TextGuards node.guards) (buildKeepRemove env pair isKeep) := by
  refine (buildKeepRemoveParts_guards pair).bind fun parts hparts => .pure ?_
  cases isKeep with
  | true => exact hparts
  | false => exact hparts

theorem buildOperation_guards (child : Pair) :
    Yields (fun node => TextGuards node.guards) (buildOperation env child) := by
  unfold buildOperation
  split
  · exact .step fun ident => .pure textGuards_nil
  · exact buildKeepRemove_guards child true
  · exact buildKeepRemove_guards child false
  · exact .step fun list => .step fun items => .pure textGuards_nil
  · exact .step fun items => .pure textGuards_nil
  · exact .step fun target => .step fun settings => .pure textGuards_nil
  · exact .step fun codec => .step fun settings => .pure textGuards_nil
  · exact buildSynthesize_guards child
  · exact .ok textGuards_nil
  · exact .step fun tag => .step fun val => .step fun val => .pure textGuards_nil
  · exact .step fun tag => .pure textGuards_nil
  · refine (buildWhen_guards child).bind fun node hnode => ?_
    exact .pure hnode
  · exact buildRules_guards child
  · refine .step fun mode => ?_
    split
    · exact .pure textGuards_nil
    · exact .pure textGuards_nil
    · exact .pure textGuards_nil
    · exact .error _
  · exact .error _

/-! ## Policies -/

theorem buildPhaseItem_guards {phase : PhaseNode} (item : Pair)
    (hphase : TextGuards phase.guards) :
    Yields (fun phase => TextGuards phase.guards) (buildPhaseItem env phase item) := by
  obtain ⟨hskip, hoperations⟩ := textGuards_append.mp hphase
  unfold buildPhaseItem
  split
  · exact .ok hphase
  · split
    · exact .ok hphase
    · refine .step fun child => ?_
      split
      · refine .step fun first => ?_
        refine (buildCondition_operators first 0).bind fun condition hcondition => ?_
        exact .pure (textGuards_append.mpr ⟨textGuards_singleton.mpr hcondition, hoperations⟩)
      · exact .step fun list => .step fun names => .pure hphase
      · exact .step fun runIf => .pure hphase
      · exact .step fun token => .step fun strategy => .pure hphase
      · refine (buildOperation_guards child).bind fun node hnode => .pure ?_
        refine textGuards_append.mpr ⟨hskip, ?_⟩
        rw [List.flatMap_append, textGuards_append]
        exact ⟨hoperations, textGuards_flatMap (by simpa using hnode)⟩

theorem buildPhase_guards (pair : Pair) :
    Yields (fun phase => TextGuards phase.guards) (buildPhase env pair) := by
  refine .step fun name => ?_
  exact .foldlM textGuards_nil fun phase item hphase => buildPhaseItem_guards item hphase

theorem buildPolicyItem_guards {ast : PolicyAst} (item : Pair) (hast : TextGuards ast.guards) :
    Yields (fun ast => TextGuards ast.guards) (buildPolicyItem env ast item) := by
  unfold buildPolicyItem
  split
  · exact .step fun source => .pure hast
  · exact .step fun metadata => .pure hast
  · exact .step fun config => .pure hast
  · refine (buildPhase_guards item).bind fun phase hphase => .pure ?_
    change TextGuards ((ast.phases ++ [phase]).flatMap PhaseNode.guards)
    rw [List.flatMap_append, textGuards_append]
    exact ⟨hast, textGuards_flatMap (by simpa using hphase)⟩
  · exact .ok hast
  · exact .error _

/-- A parsed policy compares languages and codecs for equality only, whatever the grammar is. -/
theorem parsePolicy_guards {input : String} {ast : PolicyAst}
    (h : parsePolicy env input = .ok ast) : TextGuards ast.guards := by
  have hguards : Yields (fun ast => TextGuards ast.guards) (parsePolicy env input) := by
    unfold parsePolicy
    split
    · exact .error _
    · split
      · exact .error _
      · refine .step fun name => ?_
        exact .foldlM textGuards_nil fun ast item hast => buildPolicyItem_guards item hast
  exact hguards ast h

end

end Voom.Dsl
