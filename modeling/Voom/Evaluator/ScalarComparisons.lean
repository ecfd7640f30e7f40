-- SUMMARY: Which operators reach the comparison functions from the filters and conditions of a compiled policy.
import Voom.Evaluator.Comparisons

/-!
# Scalar comparisons

The comparison of doubles counts on `in` being handled before it. For fields it is: a list on
the right is looked through. The numbers of channels and of tracks are compared with whatever
operator the grammar admits, and it admits `in` everywhere.
-/

namespace Voom

open Lib

/-! ## The parts of a guard -/

namespace Dsl

mutual

/-- A filter and the filters inside. -/
def CompiledFilter.parts : CompiledFilter → List CompiledGuard
  | .and items => .filter (.and items) :: compiledFilterParts items
  | .or items => .filter (.or items) :: compiledFilterParts items
  | .not inner => .filter (.not inner) :: inner.parts
  | .langIn languages => [.filter (.langIn languages)]
  | .langCompare op language => [.filter (.langCompare op language)]
  | .langField op path => [.filter (.langField op path)]
  | .codecIn codecs => [.filter (.codecIn codecs)]
  | .codecCompare op codec => [.filter (.codecCompare op codec)]
  | .codecField op path => [.filter (.codecField op path)]
  | .channels op n => [.filter (.channels op n)]
  | .commentary => [.filter .commentary]
  | .forced => [.filter .forced]
  | .default => [.filter .default]
  | .font => [.filter .font]
  | .titleContains text => [.filter (.titleContains text)]
  | .titleMatches regex => [.filter (.titleMatches regex)]

def compiledFilterParts : List CompiledFilter → List CompiledGuard
  | [] => []
  | item :: rest => item.parts ++ compiledFilterParts rest

end

def compiledQueryParts (filter : Option CompiledFilter) : List CompiledGuard :=
  (filter.map CompiledFilter.parts).getD []

mutual

/-- A condition, the conditions inside and the filters of the tracks they ask for. -/
def CompiledCondition.parts : CompiledCondition → List CompiledGuard
  | .exists target filter => .condition (.exists target filter) :: compiledQueryParts filter
  | .count target filter op value =>
    .condition (.count target filter op value) :: compiledQueryParts filter
  | .and items => .condition (.and items) :: compiledConditionParts items
  | .or items => .condition (.or items) :: compiledConditionParts items
  | .not inner => .condition (.not inner) :: inner.parts
  | .fieldCompare path op value => [.condition (.fieldCompare path op value)]
  | .fieldExists path => [.condition (.fieldExists path)]
  | .audioIsMultiLanguage => [.condition .audioIsMultiLanguage]
  | .isDubbed => [.condition .isDubbed]
  | .isOriginal => [.condition .isOriginal]

def compiledConditionParts : List CompiledCondition → List CompiledGuard
  | [] => []
  | item :: rest => item.parts ++ compiledConditionParts rest

end

def CompiledGuard.parts : CompiledGuard → List CompiledGuard
  | .filter tested => tested.parts
  | .condition tested => tested.parts

mutual

/-- A part of a filter compares nothing that the filter does not. -/
theorem CompiledFilter.parts_comparisons : (f : CompiledFilter) →
    ∀ part ∈ f.parts, part.comparisons ⊆ f.comparisons
  | .and items => by
    rw [CompiledFilter.parts, List.forall_mem_cons]
    exact ⟨List.Subset.refl _, compiledFilterParts_comparisons items⟩
  | .or items => by
    rw [CompiledFilter.parts, List.forall_mem_cons]
    exact ⟨List.Subset.refl _, compiledFilterParts_comparisons items⟩
  | .not inner => by
    rw [CompiledFilter.parts, List.forall_mem_cons]
    exact ⟨List.Subset.refl _, inner.parts_comparisons⟩
  | .langIn _ | .langCompare _ _ | .langField _ _ | .codecIn _ | .codecCompare _ _
  | .codecField _ _ | .channels _ _ | .commentary | .forced | .default | .font
  | .titleContains _ | .titleMatches _ =>
    List.forall_mem_singleton.mpr (List.Subset.refl _)

theorem compiledFilterParts_comparisons : (items : List CompiledFilter) →
    ∀ part ∈ compiledFilterParts items, part.comparisons ⊆ compiledFilterComparisons items
  | [] => fun _ h => absurd h List.not_mem_nil
  | item :: rest => by
    rw [compiledFilterParts, List.forall_mem_append]
    constructor
    · intro part hpart
      exact List.subset_append_of_subset_left _ (item.parts_comparisons part hpart)
    · intro part hpart
      exact List.subset_append_of_subset_right _ (compiledFilterParts_comparisons rest part hpart)

end

theorem compiledQueryParts_comparisons (filter : Option CompiledFilter) :
    ∀ part ∈ compiledQueryParts filter, part.comparisons ⊆ compiledQueryComparisons filter := by
  cases filter with
  | none => exact fun _ h => absurd h List.not_mem_nil
  | some f => exact f.parts_comparisons

mutual

theorem CompiledCondition.parts_comparisons : (condition : CompiledCondition) →
    ∀ part ∈ condition.parts, part.comparisons ⊆ condition.comparisons
  | .exists _ filter => by
    rw [CompiledCondition.parts, List.forall_mem_cons]
    exact ⟨List.Subset.refl _, compiledQueryParts_comparisons filter⟩
  | .count _ filter _ _ => by
    rw [CompiledCondition.parts, List.forall_mem_cons]
    refine ⟨List.Subset.refl _, fun part hpart => ?_⟩
    exact List.subset_append_of_subset_left _ (compiledQueryParts_comparisons filter part hpart)
  | .and items => by
    rw [CompiledCondition.parts, List.forall_mem_cons]
    exact ⟨List.Subset.refl _, compiledConditionParts_comparisons items⟩
  | .or items => by
    rw [CompiledCondition.parts, List.forall_mem_cons]
    exact ⟨List.Subset.refl _, compiledConditionParts_comparisons items⟩
  | .not inner => by
    rw [CompiledCondition.parts, List.forall_mem_cons]
    exact ⟨List.Subset.refl _, inner.parts_comparisons⟩
  | .fieldCompare _ _ _ | .fieldExists _ | .audioIsMultiLanguage | .isDubbed | .isOriginal =>
    List.forall_mem_singleton.mpr (List.Subset.refl _)

theorem compiledConditionParts_comparisons : (items : List CompiledCondition) →
    ∀ part ∈ compiledConditionParts items, part.comparisons ⊆ compiledConditionComparisons items
  | [] => fun _ h => absurd h List.not_mem_nil
  | item :: rest => by
    rw [compiledConditionParts, List.forall_mem_append]
    constructor
    · intro part hpart
      exact List.subset_append_of_subset_left _ (item.parts_comparisons part hpart)
    · intro part hpart
      exact List.subset_append_of_subset_right _
        (compiledConditionParts_comparisons rest part hpart)

end

theorem CompiledGuard.parts_comparisons (guard : CompiledGuard) :
    ∀ part ∈ guard.parts, part.comparisons ⊆ guard.comparisons := by
  cases guard with
  | filter f => exact f.parts_comparisons
  | condition condition => exact condition.parts_comparisons

/-- A comparison with a number that stands in a guard by itself. -/
inductive CompiledGuard.Numeric : CompiledGuard → Compared × CompiledCompareOp → Prop where
  | channels (op : CompiledCompareOp) (n : F64) : Numeric (.filter (.channels op n)) (.channels, op)
  | count (target : TrackTarget) (filter : Option CompiledFilter) (op : CompiledCompareOp)
      (value : F64) : Numeric (.condition (.count target filter op value)) (.count, op)

/-- A comparison of numbers of channels or of tracks. -/
def Compared.numeric : Compared → Bool
  | .channels | .count => true
  | .lang | .codec | .field => false

mutual

/-- A comparison with a number in a filter is one of its parts. -/
theorem CompiledFilter.numeric_part {comparison : Compared × CompiledCompareOp}
    (hnumeric : comparison.1.numeric = true) : (f : CompiledFilter) →
      comparison ∈ f.comparisons → ∃ part ∈ f.parts, part.Numeric comparison
  | .channels op n => fun h => by
    obtain rfl := List.mem_singleton.mp h
    exact ⟨_, List.mem_singleton_self _, .channels op n⟩
  | .and items => fun h => by
    obtain ⟨part, hpart, hpartNumeric⟩ := compiledFilterParts_numeric hnumeric items h
    exact ⟨part, List.mem_cons_of_mem _ hpart, hpartNumeric⟩
  | .or items => fun h => by
    obtain ⟨part, hpart, hpartNumeric⟩ := compiledFilterParts_numeric hnumeric items h
    exact ⟨part, List.mem_cons_of_mem _ hpart, hpartNumeric⟩
  | .not inner => fun h => by
    obtain ⟨part, hpart, hpartNumeric⟩ := inner.numeric_part hnumeric h
    exact ⟨part, List.mem_cons_of_mem _ hpart, hpartNumeric⟩
  | .langCompare _ _ | .langField _ _ | .codecCompare _ _ | .codecField _ _ => fun h => by
    obtain rfl := List.mem_singleton.mp h
    cases hnumeric
  | .langIn _ | .codecIn _ | .commentary | .forced | .default | .font | .titleContains _
  | .titleMatches _ => fun h => absurd h List.not_mem_nil

theorem compiledFilterParts_numeric {comparison : Compared × CompiledCompareOp}
    (hnumeric : comparison.1.numeric = true) : (items : List CompiledFilter) →
      comparison ∈ compiledFilterComparisons items →
      ∃ part ∈ compiledFilterParts items, part.Numeric comparison
  | [] => fun h => absurd h List.not_mem_nil
  | item :: rest => fun h => by
    rcases List.mem_append.mp h with h | h
    · obtain ⟨part, hpart, hpartNumeric⟩ := item.numeric_part hnumeric h
      exact ⟨part, List.mem_append_left _ hpart, hpartNumeric⟩
    · obtain ⟨part, hpart, hpartNumeric⟩ := compiledFilterParts_numeric hnumeric rest h
      exact ⟨part, List.mem_append_right _ hpart, hpartNumeric⟩

end

theorem compiledQueryParts_numeric {comparison : Compared × CompiledCompareOp}
    (hnumeric : comparison.1.numeric = true) (filter : Option CompiledFilter)
    (h : comparison ∈ compiledQueryComparisons filter) :
    ∃ part ∈ compiledQueryParts filter, part.Numeric comparison := by
  cases filter with
  | none => exact absurd h List.not_mem_nil
  | some f => exact f.numeric_part hnumeric h

mutual

theorem CompiledCondition.numeric_part {comparison : Compared × CompiledCompareOp}
    (hnumeric : comparison.1.numeric = true) : (condition : CompiledCondition) →
      comparison ∈ condition.comparisons → ∃ part ∈ condition.parts, part.Numeric comparison
  | .exists _ filter => fun h => by
    obtain ⟨part, hpart, hpartNumeric⟩ := compiledQueryParts_numeric hnumeric filter h
    exact ⟨part, List.mem_cons_of_mem _ hpart, hpartNumeric⟩
  | .count target filter op value => fun h => by
    rcases List.mem_append.mp h with h | h
    · obtain ⟨part, hpart, hpartNumeric⟩ := compiledQueryParts_numeric hnumeric filter h
      exact ⟨part, List.mem_cons_of_mem _ hpart, hpartNumeric⟩
    · obtain rfl := List.mem_singleton.mp h
      exact ⟨_, List.mem_cons_self, .count target filter op value⟩
  | .and items => fun h => by
    obtain ⟨part, hpart, hpartNumeric⟩ := compiledConditionParts_numeric hnumeric items h
    exact ⟨part, List.mem_cons_of_mem _ hpart, hpartNumeric⟩
  | .or items => fun h => by
    obtain ⟨part, hpart, hpartNumeric⟩ := compiledConditionParts_numeric hnumeric items h
    exact ⟨part, List.mem_cons_of_mem _ hpart, hpartNumeric⟩
  | .not inner => fun h => by
    obtain ⟨part, hpart, hpartNumeric⟩ := inner.numeric_part hnumeric h
    exact ⟨part, List.mem_cons_of_mem _ hpart, hpartNumeric⟩
  | .fieldCompare _ _ _ => fun h => by
    obtain rfl := List.mem_singleton.mp h
    cases hnumeric
  | .fieldExists _ | .audioIsMultiLanguage | .isDubbed | .isOriginal =>
    fun h => absurd h List.not_mem_nil

theorem compiledConditionParts_numeric {comparison : Compared × CompiledCompareOp}
    (hnumeric : comparison.1.numeric = true) : (items : List CompiledCondition) →
      comparison ∈ compiledConditionComparisons items →
      ∃ part ∈ compiledConditionParts items, part.Numeric comparison
  | [] => fun h => absurd h List.not_mem_nil
  | item :: rest => fun h => by
    rcases List.mem_append.mp h with h | h
    · obtain ⟨part, hpart, hpartNumeric⟩ := item.numeric_part hnumeric h
      exact ⟨part, List.mem_append_left _ hpart, hpartNumeric⟩
    · obtain ⟨part, hpart, hpartNumeric⟩ := compiledConditionParts_numeric hnumeric rest h
      exact ⟨part, List.mem_append_right _ hpart, hpartNumeric⟩

end

theorem CompiledGuard.numeric_part {comparison : Compared × CompiledCompareOp}
    (hnumeric : comparison.1.numeric = true) {guard : CompiledGuard}
    (h : comparison ∈ guard.comparisons) : ∃ part ∈ guard.parts, part.Numeric comparison := by
  cases guard with
  | filter f => exact f.numeric_part hnumeric h
  | condition condition => exact condition.numeric_part hnumeric h

end Dsl

namespace Evaluator

open Dsl

/-! ## Calls -/

/-- A call while a guard is evaluated on a file: a filter on a track of it, a condition on the
file. -/
inductive Calls (env : EvalEnv) (file : MediaFile) (ctx : EvalContext) :
    CompiledGuard → Call → Prop where
  | filter {f : CompiledFilter} {track : Track} {call : Call} (htrack : track ∈ file.tracks)
      (h : call ∈ (loggedMatches env file ctx track f).log) : Calls env file ctx (.filter f) call
  | condition {condition : CompiledCondition} {call : Call}
      (h : call ∈ (loggedEvaluate env file ctx condition).log) :
      Calls env file ctx (.condition condition) call

/-- The operator is one that the called function handles. -/
def Call.Handled : Call → Prop
  | .compareString op => op = .eq ∨ op = .ne
  | .compareF64 op | .compareJson op => op ≠ .in

/-- Whatever file a filter or condition of the policy is evaluated on, the functions it calls
handle the operators they are called with. -/
def HandledCalls (env : EvalEnv) (policy : CompiledPolicy) : Prop :=
  ∀ file ctx, ∀ guard ∈ policy.guards, ∀ part ∈ guard.parts, ∀ call,
    Calls env file ctx part call → call.Handled

section

variable {env : EvalEnv} {file : MediaFile} {ctx : EvalContext}

theorem Calls.madeBy {guard : CompiledGuard} {call : Call} (h : Calls env file ctx guard call) :
    ∃ comparison ∈ guard.comparisons, MadeBy call comparison := by
  cases h with
  | filter htrack h => exact loggedMatches_madeBy _ _ _ h
  | condition h => exact loggedEvaluate_madeBy _ _ h

/-- A file with one track, of two channels. -/
def stereoFile : MediaFile :=
  { id := 0, path := ⟨["songs", "song.mka"]⟩, container := .mkv
    tracks := [{ index := 0, trackType := .audioMain, codec := "flac", channels := some 2 }] }

/-- A comparison with a number calls the comparison of doubles. -/
theorem Numeric.calls {guard : CompiledGuard} {comparison : Compared × CompiledCompareOp}
    (h : guard.Numeric comparison) (ctx : EvalContext) :
    Calls env stereoFile ctx guard (.compareF64 comparison.2) := by
  cases h with
  | channels op n => exact .filter List.mem_cons_self List.mem_cons_self
  | count target filter op value =>
    exact .condition (List.mem_append_right _ (List.mem_singleton_self _))

end

/-- No number is compared with `in` in a policy as parsed: neither a number of channels nor a
number of tracks. -/
def NumbersWithoutIn (ast : PolicyAst) : Prop :=
  ∀ guard ∈ ast.guards, (Compared.channels, CompareOp.in) ∉ guard.comparisons ∧
    (Compared.count, CompareOp.in) ∉ guard.comparisons

theorem compileCompareOp_eq_in {op : CompareOp} : compileCompareOp op = .in ↔ op = .in := by
  cases op <;> decide

/-- A call is handled if the comparison that makes it is allowed in a policy. -/
theorem MadeBy.handled {call : Call} {compared : Compared} {op : CompareOp}
    (h : MadeBy call (compileComparison (compared, op)))
    (htext : compared = .lang ∨ compared = .codec → op = .eq ∨ op = .ne)
    (hnumber : compared = .channels ∨ compared = .count → op ≠ .in) : call.Handled := by
  cases h with
  | lang =>
    rcases htext (.inl rfl) with rfl | rfl
    · exact .inl rfl
    · exact .inr rfl
  | codec =>
    rcases htext (.inr rfl) with rfl | rfl
    · exact .inl rfl
    · exact .inr rfl
  | channels => exact fun hin => hnumber (.inl rfl) (compileCompareOp_eq_in.mp hin)
  | count => exact fun hin => hnumber (.inr rfl) (compileCompareOp_eq_in.mp hin)
  | json _ hop => exact hop
  | number _ hop => exact hop

/-- A comparison with `in` that a policy as parsed makes of a number goes to the comparison of
doubles. -/
theorem in_called {env : PipelineEnv} {source : String} {ast : PolicyAst} {policy : CompiledPolicy}
    (hparse : parsePolicy env.parser source = .ok ast)
    (hcompile : compilePolicy env source = .ok policy) {guard : GuardNode}
    (hguard : guard ∈ ast.guards) {compared : Compared} (hnumeric : compared.numeric = true)
    (hin : (compared, CompareOp.in) ∈ guard.comparisons) (eval : EvalEnv) (ctx : EvalContext) :
    ∃ compiled ∈ policy.guards, ∃ part ∈ compiled.parts,
      Calls eval stereoFile ctx part (.compareF64 .in) := by
  obtain ⟨compiled, hcompiled, hto⟩ :=
    (exists_of_forall₂ (compilePolicy_guards hparse hcompile)).1 guard hguard
  have hcomparison : (compared, CompiledCompareOp.in) ∈ compiled.comparisons := by
    rw [hto.comparisons]
    exact List.mem_map_of_mem (f := compileComparison) hin
  obtain ⟨part, hpart, hpartNumeric⟩ := CompiledGuard.numeric_part hnumeric hcomparison
  exact ⟨compiled, hcompiled, part, hpart, Numeric.calls hpartNumeric ctx⟩

/-- The comparison functions handle every operator they are called with if and only if no number
of channels or tracks is compared with `in`. -/
theorem handledCalls_iff (env : PipelineEnv) (eval : EvalEnv) {source : String} {ast : PolicyAst}
    {policy : CompiledPolicy} (hparse : parsePolicy env.parser source = .ok ast)
    (hcompile : compilePolicy env source = .ok policy) :
    HandledCalls eval policy ↔ NumbersWithoutIn ast := by
  constructor
  · intro hhandled guard hguard
    have hnot (compared : Compared) (hnumeric : compared.numeric = true) :
        (compared, CompareOp.in) ∉ guard.comparisons := by
      intro hin
      obtain ⟨compiled, hcompiled, part, hpart, hcall⟩ :=
        in_called hparse hcompile hguard hnumeric hin eval {}
      exact hhandled stereoFile {} compiled hcompiled part hpart _ hcall rfl
    exact ⟨hnot .channels rfl, hnot .count rfl⟩
  · intro hnumbers file ctx compiled hcompiled part hpart call hcall
    obtain ⟨guard, hguard, hto⟩ :=
      (exists_of_forall₂ (compilePolicy_guards hparse hcompile)).2 compiled hcompiled
    obtain ⟨comparison, hcomparison, hmade⟩ := hcall.madeBy
    have hmem := compiled.parts_comparisons part hpart hcomparison
    rw [hto.comparisons] at hmem
    obtain ⟨⟨compared, op⟩, hnode, rfl⟩ := List.mem_map.mp hmem
    obtain ⟨hchannels, hcount⟩ := hnumbers guard hguard
    apply hmade.handled
    · exact parsePolicy_guards hparse guard hguard (compared, op) hnode
    · rintro (rfl | rfl) rfl
      · exact hchannels hnode
      · exact hcount hnode

/-! ## Two policies -/

/-- A pair on the first line of a text. -/
def pairAt (start : Nat) (rule : Rule) (text : String) (inner : List Pair) : Pair :=
  .mk rule text ⟨start, start + text.length, 1, start + 1⟩ inner

/-- A policy that warns of the number of its audio tracks, compared by an operator with three. -/
def tallyText (op : String) : String :=
  "policy \"p\" \x7b phase a \x7b when count(audio) " ++ op ++ " 3 \x7b warn \"x\" \x7d \x7d \x7d"

def tallyTree (op : String) : Pair :=
  let condition := "count(audio) " ++ op ++ " 3"
  let block := "when " ++ condition ++ " \x7b warn \"x\" \x7d "
  let width := op.length
  pairAt 0 .policy (tallyText op)
    [pairAt 7 .string "\"p\"" [],
      pairAt 13 .phase ("phase a \x7b " ++ block ++ "\x7d")
        [pairAt 19 .ident "a" [],
          pairAt 23 .phaseItem block
            [pairAt 23 .whenBlock block
              [pairAt 28 .condition (condition ++ " ")
                [pairAt 28 .conditionOr (condition ++ " ")
                  [pairAt 28 .conditionAnd (condition ++ " ")
                    [pairAt 28 .conditionNot condition
                      [pairAt 28 .conditionAtom condition
                        [pairAt 34 .trackQuery "audio" [pairAt 34 .trackTarget "audio" []],
                          pairAt 41 .compareOp op [],
                          pairAt (42 + width) .number "3" []]]]]],
                pairAt (46 + width) .action "warn \"x\""
                  [pairAt (51 + width) .string "\"x\"" []]]]],
      pairAt (60 + width) .eoi "" []]

/-- What the libraries make of these policies. -/
def tallyPipeline : PipelineEnv where
  parser :=
    { parse := fun text =>
        if text = tallyText "in" then .ok (tallyTree "in")
        else if text = tallyText ">=" then .ok (tallyTree ">=")
        else .error (1, 1, "expected policy")
      parseF64 := fun text => if text = "3" then some (.finite 3) else none }
  compiler := ⟨fun _ => .ok (), fun _ => ""⟩
  partition := linearPartitionPoint
  xxh3 _ := "0000000000000000"

def tallyEval : EvalEnv where
  toLowercase := toAsciiLowercase
  isMatch regex text := containsText text regex.pattern
  jsonToString _ := ""
  sub
    | .finite a, .finite b => .finite (a - b)
    | _, _ => .nan
  ofInt n := .finite n
  formatTenths _ := ""

/-- Three audio tracks looked for with `in`: the policy compiles, and the comparison of doubles
gets the operator. -/
theorem tally_in_unhandled :
    ∃ ast policy,
      parsePolicy tallyPipeline.parser (tallyText "in") = .ok ast ∧
      compilePolicy tallyPipeline (tallyText "in") = .ok policy ∧
      ¬ HandledCalls tallyEval policy := by
  obtain ⟨policy, hpolicy⟩ : ∃ policy, compilePolicy tallyPipeline (tallyText "in") = .ok policy :=
    Succeeds.isOk_iff.mp (by decide +kernel)
  obtain ⟨ast, hast⟩ : ∃ ast, parsePolicy tallyPipeline.parser (tallyText "in") = .ok ast :=
    Succeeds.isOk_iff.mp (by decide)
  have hcompared : (parsePolicy tallyPipeline.parser (tallyText "in")).toOption.any
        (fun ast => ast.guards.any (·.comparisons.contains (.count, .in))) = true := by
    decide
  rw [hast] at hcompared
  obtain ⟨guard, hguard, hin⟩ := List.any_eq_true.mp hcompared
  obtain ⟨compiled, hcompiled, part, hpart, hcall⟩ :=
    @in_called _ _ _ _ hast hpolicy guard hguard .count rfl (by simpa using hin) tallyEval {}
  refine ⟨ast, policy, hast, hpolicy, fun hhandled => ?_⟩
  exact hhandled stereoFile {} compiled hcompiled part hpart _ hcall rfl

theorem tally_ge_handled :
    ∃ policy,
      compilePolicy tallyPipeline (tallyText ">=") = .ok policy ∧
      HandledCalls tallyEval policy := by
  obtain ⟨policy, hpolicy⟩ : ∃ policy, compilePolicy tallyPipeline (tallyText ">=") = .ok policy :=
    Succeeds.isOk_iff.mp (by decide +kernel)
  obtain ⟨ast, hast⟩ : ∃ ast, parsePolicy tallyPipeline.parser (tallyText ">=") = .ok ast :=
    Succeeds.isOk_iff.mp (by decide)
  have hcompared : (parsePolicy tallyPipeline.parser (tallyText ">=")).toOption.all
        (fun ast => ast.guards.all fun guard =>
          !guard.comparisons.contains (.channels, .in) &&
            !guard.comparisons.contains (.count, .in)) = true := by
    decide
  refine ⟨policy, hpolicy, (handledCalls_iff tallyPipeline tallyEval hast hpolicy).mpr ?_⟩
  intro guard hguard
  rw [hast] at hcompared
  have hguard' := List.all_eq_true.mp hcompared guard hguard
  simpa using hguard'

end Evaluator

end Voom
