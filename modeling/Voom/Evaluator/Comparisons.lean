-- SUMMARY: The calls of the comparison functions while filters and conditions are evaluated.
import Voom.Dsl.Pipeline
import Voom.Evaluator.Condition
import Voom.Lib.Logged

/-!
# Comparisons

Evaluation once more, with a log of the comparison functions that are called and the operators
they are called with. Each call comes from a comparison that the filter or condition holds.
-/

namespace Voom.Evaluator

open Dsl Lib

/-! ## Evaluation with a log -/

/-- A call of a comparison function. -/
inductive Call where
  | compareString (op : CompiledCompareOp)
  | compareF64 (op : CompiledCompareOp)
  | compareJson (op : CompiledCompareOp)
  deriving DecidableEq, Repr

section

variable (env : EvalEnv)

def loggedCompareString (left : String) (op : CompiledCompareOp) (right : String) :
    Logged Call Bool :=
  ⟨compareString left op right, [.compareString op]⟩

def loggedCompareF64 (left : F64) (op : CompiledCompareOp) (right : F64) : Logged Call Bool :=
  ⟨compareF64 env left op right, [.compareF64 op]⟩

/-- Numbers are handed on to the comparison of doubles. -/
def loggedCompareJson (left : Json) (op : CompiledCompareOp) (right : Json) : Logged Call Bool :=
  match left, right with
  | .number _, .number _ =>
    ⟨compareJson env left op right, [.compareJson op, .compareF64 op]⟩
  | _, _ => ⟨compareJson env left op right, [.compareJson op]⟩

variable (file : MediaFile) (ctx : EvalContext)

/-- A text against the text of a field, if there is one. -/
def loggedCompareField (left : String) (op : CompiledCompareOp) (path : List String) :
    Logged Call Bool :=
  match resolveFieldStr file ctx path with
  | some right => loggedCompareString left op right
  | none => .silent false

def loggedChannels (track : Track) (op : CompiledCompareOp) (n : F64) : Logged Call Bool :=
  match track.channels with
  | some ch => loggedCompareF64 env (.finite ch) op n
  | none => .silent false

mutual

def loggedMatches (track : Track) : CompiledFilter → Logged Call Bool
  | .langCompare op language => loggedCompareString track.language op language
  | .langField op path => loggedCompareField file ctx track.language op path
  | .codecCompare op codec => loggedCompareString track.codec op codec
  | .codecField op path => loggedCompareField file ctx track.codec op path
  | .channels op n => loggedChannels env track op n
  | .and items => loggedMatchesAll track items
  | .or items => loggedMatchesAny track items
  | .not inner => (loggedMatches track inner).not
  | .langIn languages => .silent (trackMatches env file ctx track (.langIn languages))
  | .codecIn codecs => .silent (trackMatches env file ctx track (.codecIn codecs))
  | .commentary => .silent (trackMatches env file ctx track .commentary)
  | .forced => .silent (trackMatches env file ctx track .forced)
  | .default => .silent (trackMatches env file ctx track .default)
  | .font => .silent (trackMatches env file ctx track .font)
  | .titleContains text => .silent (trackMatches env file ctx track (.titleContains text))
  | .titleMatches regex => .silent (trackMatches env file ctx track (.titleMatches regex))

def loggedMatchesAll (track : Track) : List CompiledFilter → Logged Call Bool
  | [] => .silent true
  | item :: rest => (loggedMatches track item).and (loggedMatchesAll track rest)

def loggedMatchesAny (track : Track) : List CompiledFilter → Logged Call Bool
  | [] => .silent false
  | item :: rest => (loggedMatches track item).or (loggedMatchesAny track rest)

end

/-- A list on the right of `in` is looked through before any comparison. -/
def loggedFieldCompare (path : List String) (op : CompiledCompareOp) (value : Json) :
    Logged Call Bool :=
  match resolveField file path ctx with
  | none => .silent false
  | some resolved =>
    match op, value with
    | .in, .array items => .silent (items.any (jsonValuesEqual env resolved))
    | .in, _ => .silent false
    | op, value => loggedCompareJson env resolved op value

/-- The number of tracks that a filter lets through. -/
def loggedCount (target : TrackTarget) : Option CompiledFilter → Logged Call Nat
  | none => .silent (tracksForTarget file target).length
  | some f => .countP (loggedMatches env file ctx · f) (tracksForTarget file target)

mutual

def loggedEvaluate : CompiledCondition → Logged Call Bool
  | .exists target none => .silent !(tracksForTarget file target).isEmpty
  | .exists target (some f) =>
    .any (loggedMatches env file ctx · f) (tracksForTarget file target)
  | .count target filter op value =>
    let count := loggedCount env file ctx target filter
    let compared := loggedCompareF64 env (env.ofInt count.value) op value
    ⟨compared.value, count.log ++ compared.log⟩
  | .fieldCompare path op value => loggedFieldCompare env file ctx path op value
  | .and items => loggedEvaluateAll items
  | .or items => loggedEvaluateAny items
  | .not inner => (loggedEvaluate inner).not
  | .fieldExists path => .silent (resolveField file path ctx).isSome
  | .audioIsMultiLanguage => .silent (decide (audioLangCount file > 1))
  | .isDubbed => .silent (decide (audioLangCount file > 1) && !file.subtitleTracks.isEmpty)
  | .isOriginal => .silent (decide (audioLangCount file ≤ 1))

def loggedEvaluateAll : List CompiledCondition → Logged Call Bool
  | [] => .silent true
  | item :: rest => (loggedEvaluate item).and (loggedEvaluateAll rest)

def loggedEvaluateAny : List CompiledCondition → Logged Call Bool
  | [] => .silent false
  | item :: rest => (loggedEvaluate item).or (loggedEvaluateAny rest)

end

end

/-! ## The log changes no result -/

section

variable {env : EvalEnv} {file : MediaFile} {ctx : EvalContext}

theorem loggedCompareJson_value (left : Json) (op : CompiledCompareOp) (right : Json) :
    (loggedCompareJson env left op right).value = compareJson env left op right := by
  unfold loggedCompareJson
  split <;> rfl

theorem loggedCompareField_value (left : String) (op : CompiledCompareOp) (path : List String) :
    (loggedCompareField file ctx left op path).value =
      (resolveFieldStr file ctx path).any (compareString left op) := by
  unfold loggedCompareField
  cases resolveFieldStr file ctx path <;> rfl

theorem loggedChannels_value (track : Track) (op : CompiledCompareOp) (n : F64) :
    (loggedChannels env track op n).value =
      track.channels.any fun ch => compareF64 env (.finite ch) op n := by
  unfold loggedChannels
  cases track.channels <;> rfl

mutual

theorem loggedMatches_value (track : Track) : (f : CompiledFilter) →
    (loggedMatches env file ctx track f).value = trackMatches env file ctx track f
  | .and items => loggedMatchesAll_value track items
  | .or items => loggedMatchesAny_value track items
  | .not inner => congrArg Bool.not (loggedMatches_value track inner)
  | .langField op path => loggedCompareField_value track.language op path
  | .codecField op path => loggedCompareField_value track.codec op path
  | .channels op n => loggedChannels_value track op n
  | .langCompare _ _ | .codecCompare _ _ | .langIn _ | .codecIn _ | .commentary | .forced
  | .default | .font | .titleContains _ | .titleMatches _ => rfl

theorem loggedMatchesAll_value (track : Track) : (items : List CompiledFilter) →
    (loggedMatchesAll env file ctx track items).value = trackMatchesAll env file ctx track items
  | [] => rfl
  | item :: rest => by
    rw [loggedMatchesAll, Logged.and_value, loggedMatches_value track item,
      loggedMatchesAll_value track rest, trackMatchesAll]

theorem loggedMatchesAny_value (track : Track) : (items : List CompiledFilter) →
    (loggedMatchesAny env file ctx track items).value = trackMatchesAny env file ctx track items
  | [] => rfl
  | item :: rest => by
    rw [loggedMatchesAny, Logged.or_value, loggedMatches_value track item,
      loggedMatchesAny_value track rest, trackMatchesAny]

end

theorem loggedFieldCompare_value (path : List String) (op : CompiledCompareOp) (value : Json) :
    (loggedFieldCompare env file ctx path op value).value =
      evaluateFieldCompare env file ctx path op value := by
  unfold loggedFieldCompare evaluateFieldCompare
  cases resolveField file path ctx with
  | none => rfl
  | some resolved =>
    cases op with
    | «in» => cases value <;> rfl
    | eq | ne | lt | le | gt | ge => exact loggedCompareJson_value resolved _ value

mutual

/-- Evaluation with a log evaluates. -/
theorem loggedEvaluate_value : (condition : CompiledCondition) →
    (loggedEvaluate env file ctx condition).value = evaluateCondition env file ctx condition
  | .exists _ none => rfl
  | .exists _ (some f) => by
    rw [loggedEvaluate, Logged.any_value, evaluateCondition]
    simp only [loggedMatches_value]
  | .count _ none _ _ => rfl
  | .count target (some f) op value => by
    have hcount : (loggedCount env file ctx target (some f)).value =
        (tracksForTarget file target).countP (trackMatches env file ctx · f) := by
      rw [loggedCount, Logged.countP_value]
      simp only [loggedMatches_value]
    rw [loggedEvaluate, evaluateCondition, hcount]
    rfl
  | .fieldCompare path op value => loggedFieldCompare_value path op value
  | .and items => loggedEvaluateAll_value items
  | .or items => loggedEvaluateAny_value items
  | .not inner => congrArg Bool.not (loggedEvaluate_value inner)
  | .fieldExists _ | .audioIsMultiLanguage | .isDubbed | .isOriginal => rfl

theorem loggedEvaluateAll_value : (items : List CompiledCondition) →
    (loggedEvaluateAll env file ctx items).value = evaluateAll env file ctx items
  | [] => rfl
  | item :: rest => by
    rw [loggedEvaluateAll, Logged.and_value, loggedEvaluate_value item,
      loggedEvaluateAll_value rest, evaluateAll]

theorem loggedEvaluateAny_value : (items : List CompiledCondition) →
    (loggedEvaluateAny env file ctx items).value = evaluateAny env file ctx items
  | [] => rfl
  | item :: rest => by
    rw [loggedEvaluateAny, Logged.or_value, loggedEvaluate_value item,
      loggedEvaluateAny_value rest, evaluateAny]

end

/-! ## Where the calls come from -/

/-- A call that a comparison makes. A field is compared with `in` by looking through a list, so
that operator is in no call. -/
inductive MadeBy : Call → Compared × CompiledCompareOp → Prop where
  | lang (op : CompiledCompareOp) : MadeBy (.compareString op) (.lang, op)
  | codec (op : CompiledCompareOp) : MadeBy (.compareString op) (.codec, op)
  | channels (op : CompiledCompareOp) : MadeBy (.compareF64 op) (.channels, op)
  | count (op : CompiledCompareOp) : MadeBy (.compareF64 op) (.count, op)
  | json (op : CompiledCompareOp) (hop : op ≠ .in) : MadeBy (.compareJson op) (.field, op)
  | number (op : CompiledCompareOp) (hop : op ≠ .in) : MadeBy (.compareF64 op) (.field, op)

/-- All calls of a log are made by comparisons of a list. -/
def MadeByAny (calls : List Call) (comparisons : List (Compared × CompiledCompareOp)) : Prop :=
  ∀ call ∈ calls, ∃ comparison ∈ comparisons, MadeBy call comparison

theorem MadeByAny.silent (comparisons : List (Compared × CompiledCompareOp)) :
    MadeByAny [] comparisons := fun _ h => absurd h List.not_mem_nil

theorem MadeByAny.singleton {call : Call} {comparison : Compared × CompiledCompareOp}
    (h : MadeBy call comparison) : MadeByAny [call] [comparison] := by
  intro c hc
  obtain rfl := List.mem_singleton.mp hc
  exact ⟨comparison, List.mem_singleton_self comparison, h⟩

theorem MadeByAny.append {calls calls' log : List Call}
    {comparisons comparisons' : List (Compared × CompiledCompareOp)}
    (h : MadeByAny calls comparisons) (h' : MadeByAny calls' comparisons')
    (hlog : ∀ call ∈ log, call ∈ calls ∨ call ∈ calls') :
    MadeByAny log (comparisons ++ comparisons') := by
  intro call hcall
  rcases hlog call hcall with hcall | hcall
  · obtain ⟨comparison, hmem, hmade⟩ := h call hcall
    exact ⟨comparison, List.mem_append_left _ hmem, hmade⟩
  · obtain ⟨comparison, hmem, hmade⟩ := h' call hcall
    exact ⟨comparison, List.mem_append_right _ hmem, hmade⟩

theorem loggedCompareField_madeBy {compared : Compared} (left : String) (op : CompiledCompareOp)
    (path : List String) (h : MadeBy (.compareString op) (compared, op)) :
    MadeByAny (loggedCompareField file ctx left op path).log [(compared, op)] := by
  unfold loggedCompareField
  split
  · exact .singleton h
  · exact .silent _

mutual

theorem loggedMatches_madeBy (track : Track) : (f : CompiledFilter) →
    MadeByAny (loggedMatches env file ctx track f).log f.comparisons
  | .langCompare op _ => .singleton (.lang op)
  | .codecCompare op _ => .singleton (.codec op)
  | .langField op path => loggedCompareField_madeBy track.language op path (.lang op)
  | .codecField op path => loggedCompareField_madeBy track.codec op path (.codec op)
  | .channels op n => by
    rw [loggedMatches, loggedChannels]
    split
    · exact .singleton (.channels op)
    · exact .silent _
  | .and items => loggedMatchesAll_madeBy track items
  | .or items => loggedMatchesAny_madeBy track items
  | .not inner => loggedMatches_madeBy track inner
  | .langIn _ | .codecIn _ | .commentary | .forced | .default | .font | .titleContains _
  | .titleMatches _ => .silent _

theorem loggedMatchesAll_madeBy (track : Track) : (items : List CompiledFilter) →
    MadeByAny (loggedMatchesAll env file ctx track items).log (compiledFilterComparisons items)
  | [] => .silent _
  | item :: rest => by
    apply MadeByAny.append (loggedMatches_madeBy track item) (loggedMatchesAll_madeBy track rest)
    exact fun _ h => Logged.mem_and_log h

theorem loggedMatchesAny_madeBy (track : Track) : (items : List CompiledFilter) →
    MadeByAny (loggedMatchesAny env file ctx track items).log (compiledFilterComparisons items)
  | [] => .silent _
  | item :: rest => by
    apply MadeByAny.append (loggedMatches_madeBy track item) (loggedMatchesAny_madeBy track rest)
    exact fun _ h => Logged.mem_or_log h

end

theorem loggedCompareJson_madeBy (left : Json) {op : CompiledCompareOp} (right : Json)
    (hop : op ≠ .in) : MadeByAny (loggedCompareJson env left op right).log [(.field, op)] := by
  unfold loggedCompareJson
  split
  · intro call hcall
    refine ⟨_, List.mem_singleton_self _, ?_⟩
    rcases List.mem_cons.mp hcall with rfl | hcall
    · exact .json op hop
    · obtain rfl := List.mem_singleton.mp hcall
      exact .number op hop
  · exact .singleton (.json op hop)

theorem loggedFieldCompare_madeBy (path : List String) (op : CompiledCompareOp) (value : Json) :
    MadeByAny (loggedFieldCompare env file ctx path op value).log [(.field, op)] := by
  unfold loggedFieldCompare
  cases resolveField file path ctx with
  | none => exact .silent _
  | some resolved =>
    cases op with
    -- the list is looked through without a call
    | «in» => cases value <;> exact .silent _
    | eq | ne | lt | le | gt | ge => exact loggedCompareJson_madeBy resolved value nofun

mutual

theorem loggedEvaluate_madeBy : (condition : CompiledCondition) →
    MadeByAny (loggedEvaluate env file ctx condition).log condition.comparisons
  | .exists _ none => .silent _
  | .exists target (some f) => by
    intro call hcall
    obtain ⟨track, -, hcall⟩ := Logged.mem_any_log hcall
    exact loggedMatches_madeBy track f call hcall
  | .count target filter op value => by
    have hcount : MadeByAny (loggedCount env file ctx target filter).log
        (compiledQueryComparisons filter) := by
      cases filter with
      | none => exact .silent _
      | some f =>
        intro call hcall
        obtain ⟨track, -, hcall⟩ := Logged.mem_countP_log hcall
        exact loggedMatches_madeBy track f call hcall
    apply hcount.append (.singleton (.count op))
    exact fun _ h => List.mem_append.mp h
  | .fieldCompare path op value => loggedFieldCompare_madeBy path op value
  | .and items => loggedEvaluateAll_madeBy items
  | .or items => loggedEvaluateAny_madeBy items
  | .not inner => loggedEvaluate_madeBy inner
  | .fieldExists _ | .audioIsMultiLanguage | .isDubbed | .isOriginal => .silent _

theorem loggedEvaluateAll_madeBy : (items : List CompiledCondition) →
    MadeByAny (loggedEvaluateAll env file ctx items).log (compiledConditionComparisons items)
  | [] => .silent _
  | item :: rest => by
    apply MadeByAny.append (loggedEvaluate_madeBy item) (loggedEvaluateAll_madeBy rest)
    exact fun _ h => Logged.mem_and_log h

theorem loggedEvaluateAny_madeBy : (items : List CompiledCondition) →
    MadeByAny (loggedEvaluateAny env file ctx items).log (compiledConditionComparisons items)
  | [] => .silent _
  | item :: rest => by
    apply MadeByAny.append (loggedEvaluate_madeBy item) (loggedEvaluateAny_madeBy rest)
    exact fun _ h => Logged.mem_or_log h

end

end

end Voom.Evaluator
