-- SUMMARY: Resolution of a policy's parents always ends, and reports a cycle exactly if there is one.
import Mathlib.Data.Set.Finite.Basic
import Voom.Dsl.Inheritance
import Voom.Lib.Trail

/-!
# Cycles of extends clauses

Resolution keeps the sources it is in on a stack. What it follows is a partial function
on sources: the policy a source holds points at one other source at most. Where the sources
are finitely many the links end or come back, and the stack tells which.
-/

namespace Voom.Dsl

open Lib

section Links

variable (env : PolicyEnv)

/-- The policy a source holds. -/
def opened : PolicySourceId → Option LoadedPolicy
  | .inline => none
  | .bundled name => do
    let source ← env.bundledPolicy name
    let ast ← (env.parsePolicy source).toOption
    return { sourceId := .bundled name, ast, baseDir := none }
  | .file path => do
    let source ← (env.readToString path).toOption
    let ast ← (env.parsePolicy source).toOption
    return { sourceId := .file path, ast, baseDir := path.parent }

/-- The source that the `extends` clause of a policy names. -/
def target (policy : LoadedPolicy) : Option PolicySourceId :=
  match policy.ast.extendsSource with
  | none => none
  | some (.bundled name) => if "://".toList <:+: name.toList then none else some (.bundled name)
  | some (.file uri) => (resolveFileUri env uri policy.baseDir).toOption.map .file

/-- The source that the policy of a source extends. -/
def followed (source : PolicySourceId) : Option PolicySourceId :=
  (opened env source).bind (target env)

/-- The links lead from `start` along `before` to `source`, and from there along `rest` back
to `source`; up to there no source comes twice. -/
abbrev Revisits (start : PolicySourceId) (before : List PolicySourceId) (source : PolicySourceId)
    (rest : List PolicySourceId) : Prop :=
  Trail.Closes (followed env) start before source rest

/-- Finitely many files can be read, and finitely many policies are bundled. -/
structure FiniteSources : Prop where
  files : {path | ∃ text, env.readToString path = .ok text}.Finite
  bundled : {name | ∃ text, env.bundledPolicy name = some text}.Finite

end Links

/-! ## Errors -/

def cyclicExtends (chain : String) : DslPipelineError :=
  compileError ("cyclic policy extends: " ++ chain)

/-- How a loop is reported. -/
def loopText (source : PolicySourceId) (rest : List PolicySourceId) : String :=
  " -> ".intercalate ((source :: rest ++ [source]).map sourceLabel)

def IsCyclic (error : DslPipelineError) : Prop := ∃ chain, error = cyclicExtends chain

/-- The other messages start with another letter. -/
theorem not_isCyclic_of_head {message : String} (h : message.toList.head? ≠ some 'c') :
    ¬ IsCyclic (compileError message) := by
  rintro ⟨chain, heq⟩
  apply h
  simp only [cyclicExtends, compileError, DslPipelineError.compile.injEq,
    DslError.compile.injEq] at heq
  rw [heq]
  simp

theorem not_isCyclic_parse (error : DslError) : ¬ IsCyclic (.parse error) := by
  rintro ⟨chain, h⟩
  cases h

theorem not_isCyclic_noParentPhase (name : String) : ¬ IsCyclic (noParentPhase name) :=
  not_isCyclic_of_head (by simp)

theorem not_isCyclic_unresolvedPhaseExtend (name : String) :
    ¬ IsCyclic (unresolvedPhaseExtend name) :=
  not_isCyclic_of_head (by simp)

theorem not_isCyclic_unsupportedUri (uri : String) : ¬ IsCyclic (unsupportedUri uri) :=
  not_isCyclic_of_head (by simp)

theorem mergeNewPhases_error {merging : Merging} {phases : List (PhaseNode × Bool)}
    {error : DslPipelineError} (h : mergeNewPhases merging phases = .error error) :
    ¬ IsCyclic error := by
  induction phases generalizing merging with
  | nil => cases h
  | cons phase rest ih =>
    obtain ⟨phase, consumed⟩ := phase
    simp only [mergeNewPhases] at h
    split at h
    · exact ih h
    · split at h
      · cases h
        exact not_isCyclic_noParentPhase _
      · exact ih h

theorem mergePolicy_error {parent : ResolvedPolicyAst} {child : PolicyAst}
    {sourceId : PolicySourceId} {error : DslPipelineError}
    (h : mergePolicy parent child sourceId = .error error) : ¬ IsCyclic error := by
  simp only [mergePolicy] at h
  cases hmerge : mergeNewPhases _ _ with
  | error e =>
    rw [hmerge] at h
    cases h
    exact mergeNewPhases_error hmerge
  | ok merging =>
    rw [hmerge] at h
    cases h

theorem resolveRoot_error {policy : LoadedPolicy} {error : DslPipelineError}
    (h : resolveRoot policy = .error error) : ¬ IsCyclic error := by
  simp only [resolveRoot, rejectUnresolvedPhaseExtends] at h
  split at h
  · cases h
    exact not_isCyclic_unresolvedPhaseExtend _
  · cases h

theorem canonicalizeExistingPath_error {env : PolicyEnv} {path : String} {error : DslPipelineError}
    (h : canonicalizeExistingPath env path = .error error) : ¬ IsCyclic error := by
  simp only [canonicalizeExistingPath] at h
  cases hcanonical : env.canonicalize path with
  | ok canonical =>
    rw [hcanonical] at h
    cases h
  | error e =>
    rw [hcanonical] at h
    cases h
    exact not_isCyclic_of_head (by simp)

theorem resolveFileUri_error {env : PolicyEnv} {uri : String} {baseDir : Option Path}
    {error : DslPipelineError} (h : resolveFileUri env uri baseDir = .error error) :
    ¬ IsCyclic error := by
  simp only [resolveFileUri] at h
  split at h
  · cases h
    exact not_isCyclic_unsupportedUri _
  split at h
  · cases h
    exact not_isCyclic_of_head (by simp)
  split at h
  · exact canonicalizeExistingPath_error h
  split at h
  · cases h
    exact not_isCyclic_of_head (by simp)
  · exact canonicalizeExistingPath_error h

/-! ## One link -/

section Loading

variable {env : PolicyEnv}

/-- The call that reads a source. -/
def loadSource (env : PolicyEnv) (stack : List PolicySourceId) :
    PolicySourceId → Except DslPipelineError (LoadedPolicy × List PolicySourceId)
  | .inline => .error requiresPolicyFile
  | .bundled name => loadBundledPolicy env name stack
  | .file path => loadFilePath env path stack

theorem loadSource_opened {source : PolicySourceId} {policy : LoadedPolicy}
    {stack : List PolicySourceId} (h : opened env source = some policy) (hfresh : source ∉ stack) :
    loadSource env stack source = .ok (policy, stack ++ [source]) := by
  cases source with
  | inline => cases h
  | bundled name =>
    simp only [opened, Option.bind_eq_bind, Option.bind_eq_some_iff, Option.pure_def,
      Option.some.injEq] at h
    obtain ⟨text, htext, ast, hast, rfl⟩ := h
    cases hparse : env.parsePolicy text with
    | error e => simp [hparse, Except.toOption] at hast
    | ok parsed =>
      obtain rfl : parsed = ast := by simpa [hparse, Except.toOption] using hast
      simp only [loadSource, loadBundledPolicy, pushSource_of_notMem hfresh, htext, parseSource,
        bind, Except.bind, hparse]
      rfl
  | file path =>
    simp only [opened, Option.bind_eq_bind, Option.bind_eq_some_iff, Option.pure_def,
      Option.some.injEq] at h
    obtain ⟨text, htext, ast, hast, rfl⟩ := h
    cases hread : env.readToString path with
    | error e => simp [hread, Except.toOption] at htext
    | ok read =>
      obtain rfl : read = text := by simpa [hread, Except.toOption] using htext
      cases hparse : env.parsePolicy read with
      | error e => simp [hparse, Except.toOption] at hast
      | ok parsed =>
        obtain rfl : parsed = ast := by simpa [hparse, Except.toOption] using hast
        simp only [loadSource, loadFilePath, pushSource_of_notMem hfresh, hread, parseSource,
          bind, Except.bind, Except.mapError, hparse]
        rfl

theorem loadSource_not_opened {source : PolicySourceId} {stack : List PolicySourceId}
    (h : opened env source = none) (hfresh : source ∉ stack) :
    ∃ error, loadSource env stack source = .error error ∧ ¬ IsCyclic error := by
  cases source with
  | inline => exact ⟨_, rfl, not_isCyclic_of_head (by simp)⟩
  | bundled name =>
    simp only [loadSource, loadBundledPolicy, pushSource_of_notMem hfresh, parseSource, bind,
      Except.bind]
    cases htext : env.bundledPolicy name with
    | none => exact ⟨_, rfl, not_isCyclic_of_head (by simp)⟩
    | some text =>
      cases hparse : env.parsePolicy text with
      | error e =>
        simp only [hparse]
        exact ⟨_, rfl, not_isCyclic_parse e⟩
      | ok ast => simp [opened, htext, hparse, Except.toOption] at h
  | file path =>
    simp only [loadSource, loadFilePath, pushSource_of_notMem hfresh, parseSource, bind,
      Except.bind]
    cases hread : env.readToString path with
    | error e => exact ⟨_, rfl, not_isCyclic_of_head (by simp)⟩
    | ok text =>
      cases hparse : env.parsePolicy text with
      | error e =>
        simp only [Except.mapError, hparse]
        exact ⟨_, rfl, not_isCyclic_parse e⟩
      | ok ast => simp [opened, hread, hparse, Except.toOption] at h

/-- A source on the stack is reported with the sources after it. -/
theorem loadSource_cyclic {before rest : List PolicySourceId} {source : PolicySourceId}
    (hsource : source ≠ .inline) (hfresh : (before ++ source :: rest).Nodup) :
    loadSource env (before ++ source :: rest) source = .error (cyclicExtends (loopText source rest)) := by
  have hpush : pushSource source (before ++ source :: rest) =
      .error (cyclicExtends (loopText source rest)) := by
    have hbefore : ∀ s ∈ before, decide (s ≠ source) = true := by
      intro s hs
      have hne := (List.nodup_append.mp hfresh).2.2 s hs source List.mem_cons_self
      simpa using hne
    rw [pushSource, if_pos (by simp), List.dropWhile_append_of_pos hbefore]
    simp [cyclicExtends, loopText]
  cases source with
  | inline => exact absurd rfl hsource
  | bundled name => simp only [loadSource, loadBundledPolicy, hpush, bind, Except.bind]
  | file path => simp only [loadSource, loadFilePath, hpush, bind, Except.bind]

theorem opened_sourceId {source : PolicySourceId} {policy : LoadedPolicy}
    (h : opened env source = some policy) : policy.sourceId = source := by
  cases source <;> simp only [opened, Option.bind_eq_bind, Option.bind_eq_some_iff,
    Option.pure_def, Option.some.injEq, reduceCtorEq] at h
  all_goals
    obtain ⟨_, _, _, _, rfl⟩ := h
    rfl

theorem target_ne_inline {policy : LoadedPolicy} {source : PolicySourceId}
    (h : target env policy = some source) : source ≠ .inline := by
  rintro rfl
  simp only [target] at h
  split at h
  · cases h
  · split at h <;> cases h
  · simp at h

/-- The parent of a policy is read from where its clause points. -/
theorem loadParent_of_target {policy : LoadedPolicy} {source : PolicySourceId}
    (h : target env policy = some source) (stack : List PolicySourceId) :
    ∃ clause, policy.ast.extendsSource = some clause ∧
      loadParent env .yes policy.baseDir stack clause = loadSource env stack source := by
  cases hclause : policy.ast.extendsSource with
  | none => simp [target, hclause] at h
  | some clause =>
    refine ⟨clause, rfl, ?_⟩
    cases clause with
    | bundled name =>
      simp only [target, hclause] at h
      split at h
      · cases h
      · next huri =>
        cases h
        rw [loadParent, if_neg huri]
        rfl
    | file uri =>
      simp only [target, hclause] at h
      cases hpath : resolveFileUri env uri policy.baseDir with
      | error e => simp [hpath, Except.toOption] at h
      | ok path =>
        obtain rfl : PolicySourceId.file path = source := by
          simpa [hpath, Except.toOption] using h
        simp only [loadParent, hpath, bind, Except.bind]
        rfl

theorem loadParent_of_no_target {policy : LoadedPolicy} {clause : ExtendsSource}
    (h : target env policy = none) (hclause : policy.ast.extendsSource = some clause)
    (stack : List PolicySourceId) :
    ∃ error, loadParent env .yes policy.baseDir stack clause = .error error ∧
      ¬ IsCyclic error := by
  cases clause with
  | bundled name =>
    simp only [target, hclause] at h
    split at h
    · next huri =>
      rw [loadParent, if_pos huri]
      exact ⟨_, rfl, not_isCyclic_unsupportedUri _⟩
    · cases h
  | file uri =>
    simp only [target, hclause] at h
    cases hpath : resolveFileUri env uri policy.baseDir with
    | error e =>
      refine ⟨e, ?_, resolveFileUri_error hpath⟩
      simp only [loadParent, hpath, bind, Except.bind]
      rfl
    | ok path => simp [hpath, Except.toOption] at h

end Loading

/-! ## Resolution -/

section Resolution

variable {env : PolicyEnv} {start : PolicySourceId} {trail : List PolicySourceId}
  {policy : LoadedPolicy}

/-- A policy that is being resolved, with the sources that led to it. -/
structure Reached (env : PolicyEnv) (start : PolicySourceId) (trail : List PolicySourceId)
    (policy : LoadedPolicy) : Prop where
  fresh : Trail.Fresh (followed env) start (trail ++ [policy.sourceId])
  opens : opened env policy.sourceId = some policy

/-- A result reports a loop that is there, or there is none and it reports none. -/
def Verdict (env : PolicyEnv) (start : PolicySourceId)
    (result : Except DslPipelineError ResolvedPolicyAst) : Prop :=
  (∃ before source rest, Revisits env start before source rest ∧
    result = .error (cyclicExtends (loopText source rest))) ∨
  (∀ before source rest, ¬ Revisits env start before source rest) ∧
    ∀ error, result = .error error → ¬ IsCyclic error

theorem Verdict.bind {result : Except DslPipelineError ResolvedPolicyAst} (child : PolicyAst)
    (sourceId : PolicySourceId) (h : Verdict env start result) :
    Verdict env start (result.bind fun parent => mergePolicy parent child sourceId) := by
  rcases h with ⟨before, source, rest, hloop, rfl⟩ | ⟨hnone, herror⟩
  · exact .inl ⟨before, source, rest, hloop, rfl⟩
  · refine .inr ⟨hnone, fun error h => ?_⟩
    cases result with
    | error e =>
      cases h
      exact herror _ rfl
    | ok parent => exact mergePolicy_error h

theorem followed_eq (h : Reached env start trail policy) :
    followed env policy.sourceId = target env policy := by
  rw [followed, h.opens, Option.bind_some]

/-- A trail that ends without a report is not cyclic. -/
theorem Verdict.ends {source : PolicySourceId}
    {result : Except DslPipelineError ResolvedPolicyAst}
    (hfresh : Trail.Fresh (followed env) start (trail ++ [source]))
    (hend : followed env source = none)
    (herror : ∀ error, result = .error error → ¬ IsCyclic error) : Verdict env start result :=
  .inr ⟨fun _ _ _ => hfresh.not_closes hend, herror⟩

/-- What resolving one policy does: it settles the result, or it goes on with a policy that is
not on the stack. -/
theorem Reached.step (h : Reached env start trail policy) :
    (∃ result, Verdict env start result ∧ ∀ fuel,
      resolveAst env .yes (fuel + 1) policy (trail ++ [policy.sourceId]) = some result) ∨
    ∃ parent, Reached env start (trail ++ [policy.sourceId]) parent ∧ ∀ fuel,
      resolveAst env .yes (fuel + 1) policy (trail ++ [policy.sourceId]) =
        (resolveAst env .yes fuel parent (trail ++ [policy.sourceId] ++ [parent.sourceId])).map
          fun resolved => resolved.bind fun parent =>
            mergePolicy parent policy.ast policy.sourceId := by
  cases htarget : target env policy with
  | none =>
    have hend : followed env policy.sourceId = none := (followed_eq h).trans htarget
    left
    cases hclause : policy.ast.extendsSource with
    | none =>
      refine ⟨resolveRoot policy, Verdict.ends h.fresh hend ?_, fun fuel => ?_⟩
      · exact fun error => resolveRoot_error
      · simp only [resolveAst, hclause]
    | some clause =>
      obtain ⟨error, hload, hcyclic⟩ :=
        loadParent_of_no_target htarget hclause (trail ++ [policy.sourceId])
      refine ⟨.error error, Verdict.ends h.fresh hend ?_, fun fuel => ?_⟩
      · rintro _ ⟨rfl⟩
        exact hcyclic
      · simp only [resolveAst, hclause, hload]
  | some source =>
    have hnext : followed env policy.sourceId = some source := (followed_eq h).trans htarget
    obtain ⟨clause, hclause, hload⟩ := loadParent_of_target htarget (trail ++ [policy.sourceId])
    by_cases hstack : source ∈ trail ++ [policy.sourceId]
    · -- the stack is the trail, so what it reports is a loop
      left
      obtain ⟨before, rest, hsplit⟩ := List.append_of_mem hstack
      have hfresh := h.fresh
      have hlast : (trail ++ [policy.sourceId]).getLast? = some policy.sourceId := by simp
      rw [hsplit] at hfresh hlast hload
      rw [loadSource_cyclic (target_ne_inline htarget) hfresh.nodup] at hload
      refine ⟨_, .inl ⟨before, source, rest, hfresh.closes hlast hnext, rfl⟩, fun fuel => ?_⟩
      simp only [hsplit, resolveAst, hclause, hload]
    · have hfresh := h.fresh.extend hnext hstack
      cases hopened : opened env source with
      | none =>
        left
        obtain ⟨error, herror, hcyclic⟩ := loadSource_not_opened hopened hstack
        rw [herror] at hload
        have hend : followed env source = none := by rw [followed, hopened, Option.bind_none]
        refine ⟨.error error, Verdict.ends hfresh hend ?_, fun fuel => ?_⟩
        · rintro _ ⟨rfl⟩
          exact hcyclic
        · simp only [resolveAst, hclause, hload]
      | some parent =>
        right
        have hid := opened_sourceId hopened
        rw [loadSource_opened hopened hstack] at hload
        rw [← hid] at hfresh hopened hload
        refine ⟨parent, ⟨hfresh, hopened⟩, fun fuel => ?_⟩
        simp only [resolveAst, hclause, hload]

/-- Every source that is left adds one to the fuel that is needed. -/
theorem Reached.settles {sources : Finset PolicySourceId}
    (hsources : ∀ source parent, followed env source = some parent → source ∈ sources) {n : Nat}
    (h : Reached env start trail policy) (hn : sources.card ≤ trail.length + n) :
    ∃ result, Verdict env start result ∧ ∀ fuel, n < fuel →
      resolveAst env .yes fuel policy (trail ++ [policy.sourceId]) = some result := by
  induction n generalizing trail policy with
  | zero =>
    rcases h.step with ⟨result, hverdict, hresult⟩ | ⟨parent, hparent, -⟩
    · refine ⟨result, hverdict, fun fuel hfuel => ?_⟩
      obtain ⟨fuel, rfl⟩ := Nat.exists_eq_succ_of_ne_zero hfuel.ne'
      exact hresult fuel
    · have hlength := hparent.fresh.length_le hsources
      rw [List.length_append, List.length_singleton] at hlength
      omega
  | succ n ih =>
    rcases h.step with ⟨result, hverdict, hresult⟩ | ⟨parent, hparent, hresolve⟩
    · refine ⟨result, hverdict, fun fuel hfuel => ?_⟩
      obtain ⟨fuel, rfl⟩ := Nat.exists_eq_succ_of_ne_zero (Nat.zero_lt_of_lt hfuel).ne'
      exact hresult fuel
    · obtain ⟨resolved, hverdict, hresolved⟩ := ih hparent (by
        rw [List.length_append, List.length_singleton]
        omega)
      refine ⟨_, hverdict.bind policy.ast policy.sourceId, fun fuel hfuel => ?_⟩
      obtain ⟨fuel, rfl⟩ := Nat.exists_eq_succ_of_ne_zero (Nat.zero_lt_of_lt hfuel).ne'
      rw [hresolve, hresolved fuel (by omega), Option.map_some]

/-- The sources that hold a policy are finitely many. -/
theorem FiniteSources.followed (h : FiniteSources env) :
    ∃ sources : Finset PolicySourceId,
      ∀ source parent, followed env source = some parent → source ∈ sources := by
  have hfinite := (h.files.image PolicySourceId.file).union
    (h.bundled.image PolicySourceId.bundled)
  refine ⟨hfinite.toFinset, fun source parent hnext => ?_⟩
  rw [Set.Finite.mem_toFinset]
  obtain ⟨policy, hopened, -⟩ := Option.bind_eq_some_iff.mp hnext
  cases source with
  | inline => cases hopened
  | bundled name =>
    obtain ⟨text, htext, -⟩ := Option.bind_eq_some_iff.mp hopened
    exact .inr ⟨name, ⟨text, htext⟩, rfl⟩
  | file path =>
    obtain ⟨text, htext, -⟩ := Option.bind_eq_some_iff.mp hopened
    refine .inl ⟨path, ⟨text, ?_⟩, rfl⟩
    cases hread : env.readToString path with
    | error e => simp [hread, Except.toOption] at htext
    | ok read => simpa [hread, Except.toOption] using htext

/-- Resolving a file that can be found settles. -/
theorem resolvePolicyFile_settles (h : FiniteSources env) {path : String} {canonical : Path}
    (hpath : env.canonicalize path = .ok canonical) :
    ∃ result, Verdict env (.file canonical) result ∧
      ∃ enough, ∀ fuel, enough < fuel → resolvePolicyFile env fuel path = some result := by
  have hcanonical : canonicalizeExistingPath env path = .ok canonical := by
    rw [canonicalizeExistingPath, hpath]
    rfl
  have hnil : PolicySourceId.file canonical ∉ [] := List.not_mem_nil
  cases hopened : opened env (.file canonical) with
  | none =>
    obtain ⟨error, hload, hcyclic⟩ := loadSource_not_opened hopened hnil
    have hend : followed env (.file canonical) = none := by
      rw [Dsl.followed, hopened, Option.bind_none]
    have hfresh : Trail.Fresh (followed env) (.file canonical) ([] ++ [.file canonical]) :=
      Trail.fresh_singleton _
    refine ⟨.error error, Verdict.ends hfresh hend ?_, 0, fun fuel _ => ?_⟩
    · rintro _ ⟨rfl⟩
      exact hcyclic
    · rw [loadSource] at hload
      simp only [resolvePolicyFile, hcanonical, hload]
  | some policy =>
    have hload := loadSource_opened hopened hnil
    have hid := opened_sourceId hopened
    obtain ⟨sources, hsources⟩ := h.followed
    have hreached : Reached env (.file canonical) [] policy :=
      ⟨hid ▸ Trail.fresh_singleton _, hid ▸ hopened⟩
    obtain ⟨result, hverdict, hresult⟩ :=
      hreached.settles hsources (n := sources.card) (Nat.le_add_left ..)
    refine ⟨result, hverdict, sources.card, fun fuel hfuel => ?_⟩
    have := hresult fuel hfuel
    rw [loadSource] at hload
    rw [hid] at this
    simp only [resolvePolicyFile, hcanonical, hload]
    exact this

end Resolution

/-- Over finitely many sources a policy file is always resolved or refused, it is refused as
cyclic exactly if the links from it come back to a source, what is reported then is the loop,
and a trail that ends is never refused as cyclic. -/
theorem resolvePolicyFile_cyclic_iff {env : PolicyEnv} (h : FiniteSources env) (path : String) :
    ∃ result, (∃ enough, ∀ fuel, enough < fuel → resolvePolicyFile env fuel path = some result) ∧
      ((∃ error, result = .error error ∧ IsCyclic error) ↔
        ∃ start before source rest, env.canonicalize path = .ok start ∧
          Revisits env (.file start) before source rest) ∧
      (∀ error, result = .error error → IsCyclic error →
        ∃ start before source rest, env.canonicalize path = .ok start ∧
          Revisits env (.file start) before source rest ∧
          error = cyclicExtends (loopText source rest)) ∧
      ∀ start trail last, env.canonicalize path = .ok start →
        Trail.Fresh (followed env) (.file start) (trail ++ [last]) → followed env last = none →
        ∀ error, result = .error error → ¬ IsCyclic error := by
  cases hpath : env.canonicalize path with
  | error message =>
    obtain ⟨error, hcanonical⟩ : ∃ error, canonicalizeExistingPath env path = .error error := by
      rw [canonicalizeExistingPath, hpath]
      exact ⟨_, rfl⟩
    have hcyclic := canonicalizeExistingPath_error hcanonical
    refine ⟨.error error, ⟨0, fun fuel _ => ?_⟩, ?_, ?_, ?_⟩
    · simp only [resolvePolicyFile, hcanonical]
    · constructor
      · rintro ⟨_, ⟨rfl⟩, h⟩
        exact absurd h hcyclic
      · rintro ⟨_, _, _, _, h, _⟩
        cases h
    · rintro _ ⟨rfl⟩ h
      exact absurd h hcyclic
    · rintro _ _ _ h
      cases h
  | ok start =>
    obtain ⟨result, hverdict, hresult⟩ := resolvePolicyFile_settles h hpath
    refine ⟨result, hresult, ?_⟩
    rcases hverdict with ⟨before, source, rest, hloop, rfl⟩ | ⟨hnone, herror⟩
    · refine ⟨⟨fun _ => ⟨start, before, source, rest, rfl, hloop⟩, fun _ => ⟨_, rfl, _, rfl⟩⟩, ?_, ?_⟩
      · rintro _ ⟨rfl⟩ _
        exact ⟨start, before, source, rest, rfl, hloop, rfl⟩
      · rintro _ trail last ⟨rfl⟩ hfresh hend
        exact absurd hloop (hfresh.not_closes hend)
    · refine ⟨⟨?_, ?_⟩, ?_, ?_⟩
      · rintro ⟨error, hresult, hcyclic⟩
        exact absurd hcyclic (herror error hresult)
      · rintro ⟨_, before, source, rest, ⟨rfl⟩, hloop⟩
        exact absurd hloop (hnone before source rest)
      · exact fun error hresult hcyclic => absurd hcyclic (herror error hresult)
      · exact fun _ _ _ _ _ _ => herror

def thereText : String :=
  "policy \"there\" extends \"file://back.voom\" \x7b phase tidy \x7b clear_tags \x7d \x7d"

def backText : String :=
  "policy \"back\" extends \"file://there.voom\" \x7b phase tidy \x7b clear_tags \x7d \x7d"

def therePolicy : PolicyAst where
  name := "there"
  extendsSource := some (.file "file://back.voom")
  phases := [
    { name := "tidy"
      operations := [⟨.clearTags, ⟨57, 67, 1, 58⟩⟩]
      span := ⟨44, 69, 1, 45⟩ }]
  span := ⟨0, 71, 1, 1⟩

def backPolicy : PolicyAst where
  name := "back"
  extendsSource := some (.file "file://there.voom")
  phases := [
    { name := "tidy"
      operations := [⟨.clearTags, ⟨57, 67, 1, 58⟩⟩]
      span := ⟨44, 69, 1, 45⟩ }]
  span := ⟨0, 71, 1, 1⟩

/-- A directory `/p` with two policies that extend each other. -/
def thereAndBack : PolicyEnv where
  parsePolicy source :=
    if source = thereText then .ok therePolicy
    else if source = backText then .ok backPolicy
    else .error (.parse 1 1 "expected policy" none)
  bundledPolicy _ := none
  readToString path :=
    if path = ⟨["p", "there.voom"]⟩ then .ok thereText
    else if path = ⟨["p", "back.voom"]⟩ then .ok backText
    else .error "No such file or directory (os error 2)"
  canonicalize path :=
    if path = "/p/there.voom" then .ok ⟨["p", "there.voom"]⟩
    else if path = "/p/back.voom" then .ok ⟨["p", "back.voom"]⟩
    else .error "No such file or directory (os error 2)"

theorem thereAndBack_finite : FiniteSources thereAndBack := by
  constructor
  · refine Set.Finite.subset (Set.toFinite {⟨["p", "there.voom"]⟩, ⟨["p", "back.voom"]⟩}) ?_
    rintro path ⟨text, htext⟩
    simp only [thereAndBack] at htext
    split at htext
    · exact .inl ‹_›
    split at htext
    · exact .inr ‹_›
    · cases htext
  · refine Set.Finite.subset Set.finite_empty ?_
    rintro name ⟨text, htext⟩
    cases htext

theorem thereAndBack_cyclic :
    resolvePolicyFile thereAndBack 3 "/p/there.voom" =
        some (.error (cyclicExtends "/p/there.voom -> /p/back.voom -> /p/there.voom")) ∧
      ∃ start before source rest, thereAndBack.canonicalize "/p/there.voom" = .ok start ∧
        Revisits thereAndBack (.file start) before source rest := by
  have hreport : ∀ fuel, resolvePolicyFile thereAndBack (fuel + 3) "/p/there.voom" =
      some (.error (cyclicExtends "/p/there.voom -> /p/back.voom -> /p/there.voom")) :=
    fun fuel => rfl
  refine ⟨hreport 0, ?_⟩
  obtain ⟨result, ⟨enough, hresult⟩, hiff, -⟩ :=
    resolvePolicyFile_cyclic_iff thereAndBack_finite "/p/there.voom"
  have hsame := (hresult (enough + 3) (by omega)).symm.trans (hreport enough)
  exact hiff.mp ⟨_, Option.some.inj hsame, _, rfl⟩

end Voom.Dsl
