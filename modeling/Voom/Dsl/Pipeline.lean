-- SUMMARY: From a source text to a compiled policy.
import Voom.Dsl.ParsedOperators
import Voom.Dsl.Validator

/-!
# Pipeline

A text is parsed, validated and compiled, in this order; a policy that extends another one is
left to the functions that resolve it.
-/

namespace Voom.Dsl

/-- The stage that stops the pipeline, and how. -/
inductive PipelineFailure where
  | parse (failure : ParseFailure)
  | validation (errors : List DslError)
  | compile (failure : CompileFailure)

/-- What the pipeline leaves to libraries. -/
structure PipelineEnv where
  parser : ParseEnv
  compiler : CompileEnv
  partition : PartitionPoint
  /-- The XXH3 digest of a text, as sixteen digits. -/
  xxh3 : String → String

variable {env : PipelineEnv} {source : String}

variable (env source) in
def compilePolicy : Except PipelineFailure CompiledPolicy := do
  let ast ← (parsePolicy env.parser source).mapError .parse
  if ast.extendsSource.isSome then
    throw (.compile (.error (.compile
      ("policy extends requires composition resolution; " ++
        "use compile_policy_with_bundled(source) or compile_policy_file(path)"))))
  (validate env.compiler ast).mapError .validation
  let policy ← (compileAst env.compiler env.partition ast).mapError .compile
  return { policy with sourceHash := env.xxh3 source }

/-- A policy that comes out of the pipeline has the guards of the parsed one, compiled. -/
theorem compilePolicy_guards {ast : PolicyAst} {policy : CompiledPolicy}
    (hparse : parsePolicy env.parser source = .ok ast)
    (h : compilePolicy env source = .ok policy) :
    List.Forall₂ (CompilesTo env.compiler) ast.guards policy.guards := by
  unfold compilePolicy at h
  rw [hparse] at h
  obtain ⟨parsed, hparsed, h⟩ := Lib.bind_eq_ok.mp h
  obtain rfl := Except.ok.inj hparsed
  split at h
  · cases h
  · obtain ⟨-, -, h⟩ := Lib.bind_eq_ok.mp h
    obtain ⟨compiled, hcompiled, h⟩ := Lib.bind_eq_ok.mp h
    obtain rfl := Except.ok.inj h
    have hguards := compileAstWithComposition_guards (Lib.mapError_eq_ok.mp hcompiled)
    exact hguards

theorem exists_of_forall₂ {α β : Type} {R : α → β → Prop} {xs : List α} {ys : List β}
    (h : List.Forall₂ R xs ys) :
    (∀ x ∈ xs, ∃ y ∈ ys, R x y) ∧ ∀ y ∈ ys, ∃ x ∈ xs, R x y := by
  induction h with
  | nil => exact ⟨nofun, nofun⟩
  | @cons x y xs ys hxy _ ih =>
    constructor
    · rw [List.forall_mem_cons]
      refine ⟨⟨y, List.mem_cons_self, hxy⟩, fun x' hx' => ?_⟩
      obtain ⟨y', hy', hxy'⟩ := ih.1 x' hx'
      exact ⟨y', List.mem_cons_of_mem y hy', hxy'⟩
    · rw [List.forall_mem_cons]
      refine ⟨⟨x, List.mem_cons_self, hxy⟩, fun y' hy' => ?_⟩
      obtain ⟨x', hx', hxy'⟩ := ih.2 y' hy'
      exact ⟨x', List.mem_cons_of_mem x hx', hxy'⟩

end Voom.Dsl
