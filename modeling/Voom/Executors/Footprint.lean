-- SUMMARY: Which files the executors touch: when nothing but the planned file changes, whatever the tools do.
import Voom.Executors.DiskJobs

/-!
# Footprints

An executor touches only what was planned if this holds for every way its tools can go and for
everything they can write. That is decided by the plan and the disk before the execution: by how
many jobs the plan takes, and by the path the output goes to.
-/

namespace Voom.Executors

open Lib.Jobs (Outcome Run)

/-! ## Contents and tools to go wrong with -/

/-- A content that is not the one given. -/
def otherThan (content : Option Content) : Content := 0 :: content.getD []

theorem otherThan_ne (content : Option Content) : some (otherThan content) ≠ content := by
  cases content with
  | none => simp
  | some bytes => simp [otherThan]

def exitsWith (code : Int) : ToolOutput :=
  { code := some code, statusText := "", stderr := "", durationMs := 0 }

def timesOut : ToolOutcome := .error (.toolExecution "" "timed out")

theorem placed_without_store (session : Option Uuid) (dest : Path) :
    Mkvtoolnix.placed none session dest (.ok ()) = true := by
  cases session <;> rfl

/-- A mux that is refused: its language is not valid. -/
def muxRefused (action : PlannedAction) : Bool :=
  match action.parameters with
  | .muxSubtitle _ language _ _ => !isValidLanguage language
  | _ => true

theorem muxRefused_eq_false {action : PlannedAction} (h : muxRefused action = false) :
    ∃ subtitlePath language forced title,
      action.parameters = .muxSubtitle subtitlePath language forced title ∧
        isValidLanguage language = true := by
  unfold muxRefused at h
  split at h
  · rename_i subtitlePath language forced title hparams
    exact ⟨subtitlePath, language, forced, title, hparams, by simpa using h⟩
  · cases h

/-- At most one mux is come to before all that can fail has failed. -/
def MuxesOnce (plan : Plan) : Prop :=
  (Mkvtoolnix.muxes plan).length ≤ 1 ∨
    ∃ first rest, Mkvtoolnix.muxes plan = first :: rest ∧ muxRefused first = true

/-- The output takes the place of the file, or goes to a free path of a conversion. -/
def GoesTo (plan : Plan) (disk : Disk) (dest : Path) : Prop :=
  dest = plan.file.path ∨ (dest ∈ newPaths plan ∧ disk dest = none)

section Rules

variable {plan : Plan} {disk : Disk} {p t₁ : Path} {left' : Content} {outcome : Outcome}
  {rest : List (Run Path Content)} {succeeded : Prop}

/-- A second job in place that ends the series leaves what the first one wrote. -/
theorem after_second_ends (t₀ : Path) (left : Content) (disk : Disk) (hends : outcome.ends = true)
    (ht : p ≠ t₁) :
    Lib.Jobs.after (⟨.replace t₀ p p, .done, left⟩ :: ⟨.replace t₁ p p, outcome, left'⟩ :: rest)
      disk p = some left := by
  have hne : outcome ≠ .done := by
    rintro rfl
    cases hends
  rw [Lib.Jobs.after_cons_of_goes_on rfl, Lib.Jobs.after_cons_of_ends (by exact hends)]
  exact (Lib.Jobs.replace_not_done hne ht).trans Lib.Jobs.replace_dest

/-- An output that is put in place goes where it may. -/
theorem OnlyPlanned.goesTo {temp dest : Path} (ht : temp ≠ dest)
    (h : OnlyPlanned plan [⟨.replace temp plan.file.path dest, .done, otherThan (disk dest)⟩]
      succeeded disk
      (Lib.Jobs.after [⟨.replace temp plan.file.path dest, .done, otherThan (disk dest)⟩] disk)) :
    GoesTo plan disk dest := by
  by_cases hself : dest = plan.file.path
  · exact .inl hself
  · refine .inr ((h.others dest hself ?_).resolve_left ?_)
    · rw [Lib.Jobs.temps_single]
      simpa [Lib.Jobs.Job.temp?] using ht.symm
    · rw [Lib.Jobs.after_single]
      intro heq
      exact otherThan_ne _ (Lib.Jobs.replace_dest.symm.trans heq)

/-- The jobs of the muxes of a plan, each in place of the file. -/
def muxJobs (plan : Plan) (temp : Nat → Path) (outcome : PlannedAction → Nat → Outcome)
    (left : Nat → Content) : List (Run Path Content) :=
  (Mkvtoolnix.muxes plan).zipIdx.map fun p =>
    ⟨.replace (temp p.2) plan.file.path plan.file.path, outcome p.1 p.2, left p.2⟩

variable {temp : Nat → Path} {how : PlannedAction → Nat → Outcome}

theorem OnlyPlanned.of_muxes {left : Nat → Content} (honce : MuxesOnce plan)
    (htemp : ∀ i, temp i ≠ plan.file.path)
    (hrefused : ∀ action, muxRefused action = true → how action 0 = .refused)
    (hsucceeded : succeeded ↔ ∀ r ∈ muxJobs plan temp how left, r.outcome = .done) :
    OnlyPlanned plan (muxJobs plan temp how left) succeeded disk
      (Lib.Jobs.after (muxJobs plan temp how left) disk) := by
  unfold muxJobs at hsucceeded ⊢
  rcases honce with hone | ⟨first, rest, hmuxes, hfirst⟩
  · match hmuxes : Mkvtoolnix.muxes plan with
    | [] => exact .of_nil
    | [first] =>
      rw [hmuxes] at hsucceeded
      refine OnlyPlanned.of_replace (htemp 0) (htemp 0) (.inl rfl) (hsucceeded.trans ?_)
      simp
    | first :: second :: rest => simp [hmuxes] at hone
  · rw [hmuxes] at hsucceeded ⊢
    refine OnlyPlanned.of_refused (hrefused first hfirst) fun hall => ?_
    have hdone : how first 0 = .done := hsucceeded.mp hall _ List.mem_cons_self
    rw [hrefused first hfirst] at hdone
    cases hdone

/-- With a mux after one that can be done, the first may be done and the second not. -/
theorem OnlyPlanned.muxesOnce {left : Nat → Content}
    (h : OnlyPlanned plan (muxJobs plan temp how left) succeeded disk
      (Lib.Jobs.after (muxJobs plan temp how left) disk))
    (htemp : ∀ i, temp i ≠ plan.file.path) (hleft : left 0 = otherThan (disk plan.file.path))
    (hdone : ∀ action, muxRefused action = false → how action 0 = .done)
    (hends : ∀ action, (how action 1).ends = true)
    (hsucceeded : succeeded → ∀ r ∈ muxJobs plan temp how left, r.outcome = .done) :
    MuxesOnce plan := by
  unfold muxJobs at h hsucceeded
  match hmuxes : Mkvtoolnix.muxes plan with
  | [] => exact .inl (by simp [hmuxes])
  | [_] => exact .inl (by simp [hmuxes])
  | first :: second :: rest =>
    by_cases hrefused : muxRefused first = true
    · exact .inr ⟨first, _, hmuxes, hrefused⟩
    · rw [Bool.not_eq_true] at hrefused
      rw [hmuxes] at h hsucceeded
      have hsecond := hends second
      have hfailed : ¬ succeeded := fun hall => by
        have hdone : how second 1 = .done :=
          hsucceeded hall _ (List.mem_cons_of_mem _ List.mem_cons_self)
        rw [hdone] at hsecond
        cases hsecond
      have hsame := (h.failure hfailed).1
      simp only [List.zipIdx_cons, List.map_cons, hdone first hrefused, hleft] at hsame
      exfalso
      refine otherThan_ne _ (Eq.trans ?_ hsame)
      exact (after_second_ends _ _ _ hsecond (htemp 1).symm).symm

end Rules

/-! ## MKVToolNix -/

namespace Mkvtoolnix

/-- Whatever the tools do, only what was planned is touched. -/
def TouchesOnlyPlanned (plan : Plan) (disk : Disk) : Prop :=
  ∀ (env : Env) (left : Left), env.Sees plan disk →
    OnlyPlanned plan (jobs env left plan) (AllSucceeded (executePlan env plan).result) disk
      (diskAfter env left plan disk)

/-- The file is there for one job only, and its output goes where it may; edits in place are
refused. -/
def Tidy (plan : Plan) (disk : Disk) : Prop :=
  (disk plan.file.path).isSome = true →
    if plan.actions.any (·.operation = .muxSubtitle) then MuxesOnce plan
    else if edits plan = [] then GoesTo plan disk (determineFinalPath plan.file.path (merges plan))
    else (plan.file.container = .mkv ∨ merges plan = []) ∧
      ∃ e, buildPropeditArgs plan.file.path (edits plan) = .error e

section

variable {plan : Plan} {disk : Disk}

theorem temp_ne_dest (id : String) (actions : List PlannedAction) (path : Path) :
    tempPathWithExt path id "mkv" ≠ determineFinalPath path actions := by
  unfold determineFinalPath
  split
  · exact tempPathWithExt_ne_withExtension path id "mkv"
  · exact tempPathWithExt_ne path id "mkv"

theorem muxOutcome_of_refused {env : Env} {action : PlannedAction} (h : muxRefused action = true)
    (i : Nat) : muxOutcome env plan i action = .refused := by
  unfold muxRefused at h
  unfold muxOutcome
  split
  · rename_i hparams
    rw [hparams] at h
    rw [if_pos (by exact h)]
  · rfl

theorem jobs_of_muxes {env : Env} (left : Left) (hfile : env.fileExists = true)
    (hmux : plan.actions.any (·.operation = .muxSubtitle) = true) :
    jobs env left plan = muxJobs plan
      (fun i => tempPathWithExt plan.file.path (env.mux i).tempId "mkv")
      (fun action i => muxOutcome env plan i action) left.mux := by
  simp only [jobs, hfile, hmux, Bool.not_true, Bool.false_eq_true, if_false, if_true]
  rfl

/-- What the jobs are when there is nothing to mux or to edit. -/
theorem jobs_of_merges {env : Env} {left : Left} (hfile : env.fileExists = true)
    (hmux : plan.actions.any (·.operation = .muxSubtitle) = false) (hedits : edits plan = []) :
    jobs env left plan = mergeJobs env left plan := by
  have hnone : editJobs env left plan = [] := if_pos hedits
  simp only [jobs, hfile, hmux, hnone, Bool.not_true, Bool.false_eq_true, if_false, List.nil_append,
    List.append_nil, ite_self]

theorem touchesOnlyPlanned_of_tidy (h : Tidy plan disk) : TouchesOnlyPlanned plan disk := by
  intro env left hsees
  have hsucceeded := executePlan_allSucceeded_iff env left plan
  unfold diskAfter
  by_cases hfile : env.fileExists = true
  · have htidy := h (hsees.1 ▸ hfile)
    simp only [hfile, true_and] at hsucceeded
    by_cases hmux : plan.actions.any (·.operation = .muxSubtitle) = true
    · rw [if_pos hmux] at htidy
      have hjobs := jobs_of_muxes left hfile hmux
      rw [hjobs] at hsucceeded ⊢
      exact .of_muxes htidy (fun _ => tempPathWithExt_ne _ _ _)
        (fun action hrefused => muxOutcome_of_refused hrefused 0) hsucceeded
    · rw [if_neg hmux] at htidy
      rw [Bool.not_eq_true] at hmux
      by_cases hedits : edits plan = []
      · rw [if_pos hedits] at htidy
        rw [jobs_of_merges hfile hmux hedits] at hsucceeded ⊢
        unfold mergeJobs at hsucceeded ⊢
        split
        · exact .of_nil
        · rename_i hmerges
          rw [if_neg hmerges] at hsucceeded
          refine OnlyPlanned.of_replace (tempPathWithExt_ne _ _ _) (temp_ne_dest _ _ _) htidy
            (hsucceeded.trans ?_)
          simp
      · rw [if_neg hedits] at htidy
        obtain ⟨hfirst, e, hargs⟩ := htidy
        have hpath : editPath plan = plan.file.path := if_pos hfirst
        have hjobs : jobs env left plan =
            ⟨.edit plan.file.path, .refused, left.edit⟩ :: mergeJobs env left plan := by
          simp [jobs, hfile, hmux, hfirst, editJobs, hedits, hpath, editOutcome, hargs]
        rw [hjobs] at hsucceeded ⊢
        refine OnlyPlanned.of_refused rfl fun hall => ?_
        exact absurd (hsucceeded.mp hall _ List.mem_cons_self) (by simp)
  · have hjobs : jobs env left plan = [] := by simp [jobs, hfile]
    rw [hjobs]
    exact .of_nil

/-! ### Ways to go wrong -/

/-- Tools that work, apart from what mkvpropedit does and the muxes after the first. -/
def brokenEnv (propedit : ToolOutcome) : Env where
  fileExists := true
  stillExists := true
  storage := none
  propedit := propedit
  merge := ⟨"", .ok (exitsWith 0), .ok ()⟩
  mux := fun i => ⟨"", if i = 0 then .ok (exitsWith 0) else timesOut, .ok ()⟩

/-- All contents are other than the one given. -/
def spoilt (content : Option Content) : Left :=
  ⟨otherThan content, otherThan content, fun _ => otherThan content⟩

theorem brokenEnv_merges (propedit : ToolOutcome) (session : Option Uuid)
    (actions : List PlannedAction) (path : Path) :
    mergeOutcome (brokenEnv propedit) path session actions = .done := by
  simp [mergeOutcome, brokenEnv, mergeSucceeded, exitsWith, placed_without_store]

theorem brokenEnv_sees (hexists : (disk plan.file.path).isSome = true) (propedit : ToolOutcome) :
    (brokenEnv propedit).Sees plan disk :=
  ⟨hexists.symm, hexists.symm⟩

theorem muxesOnce_of_touchesOnlyPlanned (h : TouchesOnlyPlanned plan disk)
    (hexists : (disk plan.file.path).isSome = true)
    (hmux : plan.actions.any (·.operation = .muxSubtitle) = true) : MuxesOnce plan := by
  let env := brokenEnv timesOut
  let left := spoilt (disk plan.file.path)
  have honly := h env left (brokenEnv_sees hexists timesOut)
  have hsucceeded := executePlan_allSucceeded_iff env left plan
  unfold diskAfter at honly
  rw [jobs_of_muxes left rfl hmux] at honly hsucceeded
  refine honly.muxesOnce (fun _ => tempPathWithExt_ne _ _ _) rfl ?_ ?_ fun hall =>
    (hsucceeded.mp hall).2
  · intro action hvalid
    obtain ⟨_, _, _, _, hparams, hlanguage⟩ := muxRefused_eq_false hvalid
    simp [muxOutcome, hparams, hlanguage, env, brokenEnv, muxSucceeded, exitsWith,
      ToolOutput.success, placed_without_store]
  · intro action
    unfold muxOutcome
    split
    · split
      · rfl
      · simp [env, brokenEnv, timesOut, Outcome.ends]
    · rfl

/-- An edit in place may leave a changed file and fail. -/
theorem edits_refused_of_touchesOnlyPlanned (h : TouchesOnlyPlanned plan disk)
    (hexists : (disk plan.file.path).isSome = true)
    (hmux : plan.actions.any (·.operation = .muxSubtitle) = false) (hedits : edits plan ≠ [])
    (hfirst : plan.file.container = .mkv ∨ merges plan = []) :
    ∃ e, buildPropeditArgs plan.file.path (edits plan) = .error e := by
  cases hargs : buildPropeditArgs plan.file.path (edits plan) with
  | error e => exact ⟨e, rfl⟩
  | ok args =>
    exfalso
    let env := brokenEnv (.ok (exitsWith 1))
    let left := spoilt (disk plan.file.path)
    have hpath : editPath plan = plan.file.path := if_pos hfirst
    have houtcome : editOutcome env plan.file.path (edits plan) = .aborted := by
      simp [editOutcome, hargs, env, brokenEnv, exitsWith, ToolOutput.success]
    have hjobs : jobs env left plan =
        ⟨.edit plan.file.path, .aborted, left.edit⟩ :: mergeJobs env left plan := by
      have hfile : env.fileExists = true := rfl
      simp [jobs, hfile, hmux, hfirst, editJobs, hedits, hpath, houtcome]
    have hfailed : ¬ AllSucceeded (executePlan env plan).result := by
      rw [executePlan_allSucceeded_iff env left, hjobs]
      rintro ⟨-, hall⟩
      exact absurd (hall _ List.mem_cons_self) (by simp)
    have hsame := ((h env left (brokenEnv_sees hexists _)).failure hfailed).1
    unfold diskAfter at hsame
    rw [hjobs, Lib.Jobs.after_cons_of_ends rfl] at hsame
    exact otherThan_ne _ ((Lib.Jobs.edit_target (by simp) hexists).symm.trans hsame)

/-- After a conversion to MKV, the edits of the new file may fail. -/
theorem editsFirst_of_touchesOnlyPlanned {available : Bool}
    (hhandles : canHandle available plan = true) (h : TouchesOnlyPlanned plan disk)
    (hexists : (disk plan.file.path).isSome = true)
    (hmux : plan.actions.any (·.operation = .muxSubtitle) = false) (hedits : edits plan ≠ []) :
    plan.file.container = .mkv ∨ merges plan = [] := by
  by_contra hfirst
  let env := brokenEnv timesOut
  let left := spoilt (disk plan.file.path)
  rw [not_or] at hfirst
  obtain ⟨hcontainer, hmerges⟩ := hfirst
  have hconvert : (merges plan).any (·.operation = .convertContainer) = true := by
    simp only [canHandle, Bool.and_eq_true, Bool.or_eq_true, decide_eq_true_eq, hcontainer,
      false_or, List.any_eq_true] at hhandles
    obtain ⟨⟨-, a, ha, hmkv⟩, -⟩ := hhandles
    simp only [isConvertToMkv, Bool.and_eq_true, decide_eq_true_eq] at hmkv
    refine List.any_eq_true.mpr ⟨a, ?_, by simp [hmkv.1]⟩
    simp only [merges, classifyActions, List.mem_filter, hmkv.1]
    exact ⟨ha, by decide⟩
  have hfinal : determineFinalPath plan.file.path (merges plan) =
      plan.file.path.withExtension "mkv" := if_pos hconvert
  have hpath : editPath plan = plan.file.path.withExtension "mkv" :=
    if_neg (by simp [hcontainer, hmerges])
  have hends : (editOutcome env (plan.file.path.withExtension "mkv") (edits plan)).ends = true := by
    unfold editOutcome
    cases buildPropeditArgs (plan.file.path.withExtension "mkv") (edits plan) <;> rfl
  have hmerged : mergeOutcome env plan.file.path plan.scanSession (merges plan) = .done :=
    brokenEnv_merges _ _ _ _
  let merge : Run Path Content :=
    ⟨.replace (tempPathWithExt plan.file.path "" "mkv") plan.file.path
      (plan.file.path.withExtension "mkv"), .done, otherThan (disk plan.file.path)⟩
  let edit : Run Path Content :=
    ⟨.edit (plan.file.path.withExtension "mkv"),
      editOutcome env (plan.file.path.withExtension "mkv") (edits plan),
      otherThan (disk plan.file.path)⟩
  have hjobs : jobs env left plan = [merge, edit] := by
    have hfile : env.fileExists = true := rfl
    simp only [jobs, hfile, hmux, hcontainer, hmerges, or_self, Bool.not_true, Bool.false_eq_true,
      if_false, mergeJobs, editJobs, hedits, hmerged, hfinal, hpath]
    rfl
  have hfailed : ¬ AllSucceeded (executePlan env plan).result := by
    rw [executePlan_allSucceeded_iff env left, hjobs]
    rintro ⟨-, hall⟩
    have hdone : editOutcome env (plan.file.path.withExtension "mkv") (edits plan) = .done :=
      hall edit (by simp)
    rw [hdone] at hends
    cases hends
  have hsame := ((h env left (brokenEnv_sees hexists _)).failure hfailed).1
  unfold diskAfter at hsame
  rw [hjobs, Lib.Jobs.after_cons_of_goes_on rfl, Lib.Jobs.after_single] at hsame
  by_cases hself : plan.file.path = plan.file.path.withExtension "mkv"
  · -- The output stands at the path of the file, edited or not.
    have hwritten : merge.after disk (plan.file.path.withExtension "mkv") =
        some (otherThan (disk plan.file.path)) := Lib.Jobs.replace_dest
    have hcontent : edit.after (merge.after disk) (plan.file.path.withExtension "mkv") =
        some (otherThan (disk plan.file.path)) := by
      by_cases hrefused : edit.outcome = .refused
      · simp only [Run.after, hrefused, Lib.Jobs.after_refused]
        exact hwritten
      · exact Lib.Jobs.edit_target hrefused (by rw [hwritten]; rfl)
    rw [← hself] at hcontent
    exact otherThan_ne _ (hcontent.symm.trans hsame)
  · have hgone : merge.after disk plan.file.path = none := Lib.Jobs.replace_source hself
    have hstill : edit.after (merge.after disk) plan.file.path = none :=
      (Lib.Jobs.edit_of_ne hself).trans hgone
    rw [← hsame, hstill] at hexists
    cases hexists

theorem goesTo_of_touchesOnlyPlanned (h : TouchesOnlyPlanned plan disk)
    (hexists : (disk plan.file.path).isSome = true)
    (hmux : plan.actions.any (·.operation = .muxSubtitle) = false) (hedits : edits plan = []) :
    GoesTo plan disk (determineFinalPath plan.file.path (merges plan)) := by
  by_cases hmerges : merges plan = []
  · exact .inl (by rw [hmerges]; rfl)
  · let env := brokenEnv timesOut
    let left := spoilt (disk (determineFinalPath plan.file.path (merges plan)))
    have honly := h env left (brokenEnv_sees hexists _)
    have hjobs : jobs env left plan =
        [⟨.replace (tempPathWithExt plan.file.path "" "mkv") plan.file.path
          (determineFinalPath plan.file.path (merges plan)), .done, left.output⟩] := by
      rw [jobs_of_merges rfl hmux hedits, mergeJobs, if_neg hmerges, brokenEnv_merges]
      rfl
    unfold diskAfter at honly
    rw [hjobs] at honly
    exact honly.goesTo (temp_ne_dest _ _ _)

/-- The plans and disks on which MKVToolNix touches only what was planned. -/
theorem touchesOnlyPlanned_iff {available : Bool} (hhandles : canHandle available plan = true) :
    TouchesOnlyPlanned plan disk ↔ Tidy plan disk := by
  refine ⟨fun h hexists => ?_, touchesOnlyPlanned_of_tidy⟩
  split
  · rename_i hmux
    exact muxesOnce_of_touchesOnlyPlanned h hexists hmux
  · rename_i hmux
    rw [Bool.not_eq_true] at hmux
    split
    · rename_i hedits
      exact goesTo_of_touchesOnlyPlanned h hexists hmux hedits
    · rename_i hedits
      have hfirst := editsFirst_of_touchesOnlyPlanned hhandles h hexists hmux hedits
      exact ⟨hfirst, edits_refused_of_touchesOnlyPlanned h hexists hmux hedits hfirst⟩

end

end Mkvtoolnix

/-! ## FFmpeg -/

namespace Ffmpeg

/-- Whatever the tools and the store do, only what was planned is touched. -/
def TouchesOnlyPlanned (config : Config) (hasStore : Bool) (plan : Plan) (disk : Disk) : Prop :=
  ∀ (env : RunEnv) (left : Left), env.Sees plan disk → env.storage.isSome = hasStore →
    OnlyPlanned plan (jobs env left plan) (AllSucceeded (executePlan config env plan)) disk
      (diskAfter env left plan disk)

/-- One mux at most, or a command whose output goes where it may, with no outcome that the store
could turn down once the output is in place. -/
def Tidy (hasStore : Bool) (plan : Plan) (disk : Disk) : Prop :=
  if plan.actions.any (·.operation = .muxSubtitle) then MuxesOnce plan
  else ∀ (env : RunEnv) (job : Job), env.Sees plan disk → startJob env plan = .ok job →
    (hasStore = true → transcodes plan = []) ∧
      GoesTo plan disk (finalPath plan.file.path job.extension)

section

variable {config : Config} {hasStore : Bool} {plan : Plan} {disk : Disk}

theorem jobs_of_muxes (env : RunEnv) (left : Left)
    (hmux : plan.actions.any (·.operation = .muxSubtitle) = true) :
    jobs env left plan = muxJobs plan (fun i => tempPath plan.file.path (env.mux i).tempId)
      (fun action i => muxOutcome env plan i action) left.mux := by
  simp only [jobs, hmux, if_true]
  rfl

theorem executePlan_muxes_iff (hhandles : canHandle config plan = true)
    (hmux : plan.actions.any (·.operation = .muxSubtitle) = true) (env : RunEnv) (left : Left) :
    AllSucceeded (executePlan config env plan) ↔
      ∀ r ∈ muxJobs plan (fun i => tempPath plan.file.path (env.mux i).tempId)
        (fun action i => muxOutcome env plan i action) left.mux, r.outcome = .done := by
  unfold executePlan muxJobs
  rw [if_neg (by simp [hhandles]), if_pos hmux, executeMuxes_allSucceeded_iff, List.forall_mem_map]
  rfl

theorem muxOutcome_of_refused {env : RunEnv} {action : PlannedAction}
    (h : muxRefused action = true) (i : Nat) : muxOutcome env plan i action = .refused := by
  unfold muxRefused at h
  unfold muxOutcome
  split
  · rename_i hparams
    rw [hparams] at h
    rw [if_pos (by exact h)]
  · rfl

/-- What a started job is like. -/
theorem startJob_ok {env : RunEnv} {job : Job} (h : startJob env plan = .ok job) :
    env.fileExists = true ∧ ∃ actions, prepareActions env plan = .ok actions ∧
      job.extension = outputExtension plan.file actions ∧
      job.outputPath = tempPathWithExt plan.file.path env.tempId (outputExtension plan.file actions) := by
  unfold startJob at h
  split at h
  · cases h
  · rename_i hfile
    obtain ⟨actions, hactions, h⟩ := Lib.bind_eq_ok.mp h
    obtain ⟨job', hjob, h⟩ := Lib.bind_eq_ok.mp h
    obtain ⟨-, -, h⟩ := Lib.bind_eq_ok.mp h
    obtain rfl := Except.ok.inj h
    unfold jobFor at hjob
    obtain ⟨command, -, hjob⟩ := Lib.bind_eq_ok.mp hjob
    obtain ⟨hdr, -, hjob⟩ := Lib.bind_eq_ok.mp hjob
    obtain rfl := Except.ok.inj hjob
    exact ⟨by simpa using hfile, actions, hactions, rfl, rfl⟩

theorem startJob_outputPath {env : RunEnv} {job : Job} (h : startJob env plan = .ok job) :
    job.outputPath = tempPathWithExt plan.file.path env.tempId job.extension := by
  obtain ⟨-, actions, -, hextension, hpath⟩ := startJob_ok h
  rw [hpath, hextension]

theorem outputPath_ne_dest {env : RunEnv} {job : Job} (h : startJob env plan = .ok job) :
    job.outputPath ≠ finalPath plan.file.path job.extension := by
  rw [startJob_outputPath h]
  unfold finalPath
  split
  · exact tempPathWithExt_ne _ _ _
  · exact tempPathWithExt_ne_withExtension _ _ _

theorem touchesOnlyPlanned_of_tidy (hhandles : canHandle config plan = true)
    (h : Tidy hasStore plan disk) : TouchesOnlyPlanned config hasStore plan disk := by
  intro env left hsees hstore
  unfold diskAfter
  unfold Tidy at h
  by_cases hmux : plan.actions.any (·.operation = .muxSubtitle) = true
  · rw [if_pos hmux] at h
    rw [jobs_of_muxes env left hmux]
    exact .of_muxes h (fun _ => tempPathWithExt_ne _ _ _)
      (fun action hrefused => muxOutcome_of_refused hrefused 0)
      (executePlan_muxes_iff hhandles hmux env left)
  · rw [if_neg hmux] at h
    rw [Bool.not_eq_true] at hmux
    have hsucceeded := executePlan_allSucceeded_iff hhandles hmux env
    cases hstart : startJob env plan with
    | error e =>
      have hjobs : jobs env left plan = [] := by simp [jobs, hmux, hstart]
      rw [hjobs]
      exact .of_nil
    | ok job =>
      obtain ⟨houtcomes, hgoes⟩ := h env job hsees hstart
      have hjobs : jobs env left plan =
          [⟨.replace job.outputPath plan.file.path (finalPath plan.file.path job.extension),
            jobOutcome env plan job, left.output⟩] := by
        simp [jobs, hmux, hstart]
      have htaken : OutcomesTaken env plan :=
        fun hsome hne => absurd (houtcomes (hstore ▸ hsome)) hne
      rw [hjobs]
      refine .of_replace ?_ (outputPath_ne_dest hstart) hgoes (hsucceeded.trans ?_)
      · rw [startJob_outputPath hstart]
        exact tempPathWithExt_ne _ _ _
      · simp [hstart, htaken]

/-! ### Ways to go wrong -/

/-- An execution that has met nothing yet. -/
def idleEnv (fileExists : Bool) : RunEnv where
  command := ⟨fun _ => "", id, id⟩
  hwAccel := {}
  fileExists := fileExists
  vmaf := fun _ => .error ""
  withinTarget := fun _ => .ok false
  tempId := ""
  toolProbe := .ok (exitsWith 0)
  ffmpeg := .ok (exitsWith 0)
  reinjection := .ok ()
  replaceOutput := .ok ()
  storage := none
  rename := .ok ()
  outcomes := .ok ()
  mux := fun _ => ⟨"", .ok (exitsWith 0), .ok ()⟩

/-- From the run of FFmpeg on all goes well, until the store turns the outcomes down. The muxes
after the first run into their timeout. -/
def turnedDown (hasStore : Bool) (env : RunEnv) : RunEnv :=
  { env with
    ffmpeg := .ok (exitsWith 0)
    reinjection := .ok ()
    replaceOutput := .ok ()
    storage := if hasStore then some (.ok ()) else none
    rename := .ok ()
    outcomes := .error (.storage .other "")
    mux := fun i => ⟨"", if i = 0 then .ok (exitsWith 0) else timesOut, .ok ()⟩ }

theorem record_turnedDown (env : RunEnv) (session : Option Uuid) (dest : Path) :
    recordMutationForPendingWrite (turnedDown hasStore env).storage session dest = .ok () := by
  cases session with
  | none => rfl
  | some id =>
    cases hasStore <;> rfl

theorem turnedDown_done (env : RunEnv) (job : Job) :
    jobOutcome (turnedDown hasStore env) plan job = .done := by
  have hrename : renameOutput (turnedDown hasStore env) plan job = .ok () := by
    simp only [renameOutput, record_turnedDown]
    rfl
  have hreinject : applyDynamicHdrReinjection (turnedDown hasStore env) plan job = .ok () := by
    unfold applyDynamicHdrReinjection
    cases job.dynamicHdr with
    | none => rfl
    | some hdr =>
      simp only [record_turnedDown]
      rfl
  unfold jobOutcome
  rw [hreinject, hrename]
  rfl

/-- What the job of a started execution does on disk, if all goes well up to the store. -/
theorem jobs_turnedDown {env : RunEnv} {job : Job} (left : Left)
    (hmux : plan.actions.any (·.operation = .muxSubtitle) = false)
    (hstart : startJob env plan = .ok job) :
    jobs (turnedDown hasStore env) left plan =
      [⟨.replace job.outputPath plan.file.path (finalPath plan.file.path job.extension), .done,
        left.output⟩] := by
  have hstart' : startJob (turnedDown hasStore env) plan = .ok job := hstart
  simp [jobs, hmux, hstart', turnedDown_done]

theorem storage_turnedDown (env : RunEnv) : (turnedDown hasStore env).storage.isSome = hasStore := by
  cases hasStore <;> rfl

/-- A store that turns an outcome down fails an execution whose output is in place. -/
theorem transcodes_of_touchesOnlyPlanned (hhandles : canHandle config plan = true)
    (h : TouchesOnlyPlanned config true plan disk)
    (hmux : plan.actions.any (·.operation = .muxSubtitle) = false) {env : RunEnv} {job : Job}
    (hsees : env.Sees plan disk) (hstart : startJob env plan = .ok job) : transcodes plan = [] := by
  by_contra hne
  let left := Mkvtoolnix.spoilt (disk plan.file.path)
  let dest := finalPath plan.file.path job.extension
  let run : Run Path Content := ⟨.replace job.outputPath plan.file.path dest, .done, left.output⟩
  have hfailed : ¬ AllSucceeded (executePlan config (turnedDown true env) plan) := by
    rw [executePlan_allSucceeded_iff hhandles hmux]
    rintro ⟨-, htaken⟩
    cases htaken rfl hne
  have honly := h (turnedDown true env) left hsees rfl
  have hsame := (honly.failure hfailed).1
  unfold diskAfter at hsame
  rw [jobs_turnedDown left hmux hstart, Lib.Jobs.after_single] at hsame
  by_cases hself : plan.file.path = dest
  · have hwritten : run.after disk dest = some (otherThan (disk plan.file.path)) :=
      Lib.Jobs.replace_dest
    rw [← hself] at hwritten
    exact otherThan_ne _ (hwritten.symm.trans hsame)
  · have hgone : run.after disk plan.file.path = none := Lib.Jobs.replace_source hself
    have hexists : (disk plan.file.path).isSome = true := hsees ▸ (startJob_ok hstart).1
    rw [hsame.symm.trans hgone] at hexists
    cases hexists

/-- The plans and disks on which FFmpeg touches only what was planned. -/
theorem touchesOnlyPlanned_iff (hhandles : canHandle config plan = true) :
    TouchesOnlyPlanned config hasStore plan disk ↔ Tidy hasStore plan disk := by
  refine ⟨fun h => ?_, touchesOnlyPlanned_of_tidy hhandles⟩
  unfold Tidy
  split
  · rename_i hmux
    let env := turnedDown hasStore (idleEnv (disk plan.file.path).isSome)
    let left := Mkvtoolnix.spoilt (disk plan.file.path)
    have honly := h env left rfl (storage_turnedDown _)
    unfold diskAfter at honly
    rw [jobs_of_muxes env left hmux] at honly
    refine honly.muxesOnce (fun _ => tempPathWithExt_ne _ _ _) rfl ?_ ?_
      (executePlan_muxes_iff hhandles hmux env left).mp
    · intro action hvalid
      obtain ⟨_, _, _, _, hparams, hlanguage⟩ := muxRefused_eq_false hvalid
      have hplaced : Mkvtoolnix.placed env.storage plan.scanSession plan.file.path (.ok ()) = true := by
        simp [Mkvtoolnix.placed, env, record_turnedDown, Except.isOk, Except.toBool]
      simp [muxOutcome, hparams, hlanguage, env, turnedDown, exitsWith, ToolOutput.success] at hplaced ⊢
      exact hplaced
    · intro action
      unfold muxOutcome
      split
      · split
        · rfl
        · simp [env, turnedDown, timesOut, Outcome.ends]
      · rfl
  · rename_i hmux
    rw [Bool.not_eq_true] at hmux
    intro env job hsees hstart
    constructor
    · rintro rfl
      exact transcodes_of_touchesOnlyPlanned hhandles h hmux hsees hstart
    · let left := Mkvtoolnix.spoilt (disk (finalPath plan.file.path job.extension))
      have honly := h (turnedDown hasStore env) left hsees (storage_turnedDown env)
      unfold diskAfter at honly
      rw [jobs_turnedDown left hmux hstart] at honly
      exact honly.goesTo (outputPath_ne_dest hstart)

end

end Ffmpeg

/-! ## Both executors -/

/-- An executor that takes a plan touches only what was planned, whatever its tools and the store
do, exactly on the plans and disks that are tidy for it. -/
theorem executors_touch_only_planned_iff (available hasStore : Bool) (config : Ffmpeg.Config)
    (plan : Plan) (disk : Disk) :
    (Mkvtoolnix.canHandle available plan = true →
      (Mkvtoolnix.TouchesOnlyPlanned plan disk ↔ Mkvtoolnix.Tidy plan disk)) ∧
    (Ffmpeg.canHandle config plan = true →
      (Ffmpeg.TouchesOnlyPlanned config hasStore plan disk ↔ Ffmpeg.Tidy hasStore plan disk)) :=
  ⟨fun h => Mkvtoolnix.touchesOnlyPlanned_iff h, fun h => Ffmpeg.touchesOnlyPlanned_iff h⟩

namespace Titled

def config : Ffmpeg.Config := { available := true, encoders := none, decoders := none, formats := none }

/-- An MP4 file under some name, to be given a title. -/
def plan (name : String) : Plan :=
  { id := 1
    file := { id := 1, path := ⟨["m", name]⟩, container := .mp4 }
    policyName := "p"
    phaseName := "q"
    actions :=
      [ { operation := .setContainerTag
          trackIndex := none
          parameters := .setTag "title" "Film"
          description := "Set title"
          checked := Eq.refl true } ] }

/-- A disk with nothing else on it. -/
def disk (name : String) : Disk := fun q => if q = ⟨["m", name]⟩ then some [] else none

/-- The extension of the output, under the canonical name of the container. -/
theorem extension_of_job {name : String} {env : Ffmpeg.RunEnv} {job : Ffmpeg.Job}
    (h : Ffmpeg.startJob env (plan name) = .ok job) : job.extension = "mp4" := by
  obtain ⟨-, actions, hactions, hextension, -⟩ := Ffmpeg.startJob_ok h
  obtain rfl := Except.ok.inj hactions
  exact hextension

end Titled

/-- Under the canonical extension the file takes its title in place. -/
theorem titled_mp4_in_place :
    Ffmpeg.TouchesOnlyPlanned Titled.config true (Titled.plan "film.mp4") (Titled.disk "film.mp4") := by
  refine ((executors_touch_only_planned_iff true true Titled.config (Titled.plan "film.mp4")
    (Titled.disk "film.mp4")).2 rfl).mpr ?_
  refine (if_neg (by decide)).mpr ?_
  intro env job hsees hstart
  refine ⟨fun _ => rfl, .inl ?_⟩
  rw [Titled.extension_of_job hstart]
  decide

/-- `film.m4v` is an MP4 file as well: its title goes to `film.mp4`, and `film.m4v` is gone. -/
theorem titled_m4v_moves :
    Ffmpeg.canHandle Titled.config (Titled.plan "film.m4v") = true ∧
      conversions (Titled.plan "film.m4v") = [] ∧
      ¬ Ffmpeg.TouchesOnlyPlanned Titled.config false (Titled.plan "film.m4v")
        (Titled.disk "film.m4v") := by
  refine ⟨rfl, rfl, fun h => ?_⟩
  have htidy := (Ffmpeg.touchesOnlyPlanned_iff rfl).mp h
  have hstart : (Ffmpeg.startJob (Ffmpeg.idleEnv true) (Titled.plan "film.m4v")).toBool = true := by
    decide +kernel
  cases hjob : Ffmpeg.startJob (Ffmpeg.idleEnv true) (Titled.plan "film.m4v") with
  | error e =>
    rw [hjob] at hstart
    cases hstart
  | ok job =>
    have hgoes := (((if_neg (by decide)).mp htidy) (Ffmpeg.idleEnv true) job rfl hjob).2
    rw [Titled.extension_of_job hjob] at hgoes
    rcases hgoes with hself | ⟨hnew, -⟩
    · exact absurd hself (by decide)
    · cases hnew

end Voom.Executors
