-- SUMMARY: The target of a container conversion: when a successful execution leaves the result there, muxed as asked.
import Voom.Executors.Footprint

/-!
# Container targets

mkvmerge always writes Matroska, and FFmpeg the container that the extension of its output stands
for. A plan may ask for another container than the executor that takes it makes.
-/

namespace Voom.Executors

open Lib.Jobs (Outcome Run)

/-- Where a series of jobs leaves its result. -/
def resultPath (plan : Plan) (jobs : List (Run Path Content)) : Path :=
  (jobs.getLast?.map (·.job.place)).getD plan.file.path

/-- The result is at the path of the plan with the extension of the container, and muxed as it. -/
structure Honoured (format : Content → Container) (plan : Plan) (container : Container)
    (jobs : List (Run Path Content)) (disk : Disk) : Prop where
  path : resultPath plan jobs = plan.file.path.withExtension container.asStr
  muxed : ∃ content, disk (resultPath plan jobs) = some content ∧ format content = container

/-- A result of one format is honoured if its path and format are right. -/
theorem honoured_iff {format : Content → Container} {plan : Plan} {container made : Container}
    {jobs : List (Run Path Content)} {disk : Disk} {content : Content}
    (hcontent : disk (resultPath plan jobs) = some content) (hformat : format content = made) :
    Honoured format plan container jobs disk ↔
      resultPath plan jobs = plan.file.path.withExtension container.asStr ∧ made = container := by
  constructor
  · rintro ⟨hpath, c, hc, hmade⟩
    obtain rfl := Option.some.inj (hcontent.symm.trans hc)
    exact ⟨hpath, hformat.symm.trans hmade⟩
  · rintro ⟨hpath, rfl⟩
    exact ⟨hpath, content, hcontent, hformat⟩

theorem resultPath_append (plan : Plan) (init : List (Run Path Content)) (last : Run Path Content) :
    resultPath plan (init ++ [last]) = last.job.place := by
  simp [resultPath]

/-- The muxes of a plan, all done, leave the last content at the path of the file. -/
theorem after_muxJobs {plan : Plan} {temp : Nat → Path} {how : PlannedAction → Nat → Outcome}
    {left : Nat → Content} (disk : Disk)
    (hmux : plan.actions.any (·.operation = .muxSubtitle) = true)
    (hdone : ∀ r ∈ muxJobs plan temp how left, r.outcome = .done) :
    resultPath plan (muxJobs plan temp how left) = plan.file.path ∧
      ∃ i, Lib.Jobs.after (muxJobs plan temp how left) disk plan.file.path = some (left i) := by
  have hne : Mkvtoolnix.muxes plan ≠ [] := by
    obtain ⟨a, ha, hop⟩ := List.any_eq_true.mp hmux
    exact List.ne_nil_of_mem (List.mem_filter.mpr ⟨ha, hop⟩)
  obtain ⟨init, last, hlast⟩ : ∃ init last, Mkvtoolnix.muxes plan = init ++ [last] :=
    ⟨_, _, (List.dropLast_append_getLast hne).symm⟩
  unfold muxJobs at hdone ⊢
  rw [hlast, List.zipIdx_append, List.map_append] at hdone ⊢
  refine ⟨resultPath_append _ _ _, init.length, ?_⟩
  have hafter := Lib.Jobs.after_last hdone disk (by simp)
  simpa [Lib.Jobs.Job.place] using hafter

/-! ## MKVToolNix -/

namespace Mkvtoolnix

/-- mkvmerge writes Matroska, and mkvpropedit edits nothing else. -/
structure WritesMatroska (format : Content → Container) (left : Left) : Prop where
  edit : format left.edit = .mkv
  output : format left.output = .mkv
  mux : ∀ i, format (left.mux i) = .mkv

section

variable {format : Content → Container} {env : Env} {left : Left} {plan : Plan}
  {container : Container} {disk : Disk}

theorem merges_of_conversion (h : container ∈ conversions plan) :
    merges plan ≠ [] ∧ (merges plan).any (·.operation = .convertContainer) = true := by
  obtain ⟨a, ha, hop⟩ : ∃ a ∈ plan.actions, a.operation = .convertContainer := by
    obtain ⟨a, ha, htarget⟩ := List.mem_filterMap.mp h
    split at htarget
    · rename_i hop _
      exact ⟨a, ha, hop⟩
    · cases htarget
  have hmem : a ∈ merges plan := by
    simp only [merges, classifyActions, List.mem_filter, hop]
    exact ⟨ha, by decide⟩
  exact ⟨List.ne_nil_of_mem hmem, List.any_eq_true.mpr ⟨a, hmem, by simp [hop]⟩⟩

/-- A conversion that is carried out leaves a Matroska file under the extension `mkv`. -/
theorem result_of_merge (disk : Disk) (hconverts : container ∈ conversions plan)
    (hwrites : WritesMatroska format left) (hfile : env.fileExists = true) (hmux : plan.actions.any (·.operation = .muxSubtitle) = false)
    (hdone : ∀ r ∈ jobs env left plan, r.outcome = .done) :
    resultPath plan (jobs env left plan) = plan.file.path.withExtension "mkv" ∧
      ∃ content, diskAfter env left plan disk (plan.file.path.withExtension "mkv") = some content ∧
        format content = .mkv := by
  obtain ⟨hmerges, hconvert⟩ := merges_of_conversion hconverts
  have hfinal : determineFinalPath plan.file.path (merges plan) =
      plan.file.path.withExtension "mkv" := if_pos hconvert
  let merge : Run Path Content :=
    ⟨.replace (tempPathWithExt plan.file.path env.merge.tempId "mkv") plan.file.path
      (plan.file.path.withExtension "mkv"),
      mergeOutcome env plan.file.path plan.scanSession (merges plan), left.output⟩
  have hmerge : mergeJobs env left plan = [merge] := by
    simp only [mergeJobs, hmerges, if_false, hfinal]
    rfl
  unfold diskAfter
  by_cases hfirst : plan.file.container = .mkv
  · have hjobs : jobs env left plan = editJobs env left plan ++ [merge] := by
      simp only [jobs, hfile, hmux, hfirst, true_or, Bool.not_true, Bool.false_eq_true, if_false,
        if_true, hmerge]
    rw [hjobs] at hdone ⊢
    refine ⟨resultPath_append _ _ _, left.output, ?_, hwrites.output⟩
    exact Lib.Jobs.after_last hdone disk (by simp [merge])
  · have hjobs : jobs env left plan = [merge] ++ editJobs env left plan := by
      simp only [jobs, hfile, hmux, hfirst, hmerges, or_self, Bool.not_true, Bool.false_eq_true,
        if_false, hmerge]
    have hpath : editPath plan = plan.file.path.withExtension "mkv" :=
      if_neg (by simp [hfirst, hmerges])
    rw [hjobs] at hdone ⊢
    have hmerged : merge.outcome = .done := hdone _ (by simp)
    have hwritten : merge.after disk (plan.file.path.withExtension "mkv") = some left.output := by
      rw [Run.after, hmerged]
      exact Lib.Jobs.replace_dest
    unfold editJobs at hdone ⊢
    split
    · -- Nothing is left to edit.
      rw [List.append_nil, Lib.Jobs.after_single]
      exact ⟨rfl, left.output, hwritten, hwrites.output⟩
    · rename_i hedits
      rw [if_neg hedits, hpath] at hdone
      rw [hpath]
      refine ⟨resultPath_append _ _ _, left.edit, ?_, hwrites.edit⟩
      refine Lib.Jobs.after_last hdone disk fun target htarget => ?_
      obtain rfl : plan.file.path.withExtension "mkv" = target := by simpa using htarget
      rw [Lib.Jobs.after_single, hwritten]
      rfl

/-- MKVToolNix honours a target exactly if it is MKV, and with muxes only if the path has the
extension already. -/
theorem honoured_target_iff (hconverts : container ∈ conversions plan)
    (hwrites : WritesMatroska format left)
    (hsucceeded : AllSucceeded (executePlan env plan).result) :
    Honoured format plan container (jobs env left plan) (diskAfter env left plan disk) ↔
      container = .mkv ∧ (plan.actions.any (·.operation = .muxSubtitle) = true →
        plan.file.path.withExtension "mkv" = plan.file.path) := by
  obtain ⟨hfile, hdone⟩ := (executePlan_allSucceeded_iff env left plan).mp hsucceeded
  by_cases hmux : plan.actions.any (·.operation = .muxSubtitle) = true
  · have hjobs := jobs_of_muxes left hfile hmux
    rw [hjobs] at hdone
    obtain ⟨hpath, i, hcontent⟩ := after_muxJobs disk hmux hdone
    rw [← hjobs] at hpath hcontent
    rw [honoured_iff (by rw [hpath]; exact hcontent) (hwrites.mux i), hpath]
    constructor
    · rintro ⟨hext, rfl⟩
      exact ⟨rfl, fun _ => hext.symm⟩
    · rintro ⟨rfl, hext⟩
      exact ⟨(hext hmux).symm, rfl⟩
  · rw [Bool.not_eq_true] at hmux
    obtain ⟨hpath, content, hcontent, hformat⟩ :=
      result_of_merge disk hconverts hwrites hfile hmux hdone
    rw [honoured_iff (by rw [hpath]; exact hcontent) hformat, hpath]
    constructor
    · rintro ⟨-, rfl⟩
      exact ⟨rfl, by simp [hmux]⟩
    · rintro ⟨rfl, -⟩
      exact ⟨rfl, rfl⟩

end

end Mkvtoolnix

/-! ## FFmpeg -/

theorem fromExtension_asStr (container : Container) :
    Container.fromExtension container.asStr = container := by
  cases container <;> decide

namespace Ffmpeg

/-- FFmpeg muxes by the extension of its output. -/
structure MuxesByExtension (format : Content → Container) (env : RunEnv) (left : Left) (plan : Plan) :
    Prop where
  output : ∀ job, startJob env plan = .ok job →
    format left.output = Container.fromExtension job.extension
  mux : ∀ i, format (left.mux i) = Container.fromExtension (plan.file.path.extension.getD "mkv")

/-- The target of the first conversion among the actions. -/
def firstTarget (actions : List PlannedAction) : Option Container :=
  actions.findSome? fun action =>
    match action.operation, action.parameters with
    | .convertContainer, .container container => some container
    | _, _ => none

/-- The extension of a file that no conversion changes. -/
def ownExtension (file : MediaFile) : String :=
  if file.container = .other then file.path.extension.getD "mkv" else file.container.asStr

section

variable {format : Content → Container} {config : Config} {env : RunEnv} {left : Left}
  {plan : Plan} {container : Container} {disk : Disk} {actions : List PlannedAction}

theorem outputExtension_eq (file : MediaFile) (actions : List PlannedAction) :
    outputExtension file actions =
      ((firstTarget actions).map Container.asStr).getD (ownExtension file) := by
  unfold outputExtension firstTarget ownExtension
  rw [List.map_findSome?]
  dsimp only
  congr 2
  funext action
  simp only [Function.comp_apply]
  cases action.operation <;> cases action.parameters <;> rfl

/-- The extension of an output is the target's exactly if the first conversion goes there, or there
is none and it is the file's own. -/
theorem outputExtension_eq_asStr_iff (file : MediaFile) (actions : List PlannedAction) :
    outputExtension file actions = container.asStr ↔
      firstTarget actions = some container ∨
        firstTarget actions = none ∧ ownExtension file = container.asStr := by
  rw [outputExtension_eq]
  cases firstTarget actions with
  | none => simp
  | some first =>
    simp only [Option.map_some, Option.getD_some, Option.some.injEq, reduceCtorEq, false_and,
      or_false]
    constructor
    · intro h
      rw [← fromExtension_asStr first, h, fromExtension_asStr]
    · exact fun h => congrArg _ h

/-- The extension of an output is that of a container, or the path's own. -/
theorem outputExtension_cases (file : MediaFile) (actions : List PlannedAction) :
    (∃ made : Container, outputExtension file actions = made.asStr) ∨
      file.path.extension = some (outputExtension file actions) := by
  rw [outputExtension_eq]
  cases firstTarget actions with
  | some first => exact .inl ⟨first, rfl⟩
  | none =>
    simp only [Option.map_none, Option.getD_none, ownExtension]
    split
    · cases hpath : file.path.extension with
      | none => exact .inl ⟨.mkv, rfl⟩
      | some ext => exact .inr (by simp)
    · exact .inl ⟨file.container, rfl⟩

/-- The final path is the one with the extension of the output. -/
theorem finalPath_asStr (path : Path) (made : Container) :
    finalPath path made.asStr = path.withExtension made.asStr := by
  unfold finalPath
  split
  · rename_i hext
    cases hpath : path.extension with
    | none =>
      rw [hpath] at hext
      exact absurd hext (by cases made <;> decide)
    | some ext =>
      rw [hpath, Option.getD_some] at hext
      rw [hext]
      exact (withExtension_extension hpath).symm
  · rfl

theorem finalPath_own {path : Path} {ext : String} (h : path.extension = some ext) :
    finalPath path ext = path := by
  simp [finalPath, h]

/-- An output stands at the target and is muxed as it exactly if it has the target's extension. -/
theorem output_at_target_iff (file : MediaFile) (actions : List PlannedAction)
    (container : Container) :
    (finalPath file.path (outputExtension file actions) = file.path.withExtension container.asStr ∧
      Container.fromExtension (outputExtension file actions) = container) ↔
      outputExtension file actions = container.asStr := by
  constructor
  · rintro ⟨hpath, hformat⟩
    rcases outputExtension_cases file actions with ⟨made, hmade⟩ | hown
    · rw [hmade, fromExtension_asStr] at hformat
      rw [hmade, hformat]
    · -- The path's own extension has to be the target's.
      rw [finalPath_own hown] at hpath
      cases hname : file.path.fileName with
      | none => simp [Path.extension, hname] at hown
      | some name =>
        have hext := extension_of_withExtension hname hpath.symm
        exact Option.some.inj (hown.symm.trans hext)
  · intro h
    rw [h]
    exact ⟨finalPath_asStr _ _, fromExtension_asStr _⟩

/-- FFmpeg honours a target exactly if it is that of the first conversion that is left once the
actions are prepared; with muxes the path must have an extension that stands for it already. -/
theorem honoured_target_iff (hhandles : canHandle config plan = true)
    (hmuxes : MuxesByExtension format env left plan)
    (hsucceeded : AllSucceeded (executePlan config env plan)) :
    Honoured format plan container (jobs env left plan) (diskAfter env left plan disk) ↔
      if plan.actions.any (·.operation = .muxSubtitle) then
        plan.file.path.withExtension container.asStr = plan.file.path ∧
          Container.fromExtension (plan.file.path.extension.getD "mkv") = container
      else ∃ actions, prepareActions env plan = .ok actions ∧
        (firstTarget actions = some container ∨
          firstTarget actions = none ∧ ownExtension plan.file = container.asStr) := by
  by_cases hmux : plan.actions.any (·.operation = .muxSubtitle) = true
  · have hdone := (executePlan_muxes_iff hhandles hmux env left).mp hsucceeded
    obtain ⟨hpath, i, hcontent⟩ := after_muxJobs disk hmux hdone
    rw [← jobs_of_muxes env left hmux] at hpath hcontent
    rw [honoured_iff (by rw [hpath]; exact hcontent) (hmuxes.mux i), hpath, if_pos hmux]
    exact and_congr_left fun _ => eq_comm
  · rw [if_neg hmux]
    rw [Bool.not_eq_true] at hmux
    obtain ⟨⟨job, hstart, hdone⟩, -⟩ :=
      (executePlan_allSucceeded_iff hhandles hmux env).mp hsucceeded
    obtain ⟨-, actions, hactions, hextension, -⟩ := startJob_ok hstart
    have hjobs : jobs env left plan =
        [⟨.replace job.outputPath plan.file.path (finalPath plan.file.path job.extension), .done,
          left.output⟩] := by
      simp [jobs, hmux, hstart, hdone]
    have hpath : resultPath plan (jobs env left plan) = finalPath plan.file.path job.extension := by
      rw [hjobs]
      rfl
    have hcontent : diskAfter env left plan disk (finalPath plan.file.path job.extension) =
        some left.output := by
      rw [diskAfter, hjobs, Lib.Jobs.after_single]
      exact Lib.Jobs.replace_dest
    rw [honoured_iff (by rw [hpath]; exact hcontent) (hmuxes.output job hstart), hpath, hextension,
      output_at_target_iff, outputExtension_eq_asStr_iff]
    constructor
    · exact fun h => ⟨actions, hactions, h⟩
    · rintro ⟨actions', hactions', h⟩
      obtain rfl := Except.ok.inj (hactions.symm.trans hactions')
      exact h

end

end Ffmpeg

/-! ## Both executors -/

/-- A successful execution by an executor that takes the plan honours the target of a conversion
exactly if the target is what the executor makes of the plan. -/
theorem container_target_honoured_iff (format : Content → Container) (plan : Plan)
    (container : Container) (hconverts : container ∈ conversions plan) (left : Left) (disk : Disk) :
    (∀ (available : Bool) (env : Mkvtoolnix.Env), Mkvtoolnix.canHandle available plan = true →
      Mkvtoolnix.WritesMatroska format left →
      AllSucceeded (Mkvtoolnix.executePlan env plan).result →
      (Honoured format plan container (Mkvtoolnix.jobs env left plan)
          (Mkvtoolnix.diskAfter env left plan disk) ↔
        container = .mkv ∧ (plan.actions.any (·.operation = .muxSubtitle) = true →
          plan.file.path.withExtension "mkv" = plan.file.path))) ∧
    (∀ (config : Ffmpeg.Config) (env : Ffmpeg.RunEnv), Ffmpeg.canHandle config plan = true →
      Ffmpeg.MuxesByExtension format env left plan →
      AllSucceeded (Ffmpeg.executePlan config env plan) →
      (Honoured format plan container (Ffmpeg.jobs env left plan)
          (Ffmpeg.diskAfter env left plan disk) ↔
        if plan.actions.any (·.operation = .muxSubtitle) then
          plan.file.path.withExtension container.asStr = plan.file.path ∧
            Container.fromExtension (plan.file.path.extension.getD "mkv") = container
        else ∃ actions, Ffmpeg.prepareActions env plan = .ok actions ∧
          (Ffmpeg.firstTarget actions = some container ∨
            Ffmpeg.firstTarget actions = none ∧
              Ffmpeg.ownExtension plan.file = container.asStr))) :=
  ⟨fun _ _ _ hwrites hsucceeded => Mkvtoolnix.honoured_target_iff hconverts hwrites hsucceeded,
    fun _ _ hhandles hmuxes hsucceeded => Ffmpeg.honoured_target_iff hhandles hmuxes hsucceeded⟩

namespace Remuxed

/-- A file of some container, to be converted to another. -/
def plan (source target : Container) : Plan :=
  { id := 1
    file := { id := 1, path := ⟨["m", "film." ++ source.asStr]⟩, container := source }
    policyName := "p"
    phaseName := "q"
    actions :=
      [ { operation := .convertContainer
          trackIndex := none
          parameters := .container target
          description := "Convert"
          checked := Eq.refl true } ] }

/-- Contents are one byte that stands for the container. -/
def format (content : Content) : Container := if content = [1] then .mkv else .mp4

def left : Left := ⟨[1], [1], fun _ => [1]⟩

def disk (source : Container) : Disk := fun q =>
  if q = ⟨["m", "film." ++ source.asStr]⟩ then some [0] else none

def env : Mkvtoolnix.Env := Mkvtoolnix.brokenEnv timesOut

theorem writes : Mkvtoolnix.WritesMatroska format left := ⟨rfl, rfl, fun _ => rfl⟩

theorem succeeded_of_map {actions : List PlannedAction} {detail : ExecutionDetail} :
    ∀ r ∈ actions.map (fun a =>
      (ActionResult.succeeded a.operation a.description).withExecutionDetail detail),
      r.success = true := by
  intro r hr
  obtain ⟨a, -, rfl⟩ := List.mem_map.mp hr
  rfl

end Remuxed

/-- MP4 to MKV by MKVToolNix. -/
theorem mp4_to_mkv_honoured :
    Honoured Remuxed.format (Remuxed.plan .mp4 .mkv) .mkv
      (Mkvtoolnix.jobs Remuxed.env Remuxed.left (Remuxed.plan .mp4 .mkv))
      (Mkvtoolnix.diskAfter Remuxed.env Remuxed.left (Remuxed.plan .mp4 .mkv) (Remuxed.disk .mp4)) := by
  refine ((container_target_honoured_iff Remuxed.format (Remuxed.plan .mp4 .mkv) .mkv
    (by decide) Remuxed.left (Remuxed.disk .mp4)).1 true Remuxed.env (by decide)
    Remuxed.writes ?_).mpr ⟨rfl, by decide⟩
  -- the merge results stand before an empty list of metadata results
  refine ⟨_, rfl, fun r hr => ?_⟩
  rcases List.mem_append.mp hr with hmerged | hnone
  · exact Remuxed.succeeded_of_map r hmerged
  · exact absurd hnone List.not_mem_nil

/-- MKV to MP4 is taken by MKVToolNix too, and comes back as an MKV file under its old name. -/
theorem mkv_to_mp4_stays_mkv :
    Mkvtoolnix.canHandle true (Remuxed.plan .mkv .mp4) = true ∧
      AllSucceeded (Mkvtoolnix.executePlan Remuxed.env (Remuxed.plan .mkv .mp4)).result ∧
      .mp4 ∈ conversions (Remuxed.plan .mkv .mp4) ∧
      Mkvtoolnix.WritesMatroska Remuxed.format Remuxed.left ∧
      ¬ Honoured Remuxed.format (Remuxed.plan .mkv .mp4) .mp4
        (Mkvtoolnix.jobs Remuxed.env Remuxed.left (Remuxed.plan .mkv .mp4))
        (Mkvtoolnix.diskAfter Remuxed.env Remuxed.left (Remuxed.plan .mkv .mp4)
          (Remuxed.disk .mkv)) := by
  refine ⟨by decide, ⟨_, rfl, Remuxed.succeeded_of_map⟩, by decide, Remuxed.writes, ?_⟩
  rintro ⟨hpath, -⟩
  exact absurd hpath (by decide)

end Voom.Executors
