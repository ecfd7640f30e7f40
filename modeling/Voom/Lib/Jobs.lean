-- SUMMARY: Jobs that rewrite files: in place, or by way of a temporary file that takes the place of another.
import Mathlib.Logic.Function.Basic
import Mathlib.Data.List.Basic

/-!
# Jobs on files

A file system maps paths to contents. A job runs a tool that leaves some content behind; how
the job went decides what becomes of it. A series of jobs ends at the first one that is refused
or aborted.
-/

namespace Voom.Lib.Jobs

variable {α β : Type*}

abbrev Files (α β : Type*) := α → Option β

/-- A job is refused before its tool is started, aborted after that, failed in a way that lets
the series go on, or done. -/
inductive Outcome where
  | refused | aborted | failed | done
  deriving DecidableEq, Repr

def Outcome.ends : Outcome → Bool
  | .refused | .aborted => true
  | .failed | .done => false

/-- Rewrite a file in place, or write a temporary one that is moved to `dest`, after which
`source` goes if it is another file. -/
inductive Job (α : Type*) where
  | edit (target : α)
  | replace (temp source dest : α)

variable [DecidableEq α]

def rename (fs : Files α β) (src dst : α) : Files α β :=
  Function.update (Function.update fs src none) dst (fs src)

/-- The files after a job whose tool left a content. A tool that edits in place may have written
to the file however it ended, but does not create one; a temporary file is removed unless it was
moved. -/
def Job.after (job : Job α) (outcome : Outcome) (left : β) (fs : Files α β) : Files α β :=
  match job, outcome with
  | _, .refused => fs
  | .edit target, _ => if (fs target).isSome then Function.update fs target (some left) else fs
  | .replace temp source dest, .done =>
    let placed := rename (Function.update fs temp (some left)) temp dest
    if dest = source then placed else Function.update placed source none
  | .replace temp _ _, _ => Function.update fs temp none

/-- A job with how it went and the content its tool left. -/
structure Run (α β : Type*) where
  job : Job α
  outcome : Outcome
  left : β

def Run.after (run : Run α β) (fs : Files α β) : Files α β := run.job.after run.outcome run.left fs

/-- The files after a series of jobs. -/
def after : List (Run α β) → Files α β → Files α β
  | [], fs => fs
  | run :: rest, fs => if run.outcome.ends then run.after fs else after rest (run.after fs)

def Job.temp? : Job α → Option α
  | .edit _ => none
  | .replace temp _ _ => some temp

/-- Where the result of a job stands. -/
def Job.place : Job α → α
  | .edit target => target
  | .replace _ _ dest => dest

/-- The jobs of a series that are come to. -/
def performed : List (Run α β) → List (Run α β)
  | [] => []
  | run :: rest => if run.outcome.ends then [run] else run :: performed rest

/-- The temporary files of a series, once their tools are started. -/
def temps (runs : List (Run α β)) : List α :=
  (performed runs).filterMap fun run => if run.outcome = .refused then none else run.job.temp?

/-! ## One job -/

omit [DecidableEq α] in
theorem temps_single (run : Run α β) :
    temps [run] = if run.outcome = .refused then [] else run.job.temp?.toList := by
  obtain ⟨job, outcome, left⟩ := run
  cases outcome <;> cases job <;> rfl

section

variable {temp source dest p target : α} {left : β} {fs : Files α β} {outcome : Outcome}

@[simp] theorem after_single (run : Run α β) (fs : Files α β) : after [run] fs = run.after fs := by
  simp [after]

theorem after_cons_of_goes_on {run : Run α β} (h : run.outcome.ends = false)
    (rest : List (Run α β)) (fs : Files α β) : after (run :: rest) fs = after rest (run.after fs) := by
  simp [after, h]

theorem after_cons_of_ends {run : Run α β} (h : run.outcome.ends = true)
    (rest : List (Run α β)) (fs : Files α β) : after (run :: rest) fs = run.after fs := by
  simp [after, h]

@[simp] theorem after_refused (job : Job α) (left : β) (fs : Files α β) :
    job.after .refused left fs = fs := by
  cases job <;> rfl

theorem edit_of_ne (h : p ≠ target) : (Job.edit target).after outcome left fs p = fs p := by
  cases outcome with
  | refused => rfl
  | _ =>
    simp only [Job.after]
    split
    · exact Function.update_of_ne h _ _
    · rfl

theorem edit_target (h : outcome ≠ .refused) (hexists : (fs target).isSome = true) :
    (Job.edit target).after outcome left fs target = some left := by
  cases outcome with
  | refused => exact absurd rfl h
  | _ => simp [Job.after, hexists]

/-- A job that did not get its output into place leaves all files but the temporary one. -/
theorem replace_not_done (h : outcome ≠ .done) (hp : p ≠ temp) :
    (Job.replace temp source dest).after outcome left fs p = fs p := by
  cases outcome with
  | refused => rfl
  | done => exact absurd rfl h
  | _ => exact Function.update_of_ne hp _ _

/-- Once the tool was started, the temporary file does not stay. -/
theorem replace_temp_of_started (htd : temp ≠ dest) (hts : temp ≠ source) (h : outcome ≠ .refused) :
    (Job.replace temp source dest).after outcome left fs temp = none := by
  cases outcome with
  | refused => exact absurd rfl h
  | done =>
    simp only [Job.after, rename]
    split
    · simp [htd]
    · simp [htd, hts]
  | _ => simp [Job.after]

theorem replace_dest :
    (Job.replace temp source dest).after .done left fs dest = some left := by
  simp only [Job.after, rename]
  split
  · simp
  · rename_i h
    simp [h]

theorem replace_source (h : source ≠ dest) :
    (Job.replace temp source dest).after .done left fs source = none := by
  simp only [Job.after, rename]
  rw [if_neg (Ne.symm h)]
  simp

theorem replace_other (htemp : p ≠ temp) (hsource : p ≠ source) (hdest : p ≠ dest) :
    (Job.replace temp source dest).after outcome left fs p = fs p := by
  cases outcome with
  | done =>
    simp only [Job.after, rename]
    split
    · simp [htemp, hdest]
    · simp [htemp, hdest, hsource]
  | _ => exact replace_not_done (by simp) htemp

end

/-! ## Series -/

/-- A series goes on after jobs that do not end it. -/
theorem after_append {init : List (Run α β)} (h : ∀ run ∈ init, run.outcome.ends = false)
    (rest : List (Run α β)) (fs : Files α β) :
    after (init ++ rest) fs = after rest (after init fs) := by
  induction init generalizing fs with
  | nil => rfl
  | cons run init ih =>
    rw [List.forall_mem_cons] at h
    rw [List.cons_append, after_cons_of_goes_on h.1, after_cons_of_goes_on h.1, ih h.2]

/-- The last job of a series that is done leaves its content at its place. -/
theorem after_last {init : List (Run α β)} {last : Run α β}
    (h : ∀ run ∈ init ++ [last], run.outcome = .done) (fs : Files α β)
    (hedit : ∀ target, last.job = .edit target → (after init fs target).isSome = true) :
    after (init ++ [last]) fs last.job.place = some last.left := by
  have hdone : last.outcome = .done := h last (by simp)
  rw [after_append (fun run hrun => by rw [h run (List.mem_append_left _ hrun)]; rfl), after_single]
  obtain ⟨job, outcome, left⟩ := last
  subst hdone
  cases job with
  | edit target => exact edit_target (by simp) (hedit target rfl)
  | replace temp source dest => exact replace_dest

end Voom.Lib.Jobs
