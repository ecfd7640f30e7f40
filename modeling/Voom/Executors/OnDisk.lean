-- SUMMARY: Executions on the files of a disk: which files an execution may change, and where its result is.
import Mathlib.Data.List.TakeWhile
import Voom.BackupManager.Backup
import Voom.Executors.Execution
import Voom.Executors.FfmpegRun
import Voom.Lib.Jobs

/-!
# Executions on disk

An execution is a series of jobs on the files of a disk (`Lib.Jobs`). mkvpropedit edits its file
in place; mkvmerge and FFmpeg write a temporary file beside the original, which is then moved
over it or to the path with another extension. What a tool leaves behind is an argument: it may
have written anything, however it ended. mkvpropedit in particular ends with exit code 1 after
warnings, with its changes made.
-/

namespace Voom.Executors

open Lib.Jobs (Outcome Run)

/-! ## Paths -/

section Paths

variable {p : Path} {name e ext : String}

theorem splitExtension_some (h : (Path.splitExtension name).2 = some e) :
    name = (Path.splitExtension name).1 ++ "." ++ e ∧ '.' ∉ e.toList := by
  unfold Path.splitExtension at h ⊢
  simp only at h ⊢
  split at h
  · cases h
  · rename_i hsplit
    rw [not_or] at hsplit
    rw [if_neg (by rwa [not_or])]
    obtain rfl := Option.some.inj h
    -- The name is what stands before the last dot, the dot and what stands after it.
    set back := name.toList.reverse with hback
    have hlen : (back.takeWhile (· ≠ '.')).length < back.length := by
      refine lt_of_le_of_ne (List.takeWhile_prefix _).length_le fun heq => hsplit.1 ?_
      rw [List.length_reverse, heq, hback, List.length_reverse]
    have hdrop : back.dropWhile (· ≠ '.') ≠ [] := by
      intro hnil
      have happ := congrArg List.length (List.takeWhile_append_dropWhile (p := (· ≠ '.')) (l := back))
      rw [hnil, List.append_nil] at happ
      omega
    obtain ⟨c, rest, hcons⟩ := List.exists_cons_of_ne_nil hdrop
    have hc : c = '.' := by
      have hhead := List.head_dropWhile_not (p := (· ≠ '.')) (l := back) hdrop
      simp only [hcons, List.head_cons] at hhead
      simpa using hhead
    subst hc
    have hsum : back = back.takeWhile (· ≠ '.') ++ '.' :: rest := by
      rw [← hcons]
      exact List.takeWhile_append_dropWhile.symm
    have hname : name.toList = rest.reverse ++ '.' :: (back.takeWhile (· ≠ '.')).reverse := by
      rw [← List.reverse_reverse name.toList, ← hback]
      conv_lhs => rw [hsum]
      simp
    constructor
    · apply String.toList_injective
      simp only [String.toList_append, String.toList_ofList]
      have htake : name.toList.take (name.toList.length -
          (back.takeWhile (· ≠ '.')).reverse.length - 1) = rest.reverse := by
        conv_lhs => rw [hname]
        rw [List.take_append_of_le_length (by simp; omega), List.take_of_length_le (by simp; omega)]
      rw [htake, hname]
      simp
    · intro hmem
      rw [String.toList_ofList, List.mem_reverse] at hmem
      have hne := List.mem_takeWhile_imp hmem
      simp at hne

theorem splitExtension_none (h : (Path.splitExtension name).2 = none) :
    (Path.splitExtension name).1 = name := by
  unfold Path.splitExtension at h ⊢
  simp only at h ⊢
  split at h
  · rename_i hsplit
    rw [if_pos hsplit]
  · cases h

/-- The path with another extension, for a path with a name. -/
theorem withExtension_of_name (h : p.fileName = some name) :
    p.withExtension ext =
      (Path.mk p.components.dropLast).join ((Path.splitExtension name).1 ++ "." ++ ext) := by
  simp [Path.withExtension, h, Path.join]

theorem join_injective {dir : Path} {a b : String} (h : dir.join a = dir.join b) : a = b := by
  have hname := congrArg Path.fileName h
  simpa using hname

/-- A path has its own extension. -/
theorem withExtension_extension (h : p.extension = some e) : p.withExtension e = p := by
  cases hname : p.fileName with
  | none => simp [Path.withExtension, hname]
  | some name =>
    have hsplit : (Path.splitExtension name).2 = some e := by
      simpa [Path.extension, hname] using h
    rw [withExtension_of_name hname, ← (splitExtension_some hsplit).1]
    exact (Path.eq_join_of_fileName hname).symm

theorem extension_of_withExtension (hname : p.fileName = some name)
    (h : p.withExtension e = p) : p.extension = some e := by
  have hself := Path.eq_join_of_fileName hname
  rw [withExtension_of_name hname] at h
  have heq : (Path.splitExtension name).1 ++ "." ++ e = name := join_injective (h.trans hself)
  cases hsplit : (Path.splitExtension name).2 with
  | none =>
    rw [splitExtension_none hsplit] at heq
    have hlen := congrArg (fun s : String => s.toList.length) heq
    have hdot : ".".toList.length = 1 := rfl
    simp only [String.toList_append, List.length_append] at hlen
    omega
  | some e' =>
    have hname' := (splitExtension_some hsplit).1
    have hchars := congrArg String.toList (heq.trans hname')
    simp only [String.toList_append, List.append_assoc, List.append_cancel_left_eq] at hchars
    simp [Path.extension, hname, hsplit, String.toList_injective hchars]

/-- The name of a temporary file. -/
theorem tempPathWithExt_of_name (h : p.fileName = some name) (id : String) :
    tempPathWithExt p id ext = (Path.mk p.components.dropLast).join
      ((Path.splitExtension name).1 ++ ".voom_tmp_" ++ id ++ "." ++ ext) := by
  have hparent : p.parent = some (Path.mk p.components.dropLast) := by
    obtain ⟨components⟩ := p
    cases components with
    | nil => cases h
    | cons first rest => rfl
  simp [tempPathWithExt, h, hparent]

theorem tempPathWithExt_ne (p : Path) (id ext : String) : tempPathWithExt p id ext ≠ p := by
  cases hname : p.fileName with
  | none =>
    intro heq
    rw [← heq] at hname
    simp [tempPathWithExt] at hname
  | some name =>
    have hself := Path.eq_join_of_fileName hname
    rw [tempPathWithExt_of_name hname]
    intro heq
    have hnames := congrArg String.toList (join_injective (heq.trans hself))
    simp only [String.toList_append] at hnames
    cases hsplit : (Path.splitExtension name).2 with
    | none =>
      rw [splitExtension_none hsplit] at hnames
      have hlen := congrArg List.length hnames
      have hmarker : ".voom_tmp_".toList.length = 10 := rfl
      simp only [List.length_append] at hlen
      omega
    | some e =>
      -- The extension would have the dot before the temporary one.
      obtain ⟨hname', hdot⟩ := splitExtension_some hsplit
      have hchars := congrArg String.toList hname'
      rw [← hnames] at hchars
      have hmarker : ".voom_tmp_".toList = '.' :: "voom_tmp_".toList := rfl
      have hone : ".".toList = ['.'] := rfl
      simp only [String.toList_append, List.append_assoc, List.append_cancel_left_eq, hmarker, hone,
        List.cons_append, List.nil_append, List.cons.injEq, true_and] at hchars
      apply hdot
      rw [← hchars]
      simp

theorem tempPathWithExt_ne_withExtension (p : Path) (id ext : String) :
    tempPathWithExt p id ext ≠ p.withExtension ext := by
  cases hname : p.fileName with
  | none =>
    have hwith : p.withExtension ext = p := by simp [Path.withExtension, hname]
    rw [hwith]
    exact tempPathWithExt_ne p id ext
  | some name =>
    rw [tempPathWithExt_of_name hname, withExtension_of_name hname]
    intro heq
    have hlen := congrArg (fun s : String => s.toList.length) (join_injective heq)
    have hmarker : ".voom_tmp_".toList.length = 10 := rfl
    have hdot : ".".toList.length = 1 := rfl
    simp only [String.toList_append, List.length_append] at hlen
    omega

end Paths

/-! ## What is asked of an execution -/

/-- The targets of the plan's conversions. -/
def conversions (plan : Plan) : List Container :=
  plan.actions.filterMap fun action =>
    match action.operation, action.parameters with
    | .convertContainer, .container container => some container
    | _, _ => none

/-- The paths that a conversion may create. -/
def newPaths (plan : Plan) : List Path :=
  (conversions plan).map fun container => plan.file.path.withExtension container.asStr

/-- Every action is reported as successful. -/
def AllSucceeded (result : Except VoomError (List ActionResult)) : Prop :=
  ∃ results, result = .ok results ∧ ∀ r ∈ results, r.success = true

/-- The contents that the tools of an execution leave. -/
structure Left where
  edit : Content
  output : Content
  mux : Nat → Content

/-- The content that a series of jobs comes to. -/
def produced (plan : Plan) (jobs : List (Run Path Content)) (disk : Disk) : Option Content :=
  (jobs.getLast?.map (·.left)).or (disk plan.file.path)

/-- Only what was planned is touched: the file itself, temporary files, and a path of a
conversion that was free. If the execution does not succeed, the file is as it was and the
temporary files are gone. Without a conversion the result is at the path of the file. -/
structure OnlyPlanned (plan : Plan) (jobs : List (Run Path Content)) (succeeded : Prop)
    (disk disk' : Disk) : Prop where
  others : ∀ q, q ≠ plan.file.path → q ∉ Lib.Jobs.temps jobs →
    disk' q = disk q ∨ (q ∈ newPaths plan ∧ disk q = none)
  failure : ¬ succeeded →
    disk' plan.file.path = disk plan.file.path ∧ ∀ t ∈ Lib.Jobs.temps jobs, disk' t = none
  result : conversions plan = [] → succeeded → disk' plan.file.path = produced plan jobs disk

/-! ### Rules -/

section Rules

variable {plan : Plan} {jobs : List (Run Path Content)} {succeeded : Prop} {disk : Disk}

/-- Nothing is run. -/
theorem OnlyPlanned.of_nil : OnlyPlanned plan [] succeeded disk disk where
  others := fun q _ _ => .inl rfl
  failure := fun _ => ⟨rfl, by simp [Lib.Jobs.temps, Lib.Jobs.performed]⟩
  result := fun _ _ => rfl

/-- The first job is refused. -/
theorem OnlyPlanned.of_refused {run : Run Path Content} {rest : List (Run Path Content)}
    (h : run.outcome = .refused) (hfailed : ¬ succeeded) :
    OnlyPlanned plan (run :: rest) succeeded disk (Lib.Jobs.after (run :: rest) disk) := by
  have hafter : Lib.Jobs.after (run :: rest) disk = disk := by
    rw [Lib.Jobs.after_cons_of_ends (by rw [h]; rfl)]
    simp [Run.after, h]
  have htemps : Lib.Jobs.temps (run :: rest) = [] := by
    simp [Lib.Jobs.temps, Lib.Jobs.performed, h, Outcome.ends]
  rw [hafter]
  refine ⟨fun q _ _ => .inl rfl, fun _ => ⟨rfl, by simp [htemps]⟩, fun _ hsucceeded => ?_⟩
  exact absurd hsucceeded hfailed

/-- One temporary file that takes the place of the file, or stands for it at a new path. -/
theorem OnlyPlanned.of_replace {temp dest : Path} {outcome : Outcome} {left : Content}
    (htemp : temp ≠ plan.file.path) (htempDest : temp ≠ dest)
    (hdest : dest = plan.file.path ∨ (dest ∈ newPaths plan ∧ disk dest = none))
    (hsucceeded : succeeded ↔ outcome = .done) :
    OnlyPlanned plan [⟨.replace temp plan.file.path dest, outcome, left⟩] succeeded disk
      (Lib.Jobs.after [⟨.replace temp plan.file.path dest, outcome, left⟩] disk) := by
  rw [Lib.Jobs.after_single]
  have htemps : Lib.Jobs.temps
      [(⟨.replace temp plan.file.path dest, outcome, left⟩ : Run Path Content)] =
      if outcome = .refused then [] else [temp] :=
    Lib.Jobs.temps_single _
  refine ⟨?_, ?_, ?_⟩
  · intro q hq hqtemp
    by_cases hdone : outcome = .done
    · have hqt : q ≠ temp := by
        rintro rfl
        rw [htemps, hdone] at hqtemp
        exact hqtemp (by simp)
      by_cases hqd : q = dest
      · subst hqd
        exact .inr (hdest.resolve_left hq)
      · exact .inl (Lib.Jobs.replace_other hqt hq hqd)
    · by_cases hrefused : outcome = .refused
      · subst hrefused
        exact .inl rfl
      · have hqt : q ≠ temp := by
          rintro rfl
          rw [htemps, if_neg hrefused] at hqtemp
          exact hqtemp (by simp)
        exact .inl (Lib.Jobs.replace_not_done hdone hqt)
  · intro hfailed
    have hdone : outcome ≠ .done := fun h => hfailed (hsucceeded.mpr h)
    refine ⟨Lib.Jobs.replace_not_done hdone htemp.symm, ?_⟩
    intro t ht
    rw [htemps] at ht
    split at ht
    · cases ht
    · rename_i hrefused
      rw [List.mem_singleton] at ht
      subst ht
      exact Lib.Jobs.replace_temp_of_started htempDest htemp hrefused
  · intro hnone hdone
    rw [hsucceeded] at hdone
    subst hdone
    have hself : dest = plan.file.path := hdest.resolve_right fun h => by
      simp [newPaths, hnone] at h
    subst hself
    simp [produced, Run.after, Lib.Jobs.replace_dest]

end Rules

end Voom.Executors
