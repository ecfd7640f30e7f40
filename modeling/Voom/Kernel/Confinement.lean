-- SUMMARY: What the host functions let a plugin get at, over every sequence of calls.
import Voom.Kernel.Sandbox
import Voom.Lib.Outcome

/-!
# Confinement

What is read or listed is where the checked path leads, free of links, so the check holds of the
place itself. A file is written through the path as given: the place is the checked one unless
its name is a link. Of the arguments of a tool only those that look like paths are checked.
-/

namespace Voom.Kernel

open Lib

section

variable {env : HostEnv} {host : HostState} {tree : FileTree}

/-! ## What the checks let through -/

theorem not_allows_of_nil (h : host.allowedPaths = []) (place : List String) :
    host.allows place = false := by
  rw [HostState.allows, h]
  rfl

theorem checkWrite_ok {path : String} (h : checkWrite env host tree path = .ok ()) :
    ∃ parent name dir, (WrittenPath.parse path).parent = some parent ∧
      (WrittenPath.parse path).fileName = some name ∧
      canonicalize env tree parent = .ok dir ∧ host.allows (dir ++ [name]) = true := by
  unfold checkWrite at h
  split at h
  · cases h
  · split at h
    · cases h
    · rename_i parent hparent
      split at h
      · cases h
      · rename_i dir hdir
        split at h
        · cases h
        · rename_i name hname
          split at h
          · exact ⟨parent, name, dir, hparent, hname, hdir, by assumption⟩
          · cases h

theorem allowedFilesystemPath_ok {path subject : String} {place : List String}
    (h : allowedFilesystemPath env host tree path subject = .ok place) :
    canonicalize env tree (.parse path) = .ok place ∧ host.allows place = true := by
  unfold allowedFilesystemPath at h
  simp only at h
  split at h
  · cases h
  · split at h
    · cases h
    · rename_i canonical hcanonical
      split at h
      · obtain rfl := Except.ok.inj h
        exact ⟨hcanonical, by assumption⟩
      · cases h

theorem checkQuery_ok {path : String} (h : checkQuery env host tree path = .ok ()) :
    (∃ place, canonicalize env tree (.parse path) = .ok place ∧ host.allows place = true) ∨
      (∃ e, canonicalize env tree (.parse path) = .error e) ∧
        host.allowsText (.parse path) = true := by
  unfold checkQuery at h
  split at h
  · cases h
  · split at h
    · rename_i hallowed
      unfold queryAllowed at hallowed
      split at hallowed
      · rename_i place hplace
        exact .inl ⟨place, hplace, hallowed⟩
      · rename_i e he
        exact .inr ⟨⟨e, he⟩, hallowed⟩
    · cases h

theorem checkTool_ok {tool : String} {args : List String}
    (h : checkTool env host tree tool args = .ok ()) :
    ∀ arg ∈ args, ∀ text ∈ argTexts arg, looksLikePath text = true →
      ∃ place, canonicalize env tree (.parse text) = .ok place ∧ host.allows place = true := by
  unfold checkTool at h
  split at h
  · cases h
  · obtain ⟨⟨⟩, hargs, -⟩ := bind_eq_ok.mp h
    intro arg harg text htext hlooks
    have hchecked := forM_eq_ok.mp (forM_eq_ok.mp hargs arg harg) text htext
    rw [if_pos hlooks, checkPathAllowed] at hchecked
    split at hchecked
    · cases hchecked
    · rename_i place hplace
      split at hchecked
      · exact ⟨place, hplace, by assumption⟩
      · cases hchecked

/-! ## Places -/

theorem isCanonical_of_canonicalize {path : WrittenPath} {place : List String}
    (h : canonicalize env tree path = .ok place) : tree.IsCanonical place :=
  FileTree.isCanonical_of_canonicalize env.cwd_entries h

/-- A canonical place is read where it is. -/
theorem metadata_place {place place' : List String} {node : Node} {stat : Stat}
    (hplace : tree.IsCanonical place)
    (h : tree.metadata env.links env.cwd ⟨true, place⟩ = .ok (node, stat, place')) :
    place' = place := by
  obtain ⟨found, hfound, hstat⟩ := bind_eq_ok.mp h
  obtain rfl : found = place :=
    Except.ok.inj (hfound.symm.trans (hplace.canonicalize env.cwd))
  split at hstat
  · cases hstat
    rfl
  · cases hstat
    rfl
  · cases hstat
  · cases hstat

theorem readDir_place {place place' names : List String} (hplace : tree.IsCanonical place)
    (h : tree.readDir env.links env.cwd ⟨true, place⟩ = .ok (names, place')) : place' = place := by
  obtain ⟨found, hfound, hnames⟩ := bind_eq_ok.mp h
  obtain rfl : found = place :=
    Except.ok.inj (hfound.symm.trans (hplace.canonicalize env.cwd))
  split at hnames
  · cases hnames
    rfl
  · cases hnames

/-! ## Events -/

variable (env tree) in
/-- The name of a path is a symbolic link in the directory the path lies in. -/
def NamesLink (path : String) : Prop :=
  ∃ parent name dir target, (WrittenPath.parse path).parent = some parent ∧
    (WrittenPath.parse path).fileName = some name ∧ canonicalize env tree parent = .ok dir ∧
    tree.node (dir ++ [name]) = some (.symlink target)

variable (env host) in
/-- What was got at lies under an allowed path: every place, and whatever an argument of a tool
stands for. -/
def Access.Inside (before : FileTree) : Access → Prop
  | .wrote _ place | .read _ place | .listed _ place => host.allows place = true
  | .queried path =>
    ∃ place, canonicalize env before (.parse path) = .ok place ∧ host.allows place = true
  | .ran _ args =>
    ∀ arg ∈ args, ∀ text ∈ argTexts arg, ∀ place,
      canonicalize env before (.parse text) = .ok place → host.allows place = true

variable (env host) in
/-- A plugin stays inside, gets at nothing without an allowed path, and changes nothing where it
is refused. -/
structure HostEvent.Confined (event : HostEvent) : Prop where
  inside : ∀ access ∈ event.accesses, access.Inside env host event.before
  denied : host.allowedPaths = [] → event.outcome.isOk = false
  unchanged : ∀ message, event.outcome = .error (.refused message) → event.after = event.before

variable (env host) in
/-- What the checks make sure of. The place of a written file is the one its path stands for from
then on; a path that resolves to nothing is only looked at as a text; an argument is looked at if
it looks like a path. -/
def Access.Checked (before after : FileTree) : Access → Prop
  | .wrote path place =>
    after.IsCanonical place ∧ canonicalize env after (.parse path) = .ok place ∧
      (¬ NamesLink env before path → host.allows place = true)
  | .read path place | .listed path place =>
    before.IsCanonical place ∧ canonicalize env before (.parse path) = .ok place ∧
      host.allows place = true
  | .queried path =>
    (∃ place, canonicalize env before (.parse path) = .ok place ∧ host.allows place = true) ∨
      (∃ e, canonicalize env before (.parse path) = .error e) ∧
        host.allowsText (.parse path) = true
  | .ran _ args =>
    ∀ arg ∈ args, ∀ text ∈ argTexts arg, looksLikePath text = true →
      ∃ place, canonicalize env before (.parse text) = .ok place ∧ host.allows place = true

/-- A tool is called and no argument of it looks like a path. -/
def HostCall.NamesNoPath : HostCall → Prop
  | .runTool _ args _ => ∀ arg ∈ args, ∀ text ∈ argTexts arg, looksLikePath text = false
  | .writeFile _ _ | .readFileMetadata _ | .listFiles _ _ | .getPathTransitions _ => False

variable (env host) in
structure HostEvent.Sandboxed (event : HostEvent) : Prop where
  checked : ∀ access ∈ event.accesses, access.Checked env host event.before event.after
  denied : host.allowedPaths = [] → event.outcome.isOk = true → event.call.NamesNoPath
  unchanged : ∀ message, event.outcome = .error (.refused message) →
    event.accesses = [] ∧ event.after = event.before

theorem Effect.refused_sandboxed {α : Type} (call : HostCall) (message : String) :
    ((Effect.refused tree message : Effect α).event tree call).Sandboxed env host where
  checked := nofun
  denied _ h := nomatch h
  unchanged _ _ := ⟨rfl, rfl⟩

/-- A call that tried what it was to do and got at nothing. -/
theorem failed_sandboxed {α : Type} (call : HostCall) (message : String) :
    ((⟨.error (.failed message), tree, []⟩ : Effect α).event tree call).Sandboxed env host where
  checked := nofun
  denied _ h := nomatch h
  unchanged _ _ := ⟨rfl, rfl⟩

theorem not_refused {α : Type} {x : Except String α} {f : String → String} {message : String} :
    (x.mapError fun e => HostError.failed (f e)).map (fun _ => ()) ≠
      .error (.refused message) := by
  cases x <;> nofun

theorem writeFile_sandboxed (path : String) (content : List UInt8) (call : HostCall) :
    ((writeFile env host tree path content).event tree call).Sandboxed env host := by
  unfold writeFile
  split
  · exact Effect.refused_sandboxed call _
  · rename_i hcheck
    obtain ⟨parent, name, dir, hparent, hname, hdir, hallows⟩ := checkWrite_ok hcheck
    split
    · exact failed_sandboxed call _
    · rename_i tree' place hwrite
      obtain ⟨hcanonical, hfound⟩ := FileTree.write_canonicalize env.cwd_entries hwrite
      refine ⟨?_, ?_, nofun⟩
      · rintro _ (_ | ⟨_, ⟨⟩⟩)
        refine ⟨hcanonical, hfound, fun hlink => ?_⟩
        have hplace : place = dir ++ [name] := by
          apply FileTree.write_place hparent hname hdir hwrite
          exact fun target htarget => hlink ⟨parent, name, dir, target, hparent, hname, hdir, htarget⟩
        rw [hplace]
        exact hallows
      · intro hnone
        rw [not_allows_of_nil hnone] at hallows
        cases hallows

theorem readFileMetadata_sandboxed (path : String) (call : HostCall) :
    ((readFileMetadata env host tree path).event tree call).Sandboxed env host := by
  unfold readFileMetadata
  split
  · exact Effect.refused_sandboxed call _
  · rename_i filePath hcheck
    obtain ⟨hcanonical, hallows⟩ := allowedFilesystemPath_ok hcheck
    have hplace := isCanonical_of_canonicalize hcanonical
    split
    · exact failed_sandboxed call _
    · rename_i node stat place hmetadata
      obtain rfl := metadata_place hplace hmetadata
      refine ⟨List.forall_mem_singleton.mpr ⟨hplace, hcanonical, hallows⟩, ?_, ?_⟩
      · intro hnone
        rw [not_allows_of_nil hnone] at hallows
        cases hallows
      · exact fun message h => absurd h not_refused

theorem listFiles_sandboxed (dir pattern : String) (call : HostCall) :
    ((listFiles env host tree dir pattern).event tree call).Sandboxed env host := by
  unfold listFiles
  split
  · exact Effect.refused_sandboxed call _
  · rename_i dirPath hcheck
    obtain ⟨hcanonical, hallows⟩ := allowedFilesystemPath_ok hcheck
    have hplace := isCanonical_of_canonicalize hcanonical
    split
    · exact failed_sandboxed call _
    · rename_i names place hread
      obtain rfl := readDir_place hplace hread
      refine ⟨List.forall_mem_singleton.mpr ⟨hplace, hcanonical, hallows⟩, ?_, ?_⟩
      · intro hnone
        rw [not_allows_of_nil hnone] at hallows
        cases hallows
      · exact fun message h => absurd h not_refused

theorem getPathTransitions_sandboxed (path : String) (call : HostCall) :
    ((getPathTransitions env host tree path).event tree call).Sandboxed env host := by
  unfold getPathTransitions
  split
  · exact Effect.refused_sandboxed call _
  · rename_i hcheck
    have hquery := checkQuery_ok hcheck
    split
    · exact Effect.refused_sandboxed call _
    · rename_i store _
      refine ⟨List.forall_mem_singleton.mpr hquery, ?_, ?_⟩
      · intro hnone
        simp [checkQuery, hnone] at hcheck
      · intro message h
        dsimp only [Effect.event] at h
        cases hstore : store path with
        | error e =>
          rw [hstore] at h
          cases h
        | ok transitions =>
          rw [hstore] at h
          exact absurd h not_refused

theorem runTool_sandboxed (tool : String) (args : List String) (timeoutMs : Nat) :
    ((runTool env host tree tool args timeoutMs).event tree
      (.runTool tool args timeoutMs)).Sandboxed env host := by
  unfold runTool
  split
  · exact Effect.refused_sandboxed _ _
  · rename_i hcheck
    have hargs := checkTool_ok hcheck
    refine ⟨List.forall_mem_singleton.mpr hargs, ?_, ?_⟩
    · intro hnone _ arg harg text htext
      apply Bool.eq_false_iff.mpr
      intro hlooks
      obtain ⟨place, -, hallows⟩ := hargs arg harg text htext hlooks
      rw [not_allows_of_nil hnone] at hallows
      cases hallows
    · intro message h
      dsimp only [Effect.event] at h
      cases houtput : (env.runWithTimeoutConfig tool args timeoutMs tree).2 <;>
        simp [houtput, Except.map, Except.mapError] at h

theorem perform_sandboxed (call : HostCall) :
    (perform env host tree call).Sandboxed env host := by
  cases call with
  | writeFile path content => exact writeFile_sandboxed path content _
  | readFileMetadata path => exact readFileMetadata_sandboxed path _
  | listFiles dir pattern => exact listFiles_sandboxed dir pattern _
  | getPathTransitions path => exact getPathTransitions_sandboxed path _
  | runTool tool args timeoutMs => exact runTool_sandboxed tool args timeoutMs

end

/-- Whatever a plugin calls, in whatever order and whatever else happens to the disk between its
calls, every call is sandboxed. -/
theorem performAll_sandboxed (env : HostEnv) (host : HostState) (tree : FileTree)
    (calls : List (HostCall × (FileTree → FileTree))) :
    ∀ event ∈ performAll env host tree calls, event.Sandboxed env host := by
  induction calls generalizing tree with
  | nil => exact nofun
  | cons first rest ih =>
    obtain ⟨call, meanwhile⟩ := first
    intro event hevent
    rcases List.mem_cons.mp hevent with rfl | hevent
    · exact perform_sandboxed call
    · exact ih _ event hevent

/-! ## Arguments that do not look like paths -/

namespace Notes

/-- The directory of a plugin, with a link out of it. -/
def disk : FileTree :=
  .ofEntries
    [(["etc"], .dir { len := 0 }), (["etc", "passwd"], .file [] { len := 0 }),
      (["plugin"], .dir { len := 0 }), (["plugin", "notes"], .symlink ⟨true, ["", "etc"]⟩)]
    (by decide)

def env : HostEnv where
  links := 40
  cwd := ["plugin"]
  cwd_entries := by decide
  now := some 0
  runWithTimeoutConfig _ _ _ tree := (tree, .ok ⟨some 0, [], []⟩)
  jsonToVec _ := .ok []
  transitionsToVec _ := .ok []

def host (allowedPaths : List Path) : HostState :=
  { pluginName := "notes", allowedPaths, allowedTools := ["cat"]
    allowedCapabilities := ["execute:cat"] }

end Notes

/-- A file written into the directory of the plugin. -/
theorem performAll_sandboxed_notes :
    ∃ event ∈ performAll Notes.env (Notes.host [⟨["plugin"]⟩]) Notes.disk
        [(.writeFile "/plugin/todo.txt" [104, 105], id)],
      event.outcome.isOk = true ∧
        event.Sandboxed Notes.env (Notes.host [⟨["plugin"]⟩]) := by
  refine ⟨_, List.mem_cons_self, by decide +kernel, ?_⟩
  exact performAll_sandboxed _ _ Notes.disk [(.writeFile "/plugin/todo.txt" [104, 105], id)] _
    List.mem_cons_self

/-- A relative argument goes through the link, and without an allowed path a tool still runs. -/
theorem runTool_not_confined :
    (¬ ∀ event ∈ performAll Notes.env (Notes.host [⟨["plugin"]⟩]) Notes.disk
        [(.runTool "cat" ["notes/passwd"] 1000, id)],
      event.Confined Notes.env (Notes.host [⟨["plugin"]⟩])) ∧
    ¬ ∀ event ∈ performAll Notes.env (Notes.host []) Notes.disk
        [(.runTool "cat" ["hello"] 1000, id)], event.Confined Notes.env (Notes.host []) := by
  constructor
  · intro h
    have hinside := (h _ List.mem_cons_self).inside (.ran "cat" ["notes/passwd"])
      (by decide +kernel)
    have hallows := hinside "notes/passwd" List.mem_cons_self "notes/passwd" List.mem_cons_self
      ["etc", "passwd"] (by decide +kernel)
    exact absurd hallows (by decide +kernel)
  · intro h
    have hdenied := (h _ List.mem_cons_self).denied rfl
    exact absurd hdenied (by decide +kernel)

end Voom.Kernel
