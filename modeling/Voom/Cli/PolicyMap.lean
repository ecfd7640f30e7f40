-- SUMMARY: Per-directory policy mapping, and when the longest text is the most specific rule.
import Voom.Lib.FileTree
import Voom.Lib.Outcome
import Voom.Lib.Sorting

/-!
# Policy mapping

Mappings are sorted by the length of their text and matched by whole components. The two agree
where no rule that matches a file is written longer than a more specific one:
`resolve_mostSpecific_iff`.
-/

namespace Voom.Cli.PolicyMap

open Lib

/-- A single prefix-to-policy mapping entry. -/
structure MappingEntry where
  pathPrefix : String
  policy : Option String := none
  skip : Option Bool := none
  deriving DecidableEq, Repr

inductive BuildError where
  /-- "mapping for prefix … has both `policy` and `skip = true`; use one or the other" -/
  | bothSet (pathPrefix : String)
  /-- "mapping for prefix … must have either `policy` or `skip = true`" -/
  | neitherSet (pathPrefix : String)
  /-- "failed to compile policy: …" -/
  | compile (message : String)
  /-- An index that is not there. -/
  | panicked
  deriving DecidableEq, Repr

/-- Validate that exactly one of `policy` or `skip = true` is set. -/
def MappingEntry.validate (e : MappingEntry) : Except BuildError Unit :=
  let hasPolicy := e.policy.isSome
  let hasSkip := e.skip == some true
  if hasPolicy && hasSkip then .error (.bothSet e.pathPrefix)
  else if !hasPolicy && !hasSkip then .error (.neitherSet e.pathPrefix)
  else .ok ()

/-- What to do when no prefix matches. -/
inductive DefaultAction where
  /-- Use policy at this index. -/
  | policy (idx : Nat)
  | skip
  | none

inductive MappingAction where
  | policy (idx : Nat)
  | skip
  deriving DecidableEq, Repr

structure ResolvedMapping where
  pathPrefix : String
  action : MappingAction
  deriving DecidableEq, Repr

/-- Result of resolving a file against the policy map. -/
inductive PolicyMatch (π : Type) where
  | policy (compiled : π) (name : String)
  | skip
  deriving DecidableEq, Repr

structure PolicyResolver (π : Type) where
  root : WrittenPath
  /-- Sorted by prefix length descending (longest prefix wins). -/
  mappings : List ResolvedMapping
  default : DefaultAction
  /-- Deduplicated compiled policies. -/
  policies : List (String × π)

/-! ## Paths -/

/-- The components of a path, the root among them. -/
def pathComponents (path : WrittenPath) : List String :=
  if path.absolute then "/" :: path.components else path.components

/-- The components of `file_path.strip_prefix(root).unwrap_or(file_path)`. -/
def relativeTo (root file : WrittenPath) : List String :=
  if (pathComponents root).isPrefixOf (pathComponents file) then
    (pathComponents file).drop (pathComponents root).length
  else pathComponents file

/-- `relative.starts_with(prefix)`. -/
def startsWith (relative : List String) (pathPrefix : String) : Bool :=
  (pathComponents (.parse pathPrefix)).isPrefixOf relative

/-! ## Build -/

section

variable {π : Type} (compile : String → Except String π)

/-- Unique policy paths, to compile each only once. -/
def policyPaths (default : Option String) (entries : List MappingEntry) : List String :=
  let first :=
    match default with
    | some d => if d ≠ "skip" then [d] else []
    | none => []
  entries.foldl (fun paths entry =>
    match entry.policy with
    | some p => if p ∈ paths then paths else paths ++ [p]
    | none => paths) first

def compilePolicies (paths : List String) : Except BuildError (List (String × π)) :=
  paths.mapM fun path =>
    match compile path with
    | .ok compiled => .ok (path, compiled)
    | .error message => .error (.compile message)

/-- `path_to_index[path]`. -/
def pathToIndex (policies : List (String × π)) (path : String) : Except BuildError Nat :=
  match policies.findIdx? (·.1 == path) with
  | some idx => .ok idx
  | none => .error .panicked

def defaultAction (policies : List (String × π)) : Option String → Except BuildError DefaultAction
  | some "skip" => .ok .skip
  | some d => (pathToIndex policies d).map .policy
  | none => .ok .none

def entryAction (policies : List (String × π)) (entry : MappingEntry) :
    Except BuildError MappingAction :=
  if entry.skip = some true then .ok .skip
  else
    match entry.policy with
    | some p => (pathToIndex policies p).map .policy
    | none => .error .panicked

def resolveEntry (policies : List (String × π)) (entry : MappingEntry) :
    Except BuildError ResolvedMapping :=
  (entryAction policies entry).map fun action => ⟨entry.pathPrefix, action⟩

/-- By the length of the text, longest first. -/
def byLength {α : Type} (text : α → String) (a b : α) : Bool :=
  decide ((text b).utf8ByteSize ≤ (text a).utf8ByteSize)

/-- `PolicyResolver::build`, with the compilation of a policy file as a function of its path. -/
def build (default : Option String) (entries : List MappingEntry) (root : WrittenPath) :
    Except BuildError (PolicyResolver π) := do
  entries.forM MappingEntry.validate
  let policies ← compilePolicies compile (policyPaths default entries)
  let default ← defaultAction policies default
  let mappings ← entries.mapM (resolveEntry policies)
  return { root, mappings := mappings.mergeSort (byLength ResolvedMapping.pathPrefix), default,
           policies }

end

/-! ## Resolve -/

inductive ResolveError where
  /-- "no policy mapping matches … and no default is configured" -/
  | noMatch (relative : List String)
  | panicked
  deriving DecidableEq, Repr

namespace PolicyResolver

variable {π : Type}

def policyAt (r : PolicyResolver π) (idx : Nat) : Except ResolveError (PolicyMatch π) :=
  match r.policies[idx]? with
  | some (name, compiled) => .ok (.policy compiled name)
  | none => .error .panicked

def mappingAction (r : PolicyResolver π) : MappingAction → Except ResolveError (PolicyMatch π)
  | .policy idx => r.policyAt idx
  | .skip => .ok .skip

/-- The mapping at which the loop of `resolve` stops. -/
def findMapping (r : PolicyResolver π) (file : WrittenPath) : Option ResolvedMapping :=
  r.mappings.find? fun mapping => startsWith (relativeTo r.root file) mapping.pathPrefix

/-- Resolve which policy (or skip) applies to a file. -/
def resolve (r : PolicyResolver π) (file : WrittenPath) : Except ResolveError (PolicyMatch π) :=
  match r.findMapping file with
  | some mapping => r.mappingAction mapping.action
  | none =>
    match r.default with
    | .policy idx => r.policyAt idx
    | .skip => .ok .skip
    | .none => .error (.noMatch (relativeTo r.root file))

end PolicyResolver

/-! ## What entries ask for -/

section

variable {π : Type} (compile : String → Except String π)

/-- The action of an entry. -/
inductive MappingEntry.Asks (entry : MappingEntry) : PolicyMatch π → Prop where
  | skip (h : entry.skip = some true) : Asks entry .skip
  | policy {name : String} {compiled : π} (hskip : entry.skip ≠ some true)
      (hpolicy : entry.policy = some name) (hcompile : compile name = .ok compiled) :
      Asks entry (.policy compiled name)

/-- The default of a map. -/
inductive DefaultAsks (relative : List String) :
    Option String → Except ResolveError (PolicyMatch π) → Prop where
  | skip : DefaultAsks relative (some "skip") (.ok .skip)
  | policy {name : String} {compiled : π} (hskip : name ≠ "skip")
      (hcompile : compile name = .ok compiled) :
      DefaultAsks relative (some name) (.ok (.policy compiled name))
  | none : DefaultAsks relative none (.error (.noMatch relative))

end

def MappingEntry.components (entry : MappingEntry) : List String :=
  pathComponents (.parse entry.pathPrefix)

/-- The number of components of the prefix. -/
def MappingEntry.depth (entry : MappingEntry) : Nat := entry.components.length

def MappingEntry.matches (relative : List String) (entry : MappingEntry) : Bool :=
  startsWith relative entry.pathPrefix

/-- By the number of components, deepest first. -/
def byDepth (a b : MappingEntry) : Bool := decide (b.depth ≤ a.depth)

/-- The entry whose prefix has the most components of those that match, and the first in the
file of those with as many. -/
def MostSpecific (entries : List MappingEntry) (relative : List String) (entry : MappingEntry) :
    Prop :=
  FirstAmong byDepth (MappingEntry.matches relative) entries entry

/-- `resolve` stops at the most specific entry and returns its action, or the default where no
entry matches. -/
structure PicksMostSpecific {π : Type} (compile : String → Except String π)
    (default : Option String) (entries : List MappingEntry) (r : PolicyResolver π)
    (file : WrittenPath) : Prop where
  specific : ∀ entry, MostSpecific entries (relativeTo r.root file) entry →
    (r.findMapping file).map (·.pathPrefix) = some entry.pathPrefix ∧
      ∃ action, r.resolve file = .ok action ∧ entry.Asks compile action
  unmatched : (∀ entry ∈ entries, entry.matches (relativeTo r.root file) = false) →
    DefaultAsks compile (relativeTo r.root file) default (r.resolve file)

/-- The most specific entry is written longer than the other entries that match, or as long as
they are and earlier in the file. -/
def WrittenLongest (entries : List MappingEntry) (relative : List String) : Prop :=
  ∀ entry, MostSpecific entries relative entry →
    FirstAmong (byLength MappingEntry.pathPrefix) (MappingEntry.matches relative) entries entry

/-- The same map, but for the order of entries with different prefixes and for how the prefixes
are written. -/
def SameMap (entries entries' : List MappingEntry) : Prop :=
  ∀ path, ((entries.filter fun e => e.components = path).map fun e => (e.policy, e.skip)) =
    (entries'.filter fun e => e.components = path).map fun e => (e.policy, e.skip)

/-! ## The built resolver -/

section

variable {π : Type} {compile : String → Except String π}

theorem mem_compilePolicies {paths : List String} {policies : List (String × π)}
    (h : compilePolicies compile paths = .ok policies) {entry : String × π}
    (hentry : entry ∈ policies) : compile entry.1 = .ok entry.2 := by
  obtain ⟨path, -, hpath⟩ := mem_of_mapM h hentry
  cases hcompile : compile path with
  | ok compiled =>
    rw [hcompile] at hpath
    obtain rfl := Except.ok.inj hpath
    exact hcompile
  | error message =>
    rw [hcompile] at hpath
    cases hpath

/-- An index stands for the policy it was looked up for. -/
theorem pathToIndex_eq_ok {policies : List (String × π)}
    (hpolicies : ∀ entry ∈ policies, compile entry.1 = .ok entry.2) {path : String} {idx : Nat}
    (h : pathToIndex policies path = .ok idx) :
    ∃ compiled, policies[idx]? = some (path, compiled) ∧ compile path = .ok compiled := by
  unfold pathToIndex at h
  split at h
  · rename_i idx' hidx
    obtain rfl := Except.ok.inj h
    obtain ⟨hlt, hname, -⟩ := List.findIdx?_eq_some_iff_getElem.mp hidx
    have hname : (policies[idx']).1 = path := by simpa using hname
    refine ⟨(policies[idx']).2, ?_, ?_⟩
    · rw [List.getElem?_eq_getElem hlt, ← hname]
    · rw [← hname]
      exact hpolicies _ (List.getElem_mem hlt)
  · cases h

/-- The mapping of an entry. -/
def toMapping (policies : List (String × π)) (entry : MappingEntry) : ResolvedMapping :=
  match resolveEntry policies entry with
  | .ok mapping => mapping
  | .error _ => ⟨entry.pathPrefix, .skip⟩

@[simp] theorem toMapping_pathPrefix (policies : List (String × π)) (entry : MappingEntry) :
    (toMapping policies entry).pathPrefix = entry.pathPrefix := by
  unfold toMapping
  split
  · rename_i mapping h
    obtain ⟨action, -, rfl⟩ := map_eq_ok.mp h
    rfl
  · rfl

/-- What a resolver is made of. -/
structure Built (compile : String → Except String π) (default : Option String)
    (entries : List MappingEntry) (root : WrittenPath) (r : PolicyResolver π) : Prop where
  root_eq : r.root = root
  mappings_eq : r.mappings =
    (entries.map (toMapping r.policies)).mergeSort (byLength ResolvedMapping.pathPrefix)
  policies : ∀ entry ∈ r.policies, compile entry.1 = .ok entry.2
  default_eq : defaultAction r.policies default = .ok r.default
  resolved : ∀ entry ∈ entries, ∃ mapping, resolveEntry r.policies entry = .ok mapping

theorem build_eq_ok {default : Option String} {entries : List MappingEntry} {root : WrittenPath}
    {r : PolicyResolver π} (h : build compile default entries root = .ok r) :
    Built compile default entries root r := by
  obtain ⟨-, -, h⟩ := bind_eq_ok.mp h
  obtain ⟨policies, hpolicies, h⟩ := bind_eq_ok.mp h
  obtain ⟨action, haction, h⟩ := bind_eq_ok.mp h
  obtain ⟨mappings, hmappings, h⟩ := bind_eq_ok.mp h
  obtain rfl := Except.ok.inj h
  have hmap : mappings = entries.map (toMapping policies) := by
    apply mapM_eq_map hmappings
    intro entry _ mapping hmapping
    rw [toMapping, hmapping]
  refine ⟨rfl, by rw [hmap], fun entry hentry => mem_compilePolicies hpolicies hentry, haction, ?_⟩
  exact Succeeds.mapM_iff.mp ⟨mappings, hmappings⟩

/-- A mapping carries out what its entry asks for. -/
theorem Built.asks {default : Option String} {entries : List MappingEntry} {root : WrittenPath}
    {r : PolicyResolver π} (h : Built compile default entries root r) {entry : MappingEntry}
    (hentry : entry ∈ entries) :
    ∃ action, r.mappingAction (toMapping r.policies entry).action = .ok action ∧
      entry.Asks compile action := by
  obtain ⟨mapping, hmapping⟩ := h.resolved entry hentry
  rw [toMapping, hmapping]
  obtain ⟨action, haction, rfl⟩ := map_eq_ok.mp hmapping
  unfold entryAction at haction
  split at haction
  · rename_i hskip
    obtain rfl := Except.ok.inj haction
    exact ⟨.skip, rfl, .skip hskip⟩
  · rename_i hskip
    split at haction
    · rename_i name hname
      obtain ⟨idx, hidx, rfl⟩ := map_eq_ok.mp haction
      obtain ⟨compiled, hget, hcompile⟩ := pathToIndex_eq_ok h.policies hidx
      refine ⟨.policy compiled name, ?_, .policy hskip hname hcompile⟩
      simp only [PolicyResolver.mappingAction, PolicyResolver.policyAt, hget]
    · cases haction

theorem Built.default_asks {default : Option String} {entries : List MappingEntry}
    {root : WrittenPath} {r : PolicyResolver π} (h : Built compile default entries root r)
    {file : WrittenPath} (hnone : r.findMapping file = none) :
    DefaultAsks compile (relativeTo r.root file) default (r.resolve file) := by
  have hdefault := h.default_eq
  unfold PolicyResolver.resolve
  rw [hnone]
  unfold defaultAction at hdefault
  split at hdefault
  · rw [← Except.ok.inj hdefault]
    exact .skip
  · rename_i name hskip
    obtain ⟨idx, hidx, hdefault⟩ := map_eq_ok.mp hdefault
    obtain ⟨compiled, hget, hcompile⟩ := pathToIndex_eq_ok h.policies hidx
    rw [← hdefault]
    simp only [PolicyResolver.policyAt, hget]
    exact .policy (fun heq => hskip (heq ▸ rfl)) hcompile
  · rw [← Except.ok.inj hdefault]
    exact .none

/-! ## Which mapping is found -/

theorem byLength_trans {α : Type} (text : α → String) (a b c : α) (hab : byLength text a b = true)
    (hbc : byLength text b c = true) : byLength text a c = true := by
  simp only [byLength, decide_eq_true_eq] at *
  omega

theorem byLength_total {α : Type} (text : α → String) (a b : α) :
    (byLength text a b || byLength text b a) = true := by
  simp only [byLength, Bool.or_eq_true, decide_eq_true_eq]
  omega

theorem byDepth_trans (a b c : MappingEntry) (hab : byDepth a b = true) (hbc : byDepth b c = true) :
    byDepth a c = true := by
  simp only [byDepth, decide_eq_true_eq] at *
  omega

theorem byDepth_total (a b : MappingEntry) : (byDepth a b || byDepth b a) = true := by
  simp only [byDepth, Bool.or_eq_true, decide_eq_true_eq]
  omega

/-- The loop stops at the mapping of the matching entry that is written longest. -/
theorem Built.findMapping_of_firstAmong {default : Option String} {entries : List MappingEntry}
    {root : WrittenPath} {r : PolicyResolver π} (h : Built compile default entries root r)
    {file : WrittenPath} {entry : MappingEntry}
    (hfirst : FirstAmong (byLength MappingEntry.pathPrefix)
      (MappingEntry.matches (relativeTo r.root file)) entries entry) :
    r.findMapping file = some (toMapping r.policies entry) := by
  unfold PolicyResolver.findMapping
  rw [h.mappings_eq, find?_mergeSort_eq_some_iff (byLength_trans _) (byLength_total _)]
  apply FirstAmong.map
  simp only [byLength, toMapping_pathPrefix]
  exact hfirst

theorem Built.findMapping_eq_none_iff {default : Option String} {entries : List MappingEntry}
    {root : WrittenPath} {r : PolicyResolver π} (h : Built compile default entries root r)
    {file : WrittenPath} :
    r.findMapping file = none ↔
      ∀ entry ∈ entries, entry.matches (relativeTo r.root file) = false := by
  unfold PolicyResolver.findMapping
  rw [h.mappings_eq, List.find?_eq_none]
  simp only [List.mem_mergeSort, List.forall_mem_map, toMapping_pathPrefix, Bool.not_eq_true,
    MappingEntry.matches]

/-- Of the entries that match, some is the first by any measure. -/
theorem exists_firstAmong {le : MappingEntry → MappingEntry → Bool}
    (htrans : ∀ a b c, le a b → le b c → le a c) (htotal : ∀ a b, le a b || le b a)
    {entries : List MappingEntry} {relative : List String} {entry : MappingEntry}
    (hentry : entry ∈ entries) (hmatches : entry.matches relative = true) :
    ∃ first, FirstAmong le (MappingEntry.matches relative) entries first := by
  cases hfind : (entries.mergeSort le).find? (MappingEntry.matches relative) with
  | none =>
    have hnone := List.find?_eq_none.mp hfind entry (List.mem_mergeSort.mpr hentry)
    exact absurd hmatches hnone
  | some first => exact ⟨first, (find?_mergeSort_eq_some_iff htrans htotal).mp hfind⟩

theorem matches_iff {relative : List String} {entry : MappingEntry} :
    entry.matches relative = true ↔ entry.components <+: relative :=
  List.isPrefixOf_iff_prefix

/-- Matching prefixes with as many components are equal. -/
theorem components_eq_of_depth {relative : List String} {a b : MappingEntry}
    (ha : a.matches relative = true) (hb : b.matches relative = true) (hdepth : a.depth = b.depth) :
    a.components = b.components := by
  rw [List.prefix_iff_eq_take.mp (matches_iff.mp ha), List.prefix_iff_eq_take.mp (matches_iff.mp hb)]
  exact congrArg (List.take · relative) hdepth

theorem matches_of_components {relative : List String} {a b : MappingEntry}
    (ha : a.matches relative = true) (h : b.components = a.components) :
    b.matches relative = true := by
  rw [matches_iff, h]
  exact matches_iff.mp ha

/-- The most specific entry is the first in the file with its components. -/
theorem MostSpecific.find?_components {entries : List MappingEntry} {relative : List String}
    {entry : MappingEntry} (h : MostSpecific entries relative entry) :
    entries.find? (fun e => decide (e.components = entry.components)) = some entry := by
  rw [← FirstAmong.find?_rank byDepth_total h]
  apply find?_congr_mem
  intro other hother
  rw [Bool.eq_iff_iff, decide_eq_true_eq, Bool.and_eq_true]
  constructor
  · intro heq
    constructor
    · exact matches_of_components h.mem.2 heq
    · simp only [byDepth, MappingEntry.depth, heq, decide_eq_true_eq]
      exact Nat.le_refl _
  · rintro ⟨hmatches, hdeep⟩
    have hle := h.rank_le byDepth_total hother hmatches
    simp only [byDepth, decide_eq_true_eq] at hdeep hle
    exact components_eq_of_depth hmatches h.mem.2 (Nat.le_antisymm hle hdeep)

/-- If the entry that is written longest has the text of the most specific one, it is that one. -/
theorem firstAmong_of_text {entries : List MappingEntry} {relative : List String}
    {entry longest : MappingEntry} (hentry : MostSpecific entries relative entry)
    (hlongest : FirstAmong (byLength MappingEntry.pathPrefix) (MappingEntry.matches relative)
      entries longest)
    (htext : longest.pathPrefix = entry.pathPrefix) : entry = longest := by
  refine find?_eq_of_find? (hentry.find?_rank byDepth_total)
    (hlongest.find?_rank (byLength_total _)) ?_ ?_
  · simp only [hlongest.mem.2, byDepth, MappingEntry.depth, MappingEntry.components, htext,
      Bool.true_and, decide_eq_true_eq]
    exact Nat.le_refl _
  · simp only [hentry.mem.2, byLength, htext, Bool.true_and, decide_eq_true_eq]
    exact Nat.le_refl _

theorem Built.picksMostSpecific_iff {default : Option String} {entries : List MappingEntry}
    {root : WrittenPath} {r : PolicyResolver π} (h : Built compile default entries root r)
    (file : WrittenPath) :
    PicksMostSpecific compile default entries r file ↔
      WrittenLongest entries (relativeTo r.root file) := by
  constructor
  · intro hpicks entry hentry
    obtain ⟨htext, -⟩ := hpicks.specific entry hentry
    obtain ⟨longest, hlongest⟩ := exists_firstAmong (byLength_trans MappingEntry.pathPrefix)
      (byLength_total _) hentry.mem.1 hentry.mem.2
    rw [h.findMapping_of_firstAmong hlongest, Option.map_some, toMapping_pathPrefix,
      Option.some_inj] at htext
    rwa [firstAmong_of_text hentry hlongest htext]
  · intro hlongest
    refine ⟨fun entry hentry => ?_, fun hnone => ?_⟩
    · have hfind := h.findMapping_of_firstAmong (hlongest entry hentry)
      obtain ⟨action, haction, hasks⟩ := h.asks hentry.mem.1
      refine ⟨by rw [hfind, Option.map_some, toMapping_pathPrefix], action, ?_, hasks⟩
      unfold PolicyResolver.resolve
      rw [hfind]
      exact haction
    · exact h.default_asks (h.findMapping_eq_none_iff.mpr hnone)

/-! ## Order and spelling -/

theorem MappingEntry.Asks.unique {e e' : MappingEntry} {action action' : PolicyMatch π}
    (h : e.Asks compile action) (h' : e'.Asks compile action')
    (hsame : (e.policy, e.skip) = (e'.policy, e'.skip)) : action = action' := by
  obtain ⟨hpolicy, hskip⟩ := Prod.mk.inj hsame
  cases h with
  | skip hs =>
    cases h' with
    | skip _ => rfl
    | policy hs' _ _ => exact absurd (hskip ▸ hs) hs'
  | policy hs hp hc =>
    cases h' with
    | skip hs' => exact absurd (hskip ▸ hs') hs
    | policy _ hp' hc' =>
      obtain rfl := Option.some.inj (hp.symm.trans (hpolicy.trans hp'))
      obtain rfl := Except.ok.inj (hc.symm.trans hc')
      rfl

theorem DefaultAsks.unique {relative : List String} {default : Option String}
    {result result' : Except ResolveError (PolicyMatch π)}
    (h : DefaultAsks compile relative default result)
    (h' : DefaultAsks compile relative default result') : result = result' := by
  cases h with
  | skip =>
    cases h' with
    | skip => rfl
    | policy hs _ => exact absurd rfl hs
  | policy hs hc =>
    cases h' with
    | skip => exact absurd rfl hs
    | policy _ hc' =>
      obtain rfl := Except.ok.inj (hc.symm.trans hc')
      rfl
  | none =>
    cases h' with
    | none => rfl

/-- The first entry of one map with its components has a counterpart in the other. -/
theorem SameMap.counterpart {entries entries' : List MappingEntry} (hsame : SameMap entries entries')
    {entry : MappingEntry}
    (hentry : entries.find? (fun e => decide (e.components = entry.components)) = some entry) :
    ∃ other ∈ entries', other.components = entry.components ∧
      entries'.find? (fun e => decide (e.components = entry.components)) = some other ∧
      (entry.policy, entry.skip) = (other.policy, other.skip) := by
  have hhead := congrArg List.head? (hsame entry.components)
  rw [List.head?_map, List.head?_map, List.head?_filter, List.head?_filter, hentry,
    Option.map_some, eq_comm, Option.map_eq_some_iff] at hhead
  obtain ⟨other, hfind, hcontent⟩ := hhead
  have hcomponents := List.find?_some hfind
  exact ⟨other, List.mem_of_find?_eq_some hfind, of_decide_eq_true hcomponents, hfind,
    hcontent.symm⟩

theorem SameMap.symm {entries entries' : List MappingEntry} (h : SameMap entries entries') :
    SameMap entries' entries := fun path => (h path).symm

/-- The deepest matches of two spellings of a map are equally deep. -/
theorem SameMap.depth_le {entries entries' : List MappingEntry} (hsame : SameMap entries entries')
    {relative : List String} {entry entry' : MappingEntry}
    (h : MostSpecific entries relative entry) (h' : MostSpecific entries' relative entry') :
    entry.depth ≤ entry'.depth := by
  obtain ⟨other, hother, hcomponents, -, -⟩ := hsame.counterpart h.find?_components
  have hmatches := matches_of_components h.mem.2 hcomponents
  have hle := h'.rank_le byDepth_total hother hmatches
  simp only [byDepth, MappingEntry.depth, hcomponents, decide_eq_true_eq] at hle
  exact hle

/-- The most specific entries of two spellings of a map ask for the same. -/
theorem SameMap.content_eq {entries entries' : List MappingEntry} (hsame : SameMap entries entries')
    {relative : List String} {entry entry' : MappingEntry}
    (h : MostSpecific entries relative entry) (h' : MostSpecific entries' relative entry') :
    (entry.policy, entry.skip) = (entry'.policy, entry'.skip) := by
  have hdepth := Nat.le_antisymm (hsame.depth_le h h') (hsame.symm.depth_le h' h)
  have hcomponents := components_eq_of_depth h.mem.2 h'.mem.2 hdepth
  obtain ⟨other, -, -, hfind, hcontent⟩ := hsame.counterpart h.find?_components
  rw [hcomponents, h'.find?_components] at hfind
  obtain rfl := Option.some.inj hfind
  exact hcontent

/-- A file that one spelling of a map has a match for, the other has one for. -/
theorem SameMap.exists_mostSpecific {entries entries' : List MappingEntry}
    (hsame : SameMap entries entries') {relative : List String} {entry : MappingEntry}
    (h : MostSpecific entries relative entry) : ∃ entry', MostSpecific entries' relative entry' := by
  obtain ⟨other, hother, hcomponents, -, -⟩ := hsame.counterpart h.find?_components
  exact exists_firstAmong byDepth_trans byDepth_total hother
    (matches_of_components h.mem.2 hcomponents)

/-- Without a most specific entry nothing matches. -/
theorem unmatched_of_not_exists {entries : List MappingEntry} {relative : List String}
    (h : ¬∃ entry, MostSpecific entries relative entry) :
    ∀ entry ∈ entries, entry.matches relative = false := by
  intro entry hentry
  cases hmatches : entry.matches relative with
  | false => rfl
  | true => exact absurd (exists_firstAmong byDepth_trans byDepth_total hentry hmatches) h

/-- Two spellings of a map whose most specific entries are found resolve a file alike. -/
theorem SameMap.resolve_eq {entries entries' : List MappingEntry} (hsame : SameMap entries entries')
    {default : Option String} {r r' : PolicyResolver π} {file : WrittenPath}
    (hroot : r'.root = r.root) (h : PicksMostSpecific compile default entries r file)
    (h' : PicksMostSpecific compile default entries' r' file) : r'.resolve file = r.resolve file := by
  obtain ⟨hspecific', hunmatched'⟩ := h'
  rw [hroot] at hspecific' hunmatched'
  by_cases hmatch : ∃ entry, MostSpecific entries (relativeTo r.root file) entry
  · obtain ⟨entry, hentry⟩ := hmatch
    obtain ⟨entry', hentry'⟩ := hsame.exists_mostSpecific hentry
    obtain ⟨-, action, haction, hasks⟩ := h.specific entry hentry
    obtain ⟨-, action', haction', hasks'⟩ := hspecific' entry' hentry'
    rw [haction, haction', hasks.unique hasks' (hsame.content_eq hentry hentry')]
  · have hmatch' : ¬∃ entry, MostSpecific entries' (relativeTo r.root file) entry :=
      fun ⟨_, hentry'⟩ => hmatch (hsame.symm.exists_mostSpecific hentry')
    have hdefault := h.unmatched (unmatched_of_not_exists hmatch)
    exact (hunmatched' (unmatched_of_not_exists hmatch')).unique hdefault

end

/-! ## The most specific rule -/

/-- The most specific rule is picked exactly if no other rule that matches is written longer, or
as long and earlier; for maps of which this holds neither the order of different prefixes nor
their spelling matters. -/
theorem resolve_mostSpecific_iff {π : Type} (compile : String → Except String π)
    (default : Option String) (entries : List MappingEntry) (root file : WrittenPath)
    (r : PolicyResolver π) (h : build compile default entries root = .ok r) :
    (PicksMostSpecific compile default entries r file ↔
      WrittenLongest entries (relativeTo root file)) ∧
    ∀ entries' r', build compile default entries' root = .ok r' → SameMap entries entries' →
      WrittenLongest entries (relativeTo root file) →
      WrittenLongest entries' (relativeTo root file) → r'.resolve file = r.resolve file := by
  have hbuilt := build_eq_ok h
  have hroot := hbuilt.root_eq
  subst hroot
  refine ⟨hbuilt.picksMostSpecific_iff file, fun entries' r' h' hsame hlongest hlongest' => ?_⟩
  have hbuilt' := build_eq_ok h'
  refine hsame.resolve_eq hbuilt'.root_eq ((hbuilt.picksMostSpecific_iff file).mpr hlongest) ?_
  rw [hbuilt'.picksMostSpecific_iff file, hbuilt'.root_eq]
  exact hlongest'

/-- A map with a rule inside another. -/
def nestedRules : List MappingEntry :=
  [⟨"movies", some "a.voom", none⟩, ⟨"movies/4k", some "b.voom", none⟩]

theorem resolve_nestedRules :
    ∃ r, build (fun path => .ok path) none nestedRules (.parse "/media") = .ok r ∧
      (PicksMostSpecific (fun path => .ok path) none nestedRules r
          (.parse "/media/movies/4k/x.mkv") ↔
        WrittenLongest nestedRules
          (relativeTo (.parse "/media") (.parse "/media/movies/4k/x.mkv"))) :=
  ⟨_, rfl, (resolve_mostSpecific_iff _ _ _ _ _ _ rfl).1⟩

/-- The same with slashes behind the outer directory. -/
def slashedRules : List MappingEntry :=
  [⟨"movies////////", some "a.voom", none⟩, ⟨"movies/4k", some "b.voom", none⟩]

theorem resolve_slashedRules :
    ¬∀ r, build (fun path => .ok path) none slashedRules (.parse "/media") = .ok r →
      PicksMostSpecific (fun path => .ok path) none slashedRules r
        (.parse "/media/movies/4k/x.mkv") := by
  intro h
  have hlongest := ((build_eq_ok rfl).picksMostSpecific_iff _).mp (h _ rfl)
  have hinner := hlongest ⟨"movies/4k", some "b.voom", none⟩
    ⟨[⟨"movies////////", some "a.voom", none⟩], [], rfl, by decide, by decide, nofun⟩
  have houter : FirstAmong (byLength MappingEntry.pathPrefix)
      (MappingEntry.matches (relativeTo (.parse "/media") (.parse "/media/movies/4k/x.mkv")))
      slashedRules ⟨"movies////////", some "a.voom", none⟩ :=
    ⟨[], _, rfl, by decide, nofun, by decide⟩
  have heq := houter.unique (byLength_trans _) (byLength_total _) hinner
  exact absurd heq (by decide)

end Voom.Cli.PolicyMap
