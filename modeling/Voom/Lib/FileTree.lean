-- SUMMARY: File trees with symbolic links, and how a written path is resolved in one.
import Mathlib.Data.List.Basic
import Mathlib.Data.List.Induction
import Mathlib.Logic.Function.Basic
import Mathlib.Tactic.Common

/-!
# File trees

A place is a list of names from the root. A written path is resolved name by name, from the root
or from a working directory; a symbolic link puts the names of its target in front of the ones
that are left, and only so many links are followed. A resolution that is to create a file may end
at a name that is not there yet.
-/

namespace Voom.Lib

/-! ## Written paths -/

/-- A path as it is written: the texts between its slashes. -/
structure WrittenPath where
  absolute : Bool
  names : List String
  deriving DecidableEq, Repr

namespace WrittenPath

def parse (text : String) : WrittenPath where
  absolute := text.toList.head? = some '/'
  names := if text = "" then [] else (text.toList.splitOn '/').map String.ofList

/-- Names that leave a resolution where it is. -/
def stays (name : String) : Bool := name = "" || name = "."

/-- The names that count; a dot at the start of a relative path is one of them. -/
def components (path : WrittenPath) : List String :=
  match path.absolute, path.names with
  | false, "." :: rest => "." :: rest.filter (!stays ·)
  | _, names => names.filter (!stays ·)

/-- Names that stand for an entry of a directory. -/
def IsEntry (name : String) : Prop := stays name = false ∧ name ≠ ".."

instance (name : String) : Decidable (IsEntry name) := inferInstanceAs (Decidable (_ ∧ _))

/-- The path without its last component. -/
def parent (path : WrittenPath) : Option WrittenPath :=
  if path.components = [] then none else some ⟨path.absolute, path.components.dropLast⟩

def fileName (path : WrittenPath) : Option String :=
  match path.components.getLast? with
  | some name => if IsEntry name then some name else none
  | none => none

theorem parent_fileName {path dir : WrittenPath} {name : String} (hparent : path.parent = some dir)
    (hname : path.fileName = some name) :
    IsEntry name ∧ dir.absolute = path.absolute ∧ path.components = dir.names ++ [name] := by
  unfold parent at hparent
  split at hparent
  · cases hparent
  · obtain rfl := Option.some.inj hparent
    unfold fileName at hname
    split at hname
    · rename_i last hlast
      split at hname
      · obtain rfl := Option.some.inj hname
        exact ⟨by assumption, rfl, (List.dropLast_append_getLast? _ hlast).symm⟩
      · cases hname
    · cases hname

/-- The components are the names, from some point on without those that stay. -/
theorem components_eq (path : WrittenPath) : ∃ front back, path.names = front ++ back ∧
    path.components = front ++ back.filter (!stays ·) := by
  unfold components
  split
  · rename_i rest _ hnames
    exact ⟨["."], rest, hnames, rfl⟩
  · exact ⟨[], path.names, rfl, rfl⟩

end WrittenPath

open WrittenPath

/-! ## Trees -/

structure Stat where
  len : Nat
  readonly : Bool := false
  /-- In seconds, where the system keeps it. -/
  modified : Option Nat := none
  deriving DecidableEq, Repr, Inhabited

inductive Node where
  | file (content : List UInt8) (stat : Stat)
  | dir (stat : Stat)
  | symlink (target : WrittenPath)
  deriving DecidableEq, Repr

namespace Node

def isDir : Node → Bool
  | dir _ => true
  | file _ _ | symlink _ => false

def isSymlink : Node → Bool
  | symlink _ => true
  | file _ _ | dir _ => false

end Node

/-- What is at each place, and the names in each directory. Whatever exists lies in a directory. -/
structure FileTree where
  node : List String → Option Node
  names : List String → List String
  root : (node []).any Node.isDir = true
  closed : ∀ place name, (node (place ++ [name])).isSome → (node place).any Node.isDir = true
  listed : ∀ place name, name ∈ names place ↔ (node (place ++ [name])).isSome

inductive WalkError where
  | notFound | notADirectory | isADirectory | tooManyLinks
  deriving DecidableEq, Repr

def WalkError.display : WalkError → String
  | notFound => "No such file or directory (os error 2)"
  | notADirectory => "Not a directory (os error 20)"
  | isADirectory => "Is a directory (os error 21)"
  | tooManyLinks => "Too many levels of symbolic links (os error 40)"

namespace FileTree

/-- What a list of entries has at a place; the root is not in it. -/
def entryAt (entries : List (List String × Node)) (place : List String) : Option Node :=
  if place = [] then some (.dir { len := 0 }) else entries.lookup place

theorem entryAt_concat {entries : List (List String × Node)} {dir : List String} {name : String} :
    (entryAt entries (dir ++ [name])).isSome ↔ ∃ e ∈ entries, e.1 = dir ++ [name] := by
  rw [entryAt, if_neg (by simp), List.lookup_isSome_iff]
  simp only [beq_iff_eq, eq_comm (a := dir ++ [name])]

/-- The tree of a list of entries, each in a directory that is also in the list. -/
def ofEntries (entries : List (List String × Node))
    (h : ∀ e ∈ entries, (entryAt entries e.1.dropLast).any Node.isDir = true) : FileTree where
  node := entryAt entries
  names dir := entries.filterMap fun e =>
    if e.1.dropLast = dir then e.1.getLast? else none
  root := rfl
  closed dir name hsome := by
    obtain ⟨e, he, hplace⟩ := entryAt_concat.mp hsome
    have hdir := h e he
    rwa [hplace, List.dropLast_concat] at hdir
  listed dir name := by
    rw [entryAt_concat, List.mem_filterMap]
    constructor
    · rintro ⟨e, he, hname⟩
      split at hname
      · rename_i hdir
        refine ⟨e, he, ?_⟩
        rw [← hdir, List.dropLast_append_getLast? name hname]
      · cases hname
    · rintro ⟨e, he, hplace⟩
      refine ⟨e, he, ?_⟩
      rw [hplace, List.dropLast_concat, if_pos rfl, List.getLast?_concat]

section

variable (tree : FileTree)

def isDir (place : List String) : Bool := (tree.node place).any Node.isDir

/-- Where a path starts from. -/
def start (path : WrittenPath) (place : List String) : List String :=
  if path.absolute then [] else place

/-- Goes along names until a symbolic link, from where `follow` goes on. -/
def walkWith (create : Bool) (follow : List String → List String → Except WalkError (List String)) :
    List String → List String → Except WalkError (List String)
  | place, [] => .ok place
  | place, name :: rest =>
    if tree.isDir place then
      if stays name then walkWith create follow place rest
      else if name = ".." then walkWith create follow place.dropLast rest
      else
        match tree.node (place ++ [name]) with
        | none =>
          if create && rest.isEmpty then .ok (place ++ [name]) else .error .notFound
        | some (.symlink target) => follow (start target place) (target.names ++ rest)
        | some (.file _ _) | some (.dir _) => walkWith create follow (place ++ [name]) rest
    else .error .notADirectory

/-- Goes along names through at most so many symbolic links. -/
def walk (create : Bool) : Nat → List String → List String → Except WalkError (List String)
  | 0 => tree.walkWith create fun _ _ => .error .tooManyLinks
  | links + 1 => tree.walkWith create (walk create links)

def resolve (create : Bool) (links : Nat) (cwd : List String) (path : WrittenPath) :
    Except WalkError (List String) :=
  if path.absolute = false ∧ path.names = [] then .error .notFound
  else tree.walk create links (start path cwd) path.names

/-- The place a path stands for, free of links and dots. -/
def canonicalize (links : Nat) (cwd : List String) (path : WrittenPath) :
    Except WalkError (List String) :=
  tree.resolve false links cwd path

/-- The tree with a file at a place. -/
def put (place : List String) (content : List UInt8) (stat : Stat) (hplace : place ≠ [])
    (hparent : tree.isDir place.dropLast = true) (hfree : tree.isDir place = false) : FileTree where
  node := Function.update tree.node place (some (.file content stat))
  names dir :=
    if dir = place.dropLast ∧ place.getLast hplace ∉ tree.names dir then
      tree.names dir ++ [place.getLast hplace]
    else tree.names dir
  root := by
    rw [Function.update_of_ne (Ne.symm hplace)]
    exact tree.root
  closed dir name h := by
    have hdir : tree.isDir dir = true := by
      by_cases heq : dir ++ [name] = place
      · rwa [← heq, List.dropLast_concat] at hparent
      · rw [Function.update_of_ne heq] at h
        exact tree.closed dir name h
    have hne : dir ≠ place := by
      rintro rfl
      rw [hfree] at hdir
      cases hdir
    rw [Function.update_of_ne hne]
    exact hdir
  listed dir name := by
    have hcat := List.dropLast_append_getLast hplace
    by_cases heq : dir ++ [name] = place
    · obtain ⟨rfl, rfl⟩ : dir = place.dropLast ∧ name = place.getLast hplace := by
        rw [← hcat] at heq
        simpa using heq
      rw [heq, Function.update_self]
      split <;> simp_all
    · rw [Function.update_of_ne heq, ← tree.listed dir name]
      split
      · rename_i hdir
        have hname : name ≠ place.getLast hplace := by
          rintro rfl
          exact heq (hdir.1 ▸ hcat)
        simp [hname]
      · rfl

/-- Opens a file to write it whole: what is there is replaced, what is not there created. -/
def write (links : Nat) (cwd : List String) (path : WrittenPath) (content : List UInt8)
    (now : Option Nat) : Except WalkError (FileTree × List String) := do
  let place ← tree.resolve true links cwd path
  if h : place ≠ [] ∧ tree.isDir place.dropLast = true ∧ tree.isDir place = false then
    return (tree.put place content ⟨content.length, false, now⟩ h.1 h.2.1 h.2.2, place)
  else throw .isADirectory

/-- What the metadata at a path say, and where they stand. -/
def metadata (links : Nat) (cwd : List String) (path : WrittenPath) :
    Except WalkError (Node × Stat × List String) := do
  let place ← tree.resolve false links cwd path
  match tree.node place with
  | some (.file content stat) => return (.file content stat, stat, place)
  | some (.dir stat) => return (.dir stat, stat, place)
  | some (.symlink _) | none => throw .notFound

/-- The names in a directory, and where it is. -/
def readDir (links : Nat) (cwd : List String) (path : WrittenPath) :
    Except WalkError (List String × List String) := do
  let place ← tree.resolve false links cwd path
  if tree.isDir place then return (tree.names place, place) else throw .notADirectory

end

/-! ## Walks -/

section

variable {tree : FileTree} {create : Bool} {links links' : Nat}
variable {place place' result names rest front back : List String}

variable (tree create) in
/-- A walk from a place along names to a result, through at most so many links. -/
inductive Walks : Nat → List String → List String → List String → Prop where
  | done {links : Nat} {place : List String} : Walks links place [] place
  | stay {links : Nat} {place rest result : List String} {name : String}
      (hdir : tree.isDir place = true) (hname : stays name = true)
      (h : Walks links place rest result) : Walks links place (name :: rest) result
  | up {links : Nat} {place rest result : List String} (hdir : tree.isDir place = true)
      (h : Walks links place.dropLast rest result) : Walks links place (".." :: rest) result
  | enter {links : Nat} {place rest result : List String} {name : String} {node : Node}
      (hdir : tree.isDir place = true) (hname : IsEntry name)
      (hnode : tree.node (place ++ [name]) = some node) (hlink : node.isSymlink = false)
      (h : Walks links (place ++ [name]) rest result) : Walks links place (name :: rest) result
  | follow {links : Nat} {place rest result : List String} {name : String} {target : WrittenPath}
      (hdir : tree.isDir place = true) (hname : IsEntry name)
      (hnode : tree.node (place ++ [name]) = some (.symlink target))
      (h : Walks links (start target place) (target.names ++ rest) result) :
      Walks (links + 1) place (name :: rest) result
  | create {links : Nat} {place : List String} {name : String} (hcreate : create = true)
      (hdir : tree.isDir place = true) (hname : IsEntry name)
      (hnode : tree.node (place ++ [name]) = none) : Walks links place [name] (place ++ [name])

/-- What a walk of `walkWith` is, if `follow` goes on in walks. -/
theorem walks_of_walkWith {follow : List String → List String → Except WalkError (List String)}
    (hfollow : ∀ target place rest name, tree.isDir place = true → IsEntry name →
      tree.node (place ++ [name]) = some (.symlink target) → ∀ result,
      follow (start target place) (target.names ++ rest) = .ok result →
      Walks tree create links place (name :: rest) result)
    (h : tree.walkWith create follow place names = .ok result) :
    Walks tree create links place names result := by
  induction names generalizing place with
  | nil =>
    obtain rfl := Except.ok.inj h
    exact .done
  | cons name rest ih =>
    rw [walkWith] at h
    split at h
    case isFalse => cases h
    case isTrue hdir =>
      split at h
      case isTrue hstays => exact .stay hdir hstays (ih h)
      case isFalse hstays =>
        split at h
        case isTrue hup =>
          subst hup
          exact .up hdir (ih h)
        case isFalse hup =>
          have hname : IsEntry name := ⟨by simpa using hstays, hup⟩
          split at h
          case h_1 hnode =>
            split at h
            · rename_i hlast
              obtain ⟨hcreate, hrest⟩ := Bool.and_eq_true_iff.mp hlast
              obtain rfl := List.isEmpty_iff.mp hrest
              obtain rfl := Except.ok.inj h
              exact .create hcreate hdir hname hnode
            · cases h
          case h_2 target hnode => exact hfollow target place rest name hdir hname hnode result h
          case h_3 hnode => exact .enter hdir hname hnode rfl (ih h)
          case h_4 hnode => exact .enter hdir hname hnode rfl (ih h)

theorem walks_of_walk (h : tree.walk create links place names = .ok result) :
    Walks tree create links place names result := by
  induction links generalizing place names result with
  | zero => exact walks_of_walkWith (fun _ _ _ _ _ _ _ _ h => by cases h) h
  | succ links ih =>
    apply walks_of_walkWith _ h
    intro target place rest name hdir hname hnode result h
    exact .follow hdir hname hnode (ih h)

/-- One more name of a walk, whatever is done at links. -/
theorem walk_cons (name : String) : tree.walk create links place (name :: rest) =
    if tree.isDir place then
      if stays name then tree.walk create links place rest
      else if name = ".." then tree.walk create links place.dropLast rest
      else
        match tree.node (place ++ [name]) with
        | none =>
          if create && rest.isEmpty then .ok (place ++ [name]) else .error .notFound
        | some (.symlink target) =>
          match links with
          | 0 => .error .tooManyLinks
          | links + 1 => tree.walk create links (start target place) (target.names ++ rest)
        | some (.file _ _) | some (.dir _) => tree.walk create links (place ++ [name]) rest
    else .error .notADirectory := by
  cases links <;> rfl

theorem walk_nil : tree.walk create links place [] = .ok place := by
  cases links <;> rfl

theorem walk_of_walks (h : Walks tree create links place names result) :
    tree.walk create links place names = .ok result := by
  induction h with
  | done => exact walk_nil
  | stay hdir hname _ ih => rw [walk_cons, if_pos hdir, if_pos hname, ih]
  | up hdir _ ih =>
    rw [walk_cons, if_pos hdir, if_neg (by decide), if_pos rfl, ih]
  | @enter links place rest result name node hdir hname hnode hlink _ ih =>
    rw [walk_cons, if_pos hdir, if_neg (by simp [hname.1]), if_neg hname.2, hnode]
    cases node with
    | file content stat => exact ih
    | dir stat => exact ih
    | symlink target => cases hlink
  | follow hdir hname hnode _ ih =>
    rw [walk_cons, if_pos hdir, if_neg (by simp [hname.1]), if_neg hname.2, hnode]
    exact ih
  | create hcreate hdir hname hnode =>
    rw [walk_cons, if_pos hdir, if_neg (by simp [hname.1]), if_neg hname.2, hnode, hcreate]
    rfl

/-- Some names that stay may be left out. -/
theorem Walks.trim (h : Walks tree create links place names result) :
    ∀ front back, names = front ++ back →
      Walks tree create links place (front ++ back.filter (!stays ·)) result := by
  induction h with
  | done =>
    intro front back hnames
    obtain ⟨rfl, rfl⟩ := List.append_eq_nil_iff.mp hnames.symm
    exact .done
  | @stay links place rest result name hdir hname _ ih =>
    intro front back hnames
    cases front with
    | nil =>
      obtain rfl := hnames
      rw [List.nil_append, List.filter_cons_of_neg (by simp [hname])]
      exact ih [] rest rfl
    | cons first front =>
      obtain ⟨rfl, rfl⟩ := List.cons.inj hnames
      exact .stay hdir hname (ih front back rfl)
  | @up links place rest result hdir _ ih =>
    intro front back hnames
    cases front with
    | nil =>
      obtain rfl := hnames
      rw [List.nil_append, List.filter_cons_of_pos (by decide)]
      exact .up hdir (ih [] rest rfl)
    | cons first front =>
      obtain ⟨rfl, rfl⟩ := List.cons.inj hnames
      exact .up hdir (ih front back rfl)
  | @enter links place rest result name node hdir hname hnode hlink _ ih =>
    intro front back hnames
    cases front with
    | nil =>
      obtain rfl := hnames
      rw [List.nil_append, List.filter_cons_of_pos (by simp [hname.1])]
      exact .enter hdir hname hnode hlink (ih [] rest rfl)
    | cons first front =>
      obtain ⟨rfl, rfl⟩ := List.cons.inj hnames
      exact .enter hdir hname hnode hlink (ih front back rfl)
  | @follow links place rest result name target hdir hname hnode _ ih =>
    intro front back hnames
    cases front with
    | nil =>
      obtain rfl := hnames
      rw [List.nil_append, List.filter_cons_of_pos (by simp [hname.1])]
      exact .follow hdir hname hnode (ih target.names rest rfl)
    | cons first front =>
      obtain ⟨rfl, rfl⟩ := List.cons.inj hnames
      rw [List.cons_append]
      apply Walks.follow hdir hname hnode
      rw [← List.append_assoc]
      exact ih (target.names ++ front) back (List.append_assoc _ _ _).symm
  | @create links place name hcreate hdir hname hnode =>
    intro front back hnames
    have hkept : front ++ back.filter (!stays ·) = [name] := by
      cases front with
      | nil =>
        obtain rfl := hnames
        simp [hname.1]
      | cons first front =>
        obtain ⟨rfl, hback⟩ := List.cons.inj hnames
        obtain ⟨rfl, rfl⟩ := List.append_eq_nil_iff.mp hback.symm
        rfl
    rw [hkept]
    exact .create hcreate hdir hname hnode

/-- A walk along two lists of names comes by a place between them. -/
theorem Walks.append (h : Walks tree create links place names result) :
    ∀ front back, names = front ++ back → back ≠ [] → ∃ middle links',
      Walks tree false links place front middle ∧
        Walks tree create links' middle back result := by
  induction h with
  | done =>
    intro front back hnames hback
    exact absurd (List.append_eq_nil_iff.mp hnames.symm).2 hback
  | @stay links place rest result name hdir hname h ih =>
    intro front back hnames hback
    cases front with
    | nil => exact ⟨place, links, .done, by
        obtain rfl := hnames
        exact .stay hdir hname h⟩
    | cons first front =>
      obtain ⟨rfl, rfl⟩ := List.cons.inj hnames
      obtain ⟨middle, links', hfront, hrest⟩ := ih front back rfl hback
      exact ⟨middle, links', .stay hdir hname hfront, hrest⟩
  | @up links place rest result hdir h ih =>
    intro front back hnames hback
    cases front with
    | nil => exact ⟨place, links, .done, by
        obtain rfl := hnames
        exact .up hdir h⟩
    | cons first front =>
      obtain ⟨rfl, rfl⟩ := List.cons.inj hnames
      obtain ⟨middle, links', hfront, hrest⟩ := ih front back rfl hback
      exact ⟨middle, links', .up hdir hfront, hrest⟩
  | @enter links place rest result name node hdir hname hnode hlink h ih =>
    intro front back hnames hback
    cases front with
    | nil => exact ⟨place, links, .done, by
        obtain rfl := hnames
        exact .enter hdir hname hnode hlink h⟩
    | cons first front =>
      obtain ⟨rfl, rfl⟩ := List.cons.inj hnames
      obtain ⟨middle, links', hfront, hrest⟩ := ih front back rfl hback
      exact ⟨middle, links', .enter hdir hname hnode hlink hfront, hrest⟩
  | @follow links place rest result name target hdir hname hnode h ih =>
    intro front back hnames hback
    cases front with
    | nil => exact ⟨place, links + 1, .done, by
        obtain rfl := hnames
        exact .follow hdir hname hnode h⟩
    | cons first front =>
      obtain ⟨rfl, rfl⟩ := List.cons.inj hnames
      obtain ⟨middle, links', hfront, hrest⟩ :=
        ih (target.names ++ front) back (List.append_assoc _ _ _).symm hback
      exact ⟨middle, links', .follow hdir hname hnode hfront, hrest⟩
  | @create links place name hcreate hdir hname hnode =>
    intro front back hnames hback
    cases front with
    | nil => exact ⟨place, links, .done, by
        obtain rfl := hnames
        exact .create hcreate hdir hname hnode⟩
    | cons first front =>
      obtain ⟨-, hrest⟩ := List.cons.inj hnames
      exact absurd (List.append_eq_nil_iff.mp hrest.symm).2 hback

/-- The last step, where it is not through a link. -/
theorem Walks.last {name : String} (h : Walks tree create links place [name] result)
    (hname : IsEntry name)
    (hlink : ∀ target, tree.node (place ++ [name]) ≠ some (.symlink target)) :
    result = place ++ [name] := by
  cases h with
  | stay _ hstays _ => rw [hname.1] at hstays; cases hstays
  | up _ _ => exact absurd rfl hname.2
  | enter _ _ _ _ h => cases h; rfl
  | follow _ _ hnode _ => exact absurd hnode (hlink _)
  | create _ _ _ _ => rfl

/-! ## Canonical places -/

variable (tree) in
/-- A place free of links and dots where there is something. -/
structure IsCanonical (place : List String) : Prop where
  entries : ∀ name ∈ place, IsEntry name
  exists_node : ∃ node, tree.node place = some node ∧ node.isSymlink = false

theorem isDir_iff : tree.isDir place = true ↔ ∃ stat, tree.node place = some (.dir stat) := by
  unfold isDir
  cases tree.node place with
  | none => simp
  | some node => cases node <;> simp [Node.isDir]

theorem exists_node_of_isDir (h : tree.isDir place = true) :
    ∃ node, tree.node place = some node ∧ node.isSymlink = false := by
  obtain ⟨stat, hnode⟩ := isDir_iff.mp h
  exact ⟨.dir stat, hnode, rfl⟩

theorem isDir_of_node {name : String} {node : Node} (h : tree.node (place ++ [name]) = some node) :
    tree.isDir place = true :=
  tree.closed place name (by rw [h]; rfl)

theorem isDir_dropLast (h : tree.isDir place = true) : tree.isDir place.dropLast = true := by
  rcases List.eq_nil_or_concat place with rfl | ⟨dir, name, rfl⟩
  · exact h
  · rw [List.concat_eq_append] at h ⊢
    obtain ⟨stat, hnode⟩ := isDir_iff.mp h
    rw [List.dropLast_concat]
    exact isDir_of_node hnode

theorem IsCanonical.of_append (h : tree.IsCanonical (front ++ back)) :
    tree.IsCanonical front := by
  induction back using List.reverseRecOn with
  | nil => rwa [List.append_nil] at h
  | append_singleton back name ih =>
    rw [← List.append_assoc] at h
    obtain ⟨node, hnode, -⟩ := h.exists_node
    exact ih ⟨fun name hname => h.entries name (List.mem_append_left _ hname),
      exists_node_of_isDir (isDir_of_node hnode)⟩

/-- The names of a canonical place lead to it, without a link. -/
theorem IsCanonical.walks (h : tree.IsCanonical (front ++ back)) :
    Walks tree create links front back (front ++ back) := by
  induction back generalizing front with
  | nil =>
    rw [List.append_nil]
    exact .done
  | cons name rest ih =>
    rw [List.append_cons] at h ⊢
    have hnext : tree.IsCanonical (front ++ [name]) := h.of_append
    obtain ⟨node, hnode, hlink⟩ := hnext.exists_node
    have hname : IsEntry name := hnext.entries name (List.mem_append_right _ (List.mem_singleton_self _))
    exact .enter (isDir_of_node hnode) hname hnode hlink (ih h)

theorem IsCanonical.canonicalize (h : tree.IsCanonical place) (cwd : List String) :
    tree.canonicalize links cwd ⟨true, place⟩ = .ok place := by
  unfold FileTree.canonicalize resolve
  rw [if_neg (by simp)]
  have hroot : tree.IsCanonical ([] ++ place) := h
  exact walk_of_walks hroot.walks

theorem start_entries {path : WrittenPath} (h : ∀ name ∈ place, IsEntry name) :
    ∀ name ∈ start path place, IsEntry name := by
  unfold start
  split
  · exact fun _ hname => absurd hname List.not_mem_nil
  · exact h

theorem Walks.entries (h : Walks tree create links place names result)
    (hplace : ∀ name ∈ place, IsEntry name) : ∀ name ∈ result, IsEntry name := by
  induction h with
  | done => exact hplace
  | stay _ _ _ ih => exact ih hplace
  | up _ _ ih => exact ih fun name hname => hplace name (List.dropLast_subset _ hname)
  | enter _ hname _ _ _ ih =>
    apply ih
    exact List.forall_mem_append.mpr ⟨hplace, List.forall_mem_singleton.mpr hname⟩
  | follow _ _ _ _ ih => exact ih (start_entries hplace)
  | create _ _ hname _ =>
    exact List.forall_mem_append.mpr ⟨hplace, List.forall_mem_singleton.mpr hname⟩

/-- A walk ends at something that is no link, or where it may create something. -/
theorem Walks.exists_node (h : Walks tree create links place names result)
    (hplace : ∃ node, tree.node place = some node ∧ node.isSymlink = false) :
    (∃ node, tree.node result = some node ∧ node.isSymlink = false) ∨
      create = true ∧ tree.node result = none := by
  induction h with
  | done => exact .inl hplace
  | stay _ _ _ ih => exact ih hplace
  | up hdir _ ih => exact ih (exists_node_of_isDir (isDir_dropLast hdir))
  | enter _ _ hnode hlink _ ih => exact ih ⟨_, hnode, hlink⟩
  | @follow _ place _ _ _ target hdir _ _ _ ih =>
    apply ih
    unfold start
    split
    · exact exists_node_of_isDir tree.root
    · exact exists_node_of_isDir hdir
  | create hcreate _ _ hnode => exact .inr ⟨hcreate, hnode⟩

theorem Walks.isDir {name : String} (h : Walks tree create links place (name :: rest) result) :
    tree.isDir place = true := by
  cases h <;> assumption

theorem resolve_ok {cwd : List String} {path : WrittenPath}
    (h : tree.resolve create links cwd path = .ok place) :
    Walks tree create links (start path cwd) path.names place ∧
      ∃ node, tree.node (start path cwd) = some node ∧ node.isSymlink = false := by
  unfold resolve at h
  split at h
  · cases h
  · rename_i hsome
    have hwalks := walks_of_walk h
    refine ⟨hwalks, ?_⟩
    cases habsolute : path.absolute with
    | true =>
      rw [start, habsolute]
      exact exists_node_of_isDir tree.root
    | false =>
      cases hnames : path.names with
      | nil => exact absurd ⟨habsolute, hnames⟩ hsome
      | cons name rest =>
        rw [hnames] at hwalks
        exact exists_node_of_isDir hwalks.isDir

/-- What `canonicalize` gives is canonical. -/
theorem isCanonical_of_canonicalize {cwd : List String} {path : WrittenPath}
    (hcwd : ∀ name ∈ cwd, IsEntry name) (h : tree.canonicalize links cwd path = .ok place) :
    tree.IsCanonical place := by
  obtain ⟨hwalks, hstart⟩ := resolve_ok h
  refine ⟨hwalks.entries (start_entries hcwd), ?_⟩
  rcases hwalks.exists_node hstart with hnode | ⟨hcreate, -⟩
  · exact hnode
  · cases hcreate

/-! ## Writing -/

section

variable {content : List UInt8} {stat : Stat} {hplace : place ≠ []}
variable {hparent : tree.isDir place.dropLast = true} {hfree : tree.isDir place = false}

theorem put_node_self : (tree.put place content stat hplace hparent hfree).node place =
    some (.file content stat) := Function.update_self ..

theorem put_node_of_ne (h : place' ≠ place) :
    (tree.put place content stat hplace hparent hfree).node place' = tree.node place' :=
  Function.update_of_ne h ..

/-- A new file makes no place a directory, and none stops being one. -/
theorem put_isDir :
    (tree.put place content stat hplace hparent hfree).isDir place' = tree.isDir place' := by
  by_cases h : place' = place
  · subst h
    rw [hfree, FileTree.isDir, put_node_self]
    rfl
  · rw [FileTree.isDir, put_node_of_ne h]
    rfl

/-- The walk that found where to write finds the new file. -/
theorem Walks.put (h : Walks tree create links place' names result)
    (hlink : ∀ target, tree.node place ≠ some (.symlink target)) (hresult : result = place) :
    Walks (tree.put place content stat hplace hparent hfree) false links place' names result := by
  induction h with
  | done => exact .done
  | stay hdir hname _ ih => exact .stay (put_isDir.trans hdir) hname (ih hresult)
  | up hdir _ ih => exact .up (put_isDir.trans hdir) (ih hresult)
  | @enter links dir rest result name node hdir hname hnode hnodeLink _ ih =>
    by_cases heq : dir ++ [name] = place
    · have hnew : (tree.put place content stat hplace hparent hfree).node (dir ++ [name]) =
          some (.file content stat) := by rw [heq, put_node_self]
      exact .enter (put_isDir.trans hdir) hname hnew rfl (ih hresult)
    · refine .enter (put_isDir.trans hdir) hname ?_ hnodeLink (ih hresult)
      rw [put_node_of_ne heq, hnode]
  | @follow links dir rest result name target hdir hname hnode _ ih =>
    refine .follow (put_isDir.trans hdir) hname ?_ (ih hresult)
    have hne : dir ++ [name] ≠ place := by
      rintro rfl
      exact hlink target hnode
    rw [put_node_of_ne hne, hnode]
  | @create links dir name _ hdir hname _ =>
    have hnew : (tree.put place content stat hplace hparent hfree).node (dir ++ [name]) =
        some (.file content stat) := by rw [hresult, put_node_self]
    exact .enter (put_isDir.trans hdir) hname hnew rfl .done

end

theorem write_ok {tree' : FileTree} {cwd : List String} {path : WrittenPath}
    {content : List UInt8} {now : Option Nat}
    (h : tree.write links cwd path content now = .ok (tree', place)) :
    tree.resolve true links cwd path = .ok place ∧
      ∃ hplace hparent hfree,
        tree' = tree.put place content ⟨content.length, false, now⟩ hplace hparent hfree := by
  unfold write at h
  cases hresolve : tree.resolve true links cwd path with
  | error e =>
    rw [hresolve] at h
    cases h
  | ok found =>
    rw [hresolve] at h
    change (if h : _ then _ else _) = Except.ok (tree', place) at h
    split at h
    · rename_i hfound
      obtain ⟨rfl, rfl⟩ := Prod.mk.inj (Except.ok.inj h)
      exact ⟨rfl, hfound.1, hfound.2.1, hfound.2.2, rfl⟩
    · cases h

/-- Where a file was written is a canonical place, and the one its path stands for from then on. -/
theorem write_canonicalize {tree' : FileTree} {cwd : List String} {path : WrittenPath}
    {content : List UInt8} {now : Option Nat} (hcwd : ∀ name ∈ cwd, IsEntry name)
    (h : tree.write links cwd path content now = .ok (tree', place)) :
    tree'.IsCanonical place ∧ tree'.canonicalize links cwd path = .ok place := by
  obtain ⟨hresolve, hplace, hparent, hfree, rfl⟩ := write_ok h
  obtain ⟨hwalks, hstart⟩ := resolve_ok hresolve
  have hlink : ∀ target, tree.node place ≠ some (.symlink target) := by
    intro target htarget
    rcases hwalks.exists_node hstart with ⟨node, hnode, hnodeLink⟩ | ⟨-, hnode⟩
    · rw [htarget] at hnode
      obtain rfl := Option.some.inj hnode
      cases hnodeLink
    · rw [htarget] at hnode
      cases hnode
  constructor
  · exact ⟨hwalks.entries (start_entries hcwd), _, put_node_self, rfl⟩
  · unfold resolve at hresolve
    unfold canonicalize resolve
    split at hresolve
    · cases hresolve
    · rename_i hsome
      rw [if_neg hsome]
      exact walk_of_walks (hwalks.put hlink rfl)

/-- A file is written under its name in the directory its path lies in, unless there is a link
of that name. -/
theorem write_place {tree' : FileTree} {cwd dir : List String} {path parent : WrittenPath}
    {name : String} {content : List UInt8} {now : Option Nat}
    (hparent : path.parent = some parent) (hname : path.fileName = some name)
    (hdir : tree.canonicalize links cwd parent = .ok dir)
    (h : tree.write links cwd path content now = .ok (tree', place))
    (hlink : ∀ target, tree.node (dir ++ [name]) ≠ some (.symlink target)) :
    place = dir ++ [name] := by
  obtain ⟨hentry, habsolute, hcomponents⟩ := parent_fileName hparent hname
  obtain ⟨hwalks, -⟩ := resolve_ok (write_ok h).1
  obtain ⟨hdirWalks, -⟩ := resolve_ok hdir
  obtain ⟨front, back, hnames, htrimmed⟩ := components_eq path
  have htrim := hwalks.trim front back hnames
  rw [← htrimmed, hcomponents] at htrim
  obtain ⟨middle, links', hmiddle, hlast⟩ := htrim.append parent.names [name] rfl nofun
  have hstart : start parent cwd = start path cwd := by rw [start, start, habsolute]
  rw [hstart] at hdirWalks
  -- the directory is the place where the two parts of the walk meet
  obtain rfl : dir = middle :=
    Except.ok.inj ((walk_of_walks hdirWalks).symm.trans (walk_of_walks hmiddle))
  exact hlast.last hentry hlink

end

end FileTree

end Voom.Lib
