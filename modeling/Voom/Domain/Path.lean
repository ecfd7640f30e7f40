-- SUMMARY: Absolute paths as component lists, with the `std::path` operations the program uses.
import Mathlib.Data.List.Infix

/-!
# Paths

A path is the list of its components below the filesystem root, so two paths
are equal exactly when `PathBuf` compares them equal, and `starts_with` is the
prefix order on components.
-/

namespace Voom

/-- An absolute, normalised path: its components, outermost first. -/
structure Path where
  components : List String
  deriving DecidableEq, Repr, Inhabited

namespace Path

/-- The final component, absent for the root. -/
def fileName (p : Path) : Option String :=
  p.components.getLast?

/-- The path without its final component, absent for the root. -/
def parent (p : Path) : Option Path :=
  match p.components with
  | [] => none
  | _ :: _ => some ⟨p.components.dropLast⟩

def join (p : Path) (name : String) : Path :=
  ⟨p.components ++ [name]⟩

/-- The text of the path, as error messages show it. -/
def display (p : Path) : String :=
  "/" ++ "/".intercalate p.components

/-- `Path::starts_with`: a prefix of whole components. -/
def startsWith (p root : Path) : Bool :=
  root.components.isPrefixOf p.components

/-- Split a file name at its last dot. A name whose only dot is the leading one
has no extension. -/
def splitExtension (name : String) : String × Option String :=
  let chars := name.toList
  let ext := (chars.reverse.takeWhile (· ≠ '.')).reverse
  let stem := chars.take (chars.length - ext.length - 1)
  if ext.length = chars.length ∨ stem = [] then (name, none)
  else (String.ofList stem, some (String.ofList ext))

def extension (p : Path) : Option String :=
  p.fileName.bind fun name => (splitExtension name).2

/-- Replace the extension of the final component; the root is left alone. -/
def withExtension (p : Path) (ext : String) : Path :=
  match p.fileName with
  | none => p
  | some name => ⟨p.components.dropLast ++ [(splitExtension name).1 ++ "." ++ ext]⟩

theorem splitExtension_length (name : String) :
    (splitExtension name).1.toList.length ≤ name.toList.length := by
  unfold splitExtension
  dsimp only
  split
  · exact le_rfl
  · simp only [String.toList_ofList, List.length_take]
    omega

theorem startsWith_iff {p root : Path} :
    p.startsWith root = true ↔ root.components <+: p.components := by
  simp [startsWith]

@[simp] theorem fileName_join (p : Path) (name : String) : (p.join name).fileName = some name := by
  simp [join, fileName]

@[simp] theorem parent_join (p : Path) (name : String) : (p.join name).parent = some p := by
  unfold join parent
  cases h : p.components ++ [name] with
  | nil => simp at h
  | cons c cs =>
    simp only [Option.some.injEq]
    rw [← h, List.dropLast_concat]

/-- A path with a file name is its parent joined with that name. -/
theorem eq_join_of_fileName {p : Path} {name : String} (h : p.fileName = some name) :
    p = (Path.mk p.components.dropLast).join name := by
  obtain ⟨cs⟩ := p
  simp only [fileName] at h
  simp only [join, Path.mk.injEq]
  exact (List.dropLast_append_getLast? name h).symm

end Path

/-- `is_under_any`: at or beneath one of the given roots. -/
def isUnderAny (path : Path) (roots : List Path) : Bool :=
  roots.any fun r => path.startsWith r

end Voom
