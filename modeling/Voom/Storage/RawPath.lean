-- SUMMARY: Paths as programs write them, and the components the standard library sees in them.
import Voom.Domain.OsPath
import Voom.Storage.Columns

/-!
# Paths as written

A path is written as bytes with separators in them. Doubled separators, one at
the end and `.` inside are no components, so several writings are one path,
and one path is below another when its components begin with the other's.
-/

namespace Voom.RawPath

/-! ## Components -/

/-- `std::path::Component`, without a drive. -/
inductive Component where
  | rootDir
  | curDir
  | parentDir
  | normal (name : List UInt8)
  deriving DecidableEq

def slash : UInt8 := 47

def dot : UInt8 := 46

/-- What stands between two separators. -/
def componentOf (part : List UInt8) : Option Component :=
  if part = [] ∨ part = [dot] then none
  else if part = [dot, dot] then some .parentDir
  else some (.normal part)

/-- `has_root` and `include_cur_dir`: only the first part tells them. -/
def lead : List (List UInt8) → List Component
  | [] :: _ :: _ => [.rootDir]
  | part :: _ => if part = [dot] then [.curDir] else []
  | [] => []

/-- The components of a path from its parts. -/
def assemble (parts : List (List UInt8)) : List Component :=
  lead parts ++ parts.filterMap componentOf

/-- `Path::components` -/
def components (path : OsString) : List Component :=
  assemble (path.data.toList.splitOn slash)

/-- `Path::starts_with` -/
def startsWith (path root : OsString) : Bool :=
  (components root).isPrefixOf (components path)

end Voom.RawPath
