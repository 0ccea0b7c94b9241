/-
SymbolRenaming/FilePath.lean

Paths as text: extension, parent and joining.

Design.  A path is a text whose components stand between slashes.  Empty
components and single dots say nothing, except a dot that begins a relative
path; two dots are a component without a name.  Nothing is normalised: parent
and join cut and add text and leave the rest as it is.

Main result: joining a relative path to the empty path gives the path back
(`join_empty`).
-/
import SymbolRenaming.Text.Split

namespace SymbolRenaming.FilePath

open Text

/-- Whether a component says nothing. -/
def isVoid (component : List Char) : Bool := component == [] || component == ['.']

/-- The components that say something. -/
def components (path : List Char) : List (List Char) :=
  (pieces (· == '/') path).filter (!isVoid ·)

/-- The last component, if it is a name. -/
def fileName? (path : List Char) : Option (List Char) :=
  (components path).getLast?.filter (· ≠ ['.', '.'])

/-- What follows the last dot of the file name; a dot that starts the name and
is its only dot starts no extension. -/
def extension? (path : String) : Option String := do
  let name ← fileName? path.toList
  let (before, after) ← splitAtLast '.' name
  if before.isEmpty then none else some (.ofList after)

/-- Whether the path starts at the root. -/
def isAbsolute (path : String) : Bool := path.toList.head? == some '/'

/-- How many characters stand before the first component: the root, or the dot
that begins a relative path. -/
def headLength : List Char → Nat
  | '/' :: _ => 1
  | ['.'] => 1
  | '.' :: '/' :: _ => 1
  | _ => 0

/-- The path without its last component, if it has one that can be taken off. -/
def parent? (path : String) : Option String :=
  let cs := path.toList
  let head := cs.take (headLength cs)
  let body := (pieces (· == '/') (cs.drop (headLength cs))).reverse.dropWhile isVoid
  match body with
  | _ :: rest =>
    some (.ofList (head ++ List.intercalate ['/'] (rest.dropWhile isVoid).reverse))
  | [] => if head = ['.'] then some "" else none

/-- A path below a base, with one slash between them where one is needed. -/
def join (base path : String) : String :=
  if base.isEmpty || base.toList.getLast? == some '/' then base ++ path
  else base ++ "/" ++ path

/-- A relative path taken to be below a base. -/
def below (base path : String) : String := if isAbsolute path then path else join base path

theorem join_empty (path : String) : join "" path = path := by
  simp [join]

end SymbolRenaming.FilePath
