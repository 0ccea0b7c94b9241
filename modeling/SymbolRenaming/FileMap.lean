/-
SymbolRenaming/FileMap.lean

Files and directories, as a program in a working directory sees them.

Design.  A place is the list of names that lead to it from the root.  A path
starts at the root if it begins with a slash, and at the working directory if
not, so that two paths of either kind may lead to the same place.  The working
directory and what is above it are directories, and of the other places those
that the map lists.  A path is followed name by name, and every name but the
last has to be a directory.

Writing replaces the text of a file, or makes it if its directory is there; no
directory refuses it.

Main results: what is written is read back at its place, and no other file
changes (`file?_write`, `file?_write_of_ne`).
-/
import SymbolRenaming.FilePath
import SymbolRenaming.IoFailure
import SymbolRenaming.Table

namespace SymbolRenaming

open Text

/-- The names that lead to a file or a directory from the root. -/
abbrev Place := List String

/-- Files with their bytes, and the directories that hold them. -/
structure FileMap where
  /-- Where paths start that do not start at the root. -/
  workingDirectory : Place := []
  files : Table Place (List UInt8) := .empty
  directories : List Place := []

/-- Why a file cannot be read to its end. -/
inductive FileFailure where
  /-- The file cannot be opened. -/
  | atOpening (cause : IoFailure)
  /-- The file is open and cannot be read. -/
  | atReading (cause : IoFailure)
  deriving DecidableEq, Repr

/-- The failure without the moment at which it came. -/
def FileFailure.cause : FileFailure → IoFailure
  | atOpening cause => cause
  | atReading cause => cause

/-- The directory above a place; the root is above itself. -/
def Place.parent (p : Place) : Place := p.dropLast

namespace FileMap

/-! ### What is at a place -/

/-- Whether a directory is at a place. -/
def isDirectory (m : FileMap) (p : Place) : Bool :=
  p.isPrefixOf m.workingDirectory || m.directories.contains p

/-- The bytes of the file at a place. -/
def file? (m : FileMap) (p : Place) : Option (List UInt8) :=
  if m.isDirectory p then none else m.files.get? p

/-! ### Following a path -/

/-- How many bytes a name may have. -/
def maxNameSize : Nat := 255

/-- How many bytes a path may have. -/
def maxPathSize : Nat := 4095

/-- The place that a name leads to from a directory; double dots lead up, and a
single dot leads nowhere else. -/
def enter (p : Place) (name : String) : Place :=
  if name = "." then p else if name = ".." then p.parent else p ++ [name]

/-- Follows names that all have to be directories. -/
def walk (m : FileMap) (p : Place) : List String → Except IoFailure Place
  | [] => .ok p
  | name :: names =>
    let next := enter p name
    if maxNameSize < name.utf8ByteSize then .error .nameTooLong
    else if m.isDirectory next then walk m next names
    else if (m.files.get? next).isSome then .error .notADirectory
    else .error .notFound

/-- A path taken apart. -/
structure Route where
  /-- Whether it starts at the root. -/
  fromRoot : Bool
  /-- The names before the last one. -/
  way : List String
  last : String
  /-- Whether a slash follows the last name. -/
  slash : Bool

/-- Takes a path apart. -/
def route? (path : String) : Except IoFailure Route :=
  let cs := path.toList
  let fromRoot := FilePath.isAbsolute path
  if cs.contains (Char.ofNat 0) then .error .nulInPath
  else if maxPathSize < path.utf8ByteSize then .error .nameTooLong
  else
    match ((pieces (· == '/') cs).filter (!·.isEmpty)).reverse with
    -- slashes alone lead to the root, and the empty path leads nowhere
    | [] => if fromRoot then .ok ⟨true, [], ".", true⟩ else .error .notFound
    | last :: way =>
      .ok ⟨fromRoot, way.reverse.map .ofList, .ofList last, cs.getLast? == some '/'⟩

/-- The directory at which a route starts. -/
def start (m : FileMap) (r : Route) : Place := if r.fromRoot then [] else m.workingDirectory

/-- What stands at the end of a path. -/
inductive Target where
  | directory
  | file (place : Place) (bytes : List UInt8)
  /-- Nothing yet; a file can be made here. -/
  | vacant (place : Place)

/-- What the last name of a route stands for in a directory. -/
def targetAt (m : FileMap) (directory : Place) (r : Route) : Except IoFailure Target :=
  let place := enter directory r.last
  if maxNameSize < r.last.utf8ByteSize then .error .nameTooLong
  else if m.isDirectory place then .ok .directory
  else
    match m.files.get? place with
    | some bytes => .ok (.file place bytes)
    | none => .ok (.vacant place)

/-! ### Reading and writing -/

/-- Reads the file at a path.  A directory can be opened and cannot be read. -/
def read (m : FileMap) (path : String) : Except FileFailure (List UInt8) :=
  let found := do
    let r ← route? path
    let directory ← m.walk (m.start r) r.way
    pure (r, ← m.targetAt directory r)
  match found with
  | .error e => .error (.atOpening e)
  | .ok (_, .directory) => .error (.atReading .isADirectory)
  | .ok (_, .vacant _) => .error (.atOpening .notFound)
  | .ok (r, .file _ bytes) => if r.slash then .error (.atOpening .notADirectory) else .ok bytes

/-- Where the file at a path is, or would be made. -/
def creationPlace (m : FileMap) (path : String) : Except IoFailure Place := do
  let r ← route? path
  let directory ← m.walk (m.start r) r.way
  -- no file can be made under a name that asks for a directory
  if r.slash then .error .isADirectory
  else
    match ← m.targetAt directory r with
    | .directory => .error .isADirectory
    | .file place _ | .vacant place => .ok place

/-- The map with a file of these bytes at a place. -/
def write (m : FileMap) (place : Place) (bytes : List UInt8) : FileMap :=
  { m with files := m.files.insert place bytes }

/-! ### Building and comparing -/

/-- The working directory of a map that is built from paths. -/
def home : Place := ["home"]

/-- The places of the directories above a place, without the root. -/
def ancestors (p : Place) : List Place :=
  (List.range (p.length - 1)).map fun n => p.take (n + 1)

/-- The place that a path leads to if every name on it is a directory. -/
def placeOf (path : String) : Place := (FilePath.components path.toList).foldl
  (fun p name => enter p (.ofList name)) (if FilePath.isAbsolute path then [] else home)

/-- Directories and files by path, with the directories on the way to them. -/
def ofPaths (directories : List String) (files : List (String × List UInt8)) : FileMap :=
  let made := directories.map placeOf
  let filed := files.map fun e => (placeOf e.1, e.2)
  { workingDirectory := home
    files := .ofList filed
    directories :=
      made.flatMap (fun p => p :: ancestors p) ++ filed.flatMap fun e => ancestors e.1 }

/-- The files below the working directory that are new or have other bytes than
before, by their paths from it. -/
def changes (before after : FileMap) : List (String × List UInt8) :=
  let here := after.workingDirectory
  (after.files.entries.filter fun e =>
    here.isPrefixOf e.1 && before.files.get? e.1 != some e.2).map fun e =>
      ("/".intercalate (e.1.drop here.length), e.2)

/-! ### Small facts -/

@[simp] theorem isDirectory_write (m : FileMap) (place p : Place) (bytes : List UInt8) :
    (m.write place bytes).isDirectory p = m.isDirectory p := rfl

@[simp] theorem start_write (m : FileMap) (place : Place) (r : Route) (bytes : List UInt8) :
    (m.write place bytes).start r = m.start r := rfl

theorem file?_write {m : FileMap} {place : Place} {bytes : List UInt8}
    (h : m.isDirectory place = false) : (m.write place bytes).file? place = some bytes := by
  rw [file?, isDirectory_write, h]
  simp [write, Table.get?_insert]

theorem file?_write_of_ne (m : FileMap) {place p : Place} (bytes : List UInt8) (h : p ≠ place) :
    (m.write place bytes).file? p = m.file? p := by
  simp only [file?, isDirectory_write]
  simp [write, Table.get?_insert, h.symm]

end FileMap

end SymbolRenaming
