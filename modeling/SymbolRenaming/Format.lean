/-
SymbolRenaming/Format.lean

The two text formats for mappings, by name and by file extension.

Design.  The tagged format marks every record with its kind; the compact format
tells records apart by their number of columns.  A format has one short name,
which is also its file extension.

Main result: the name of a format is read back (`ofName?_name`).
-/
import SymbolRenaming.FilePath
import SymbolRenaming.Text.Blank

namespace SymbolRenaming

/-- A text format for mappings. -/
inductive Format where
  /-- Tagged records. -/
  | tagged
  /-- Untagged records, told apart by their number of columns. -/
  | compact
  deriving DecidableEq, Repr

namespace Format

instance : Inhabited Format := ⟨tagged⟩

/-- The short name, which is also the file extension. -/
def name : Format → String
  | tagged => "srg"
  | compact => "csrg"

/-- Reads a name as it stands in structured data. -/
def ofKeyword? (s : String) : Option Format :=
  if s = "srg" then some tagged
  else if s = "csrg" ∨ s = "compact-srg" then some compact
  else none

/-- Makes the capital letters of the first 128 code points small. -/
def lowerAscii (s : String) : String := .ofList (s.toList.map Char.toLower)

/-- Reads a name that a person typed: blanks around it and the case of its
letters do not matter. -/
def ofName? (s : String) : Option Format := ofKeyword? (lowerAscii (Text.trimmed s))

/-- What is said about a name that is none. -/
def unknownMessage (s : String) : String :=
  s!"unknown mappings format `{s}` (expected `srg` or `csrg`)"

/-- The format that the extension of a path names, in any case. -/
def ofExtension? (path : String) : Option Format := do
  let extension ← FilePath.extension? path
  [tagged, compact].find? fun f => f.name = lowerAscii extension

theorem ofName?_name (f : Format) : ofName? f.name = some f := by
  cases f <;> decide

end Format

end SymbolRenaming
