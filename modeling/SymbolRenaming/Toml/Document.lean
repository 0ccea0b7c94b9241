/-
SymbolRenaming/Toml/Document.lean

TOML documents: the table that a text describes.

Design.  The statements of a text are applied one after the other.  The state
holds the path of the last header and the table made so far; a key with a value
goes into the table that the path leads to.
-/
import SymbolRenaming.Toml.Statement

namespace SymbolRenaming.Toml

/-- A document after some of its statements. -/
structure Draft where
  path : List String := []
  root : Entries := []

/-- Opens something at the end of a header path. -/
def Draft.openAt (d : Draft) (path : List String) (make : String → Entries → Option Entries) :
    Option Draft := do
  let key ← path.getLast?
  let root ← changeAt (make key) d.root path.dropLast
  some ⟨path, root⟩

/-- The document after one more statement. -/
def Draft.step (d : Draft) : Statement → Option Draft
  | .entry key v =>
    (changeAt (fun entries => insertAt v true entries key) d.root d.path).map fun root =>
      { d with root }
  | .header path => d.openAt path openTable
  | .arrayHeader path => d.openAt path openNext

/-- The table that statements describe. -/
def ofStatements? (statements : List Statement) : Option (List (String × Value)) :=
  (statements.foldlM Draft.step {}).map fun d => finish d.root

/-- The table that a text describes. -/
def document? (text : String) : Option (List (String × Value)) :=
  (statements? text.toList).bind ofStatements?

end SymbolRenaming.Toml
