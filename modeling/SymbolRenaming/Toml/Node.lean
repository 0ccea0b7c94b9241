/-
SymbolRenaming/Toml/Node.lean

Tables in the making: what a TOML document has said so far.

Design.  While a document is read, a table remembers who made it, because that
decides who may add to it: a header, a longer header that only passed through
it, or dotted keys.  An array of tables always has a last table, the one that
its headers speak of.  Reading never takes an entry away.
-/
import SymbolRenaming.Toml.Value

namespace SymbolRenaming.Toml

/-- Who made a table. -/
inductive Origin where
  /-- A header that names the table. -/
  | header
  /-- A header that names a table below it. -/
  | passage
  /-- A dotted key. -/
  | dots
  deriving DecidableEq, Repr

/-- What stands behind a key so far. -/
inductive Node where
  | value (v : Value)
  | table (origin : Origin) (entries : List (String × Node))
  /-- An array of tables, with its last table apart. -/
  | tables (earlier : List (List (String × Node))) (last : List (String × Node))

instance : Inhabited Node := ⟨.value default⟩

/-- The entries of a table in the making. -/
abbrev Entries := List (String × Node)

/-! ### Adding to a table -/

/-- Adds a value behind a path of keys.  The keys before the last one go
through tables that dotted keys made, and make those that are missing; they may
also pass through tables on the way to such a table.  `isOpen` tells whether
the table at hand may take the last key itself. -/
def insertAt (v : Value) (isOpen : Bool) (entries : Entries) : List String → Option Entries
  | [] => none
  | [key] =>
    match lookup key entries with
    | none => if isOpen then some (entries ++ [(key, .value v)]) else none
    | some _ => none
  | key :: path =>
    match lookup key entries with
    | none => (insertAt v true [] path).map fun inner => entries ++ [(key, .table .dots inner)]
    | some (.table .dots inner) =>
      (insertAt v true inner path).map fun inner => replace key (.table .dots inner) entries
    | some (.table .passage inner) =>
      (insertAt v false inner path).map fun inner => replace key (.table .passage inner) entries
    | some (.tables earlier last) =>
      (insertAt v false last path).map fun last => replace key (.tables earlier last) entries
    -- a table with a header of its own is complete
    | some (.table .header _) | some (.value _) => none

/-- Changes the table that a header path leads to.  Missing tables are made on
the way, and an array of tables stands for its last one. -/
def changeAt (change : Entries → Option Entries) (entries : Entries) :
    List String → Option Entries
  | [] => change entries
  | key :: path =>
    match lookup key entries with
    | none =>
      (changeAt change [] path).map fun inner => entries ++ [(key, .table .passage inner)]
    | some (.table origin inner) =>
      (changeAt change inner path).map fun inner => replace key (.table origin inner) entries
    | some (.tables earlier last) =>
      (changeAt change last path).map fun last => replace key (.tables earlier last) entries
    | some (.value _) => none

/-- Makes the table that a header names; a table that headers only passed
through becomes that table. -/
def openTable (key : String) (entries : Entries) : Option Entries :=
  match lookup key entries with
  | none => some (entries ++ [(key, .table .header [])])
  | some (.table .passage inner) => some (replace key (.table .header inner) entries)
  | some _ => none

/-- Makes the next table of the array that a header names. -/
def openNext (key : String) (entries : Entries) : Option Entries :=
  match lookup key entries with
  | none => some (entries ++ [(key, .tables [] [])])
  | some (.tables earlier last) => some (replace key (.tables (earlier ++ [last]) []) entries)
  | some _ => none

/-! ### The finished values -/

mutual

/-- The value of a node. -/
def Node.toValue : Node → Value
  | .value v => v
  | .table _ entries => .table (finish entries)
  | .tables earlier last => .array (finishAll earlier ++ [.table (finish last)])

/-- The finished entries of a table. -/
def finish : List (String × Node) → List (String × Value)
  | [] => []
  | (key, node) :: rest => (key, node.toValue) :: finish rest

/-- The finished tables of an array. -/
def finishAll : List (List (String × Node)) → List Value
  | [] => []
  | entries :: rest => .table (finish entries) :: finishAll rest

end

end SymbolRenaming.Toml
