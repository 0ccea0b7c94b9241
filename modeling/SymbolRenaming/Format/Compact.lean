/-
SymbolRenaming/Format/Compact.lean

The compact format: untagged records, told apart by their number of columns.

    ab Cow
    ab b age
    ab a (Lab;)V love

Design.  A member record names the old member and its new name only, so
the reader keeps all records until the end and then renames the members' types
by the complete class table.  Kept classes may be mapped to themselves.  A class
record is told about when an earlier record of the class gave another name.
-/
import SymbolRenaming.Format.LineReader

namespace SymbolRenaming.Compact

/-- A record of the compact format, not yet interpreted. -/
inductive Record where
  | ofClass (old renamed : String)
  | ofField (owner name newName : String)
  | ofMethod (owner name types newName : String)
  deriving DecidableEq, Repr

/-- The record that columns form. -/
def recordOf : List String → Option Record
  | [old, renamed] => some (.ofClass old renamed)
  | [owner, name, newName] => some (.ofField owner name newName)
  | [owner, name, types, newName] => some (.ofMethod owner name types newName)
  | _ => none

/-! ### Reading -/

/-- The records read so far. -/
structure Buffer where
  classes : Table ClassName ClassName := .empty
  methodNames : Table MethodSymbol String := .empty
  fieldNames : Table FieldSymbol String := .empty

/-- Reads the internal spelling of a type that has to be a class. -/
def classOf (s : String) : Except RenamingError ClassName :=
  match VmType.ofInternalName s with
  | .error e => .error (.symbol e)
  | .ok t =>
    match t.asClass with
    | .error e => .error (.symbol e)
    | .ok c => .ok c

/-- What is told when a class record changes an earlier record. -/
def overrideNotices (b : Buffer) (number : Nat) (old renamed : ClassName) : List Notice :=
  match b.classes.get? old with
  | some previous =>
    if previous ≠ renamed then [.classRecordOverridden number old previous renamed] else []
  | none => []

/-- Keeps a class record. -/
def acceptClass (b : Buffer) (number : Nat) (old renamed : String) :
    Except RenamingError (Buffer × List Notice) := do
  let old ← classOf old
  let renamed ← classOf renamed
  pure ({ b with classes := b.classes.insert old renamed },
    overrideNotices b number old renamed)

/-- Keeps a field record. -/
def acceptField (b : Buffer) (owner name newName : String) : Except RenamingError Buffer := do
  let owner ← classOf owner
  pure { b with fieldNames := b.fieldNames.insert ⟨owner, name⟩ newName }

/-- Keeps a method record; the owner is judged before the descriptor. -/
def acceptMethod (b : Buffer) (owner name types newName : String) :
    Except RenamingError Buffer := do
  let owner ← classOf owner
  let descriptor ← (Descriptor.parse types).mapError .symbol
  pure { b with methodNames := b.methodNames.insert ⟨owner, name, descriptor⟩ newName }

/-- Keeps a record. -/
def accept (b : Buffer) (number : Nat) : Record → Except RenamingError (Buffer × List Notice)
  | .ofClass old renamed => acceptClass b number old renamed
  | .ofField owner name newName => (acceptField b owner name newName).map (·, [])
  | .ofMethod owner name types newName => (acceptMethod b owner name types newName).map (·, [])

/-- Renames the types of all kept members by the complete class table. -/
def finish (b : Buffer) : Noted Frozen :=
  ⟨.ofNames b.classes.entries b.methodNames.entries b.fieldNames.entries,
    [.compactRecordsResolved b.classes.size b.methodNames.size b.fieldNames.size]⟩

/-- The reader of the compact format. -/
def reader : LineReader Record Buffer where
  recordOf
  start := {}
  accept
  finish

/-! ### Writing -/

/-- The pieces in which the line for a class is written. -/
def classPieces (e : ClassName × ClassName) : List String := [e.1.text, " ", e.2.text]

/-- The pieces in which the line for a field is written. -/
def fieldPieces (e : FieldSymbol × FieldSymbol) : List String :=
  [e.1.owner.text, " ", e.1.name, " ", e.2.name]

/-- The pieces in which the line for a method is written. -/
def methodPieces (e : MethodSymbol × MethodSymbol) : List String :=
  [e.1.owner.text, " ", e.1.name, " ", e.1.descriptor.text, " ", e.2.name]

end SymbolRenaming.Compact
