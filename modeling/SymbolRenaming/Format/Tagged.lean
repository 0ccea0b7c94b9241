/-
SymbolRenaming/Format/Tagged.lean

The tagged format: one record a line, marked with its kind.

    CL: ab Cow
    FD: ab/b Cow/age
    MD: ab/a (Lab;)V Cow/love (LCow;)V

Design.  The reader edits editable mappings record by record.  A member record
is checked against the class records before it.  Package records are read past.
A class record is told about when it changes the name that the store has for the
class.
-/
import SymbolRenaming.Format.LineReader

namespace SymbolRenaming.Tagged

/-- A record of the tagged format, not yet interpreted. -/
inductive Record where
  | ofClass (old renamed : String)
  | ofField (old renamed : String)
  | ofMethod (old oldTypes renamed renamedTypes : String)
  | ofPackage
  deriving DecidableEq, Repr

/-- The record that columns form. -/
def recordOf : List String → Option Record
  | ["CL:", old, renamed] => some (.ofClass old renamed)
  | ["FD:", old, renamed] => some (.ofField old renamed)
  | ["MD:", old, oldTypes, renamed, renamedTypes] =>
    some (.ofMethod old oldTypes renamed renamedTypes)
  | "PK:" :: _ => some .ofPackage
  | _ => none

/-! ### Reading -/

/-- What is told when a class record changes a name that is set. -/
def overrideNotices (m : Editable) (number : Nat) (old renamed : ClassName) : List Notice :=
  let previous := m.renameClass old
  if previous ≠ old ∧ previous ≠ renamed then
    [.classRecordOverridden number old previous renamed]
  else []

/-- Enters a class record. -/
def acceptClass (m : Editable) (number : Nat) (old renamed : String) :
    Except RenamingError (Editable × List Notice) := do
  let old ← (VmType.ofInternalName old).mapError .symbol
  let renamed ← (VmType.ofInternalName renamed).mapError .symbol
  let next ← m.setClassType old renamed
  match old, renamed with
  | .reference c, .reference d => pure (next, overrideNotices m number c d)
  | _, _ => pure (next, [])

/-- Enters a field record. -/
def acceptField (m : Editable) (old renamed : String) : Except RenamingError Editable := do
  let old ← (FieldSymbol.ofInternalName old).mapError .symbol
  let renamed ← (FieldSymbol.ofInternalName renamed).mapError .symbol
  m.setField old renamed

/-- Enters a method record. -/
def acceptMethod (m : Editable) (old oldTypes renamed renamedTypes : String) :
    Except RenamingError Editable := do
  let old ← (MethodSymbol.ofInternalName old oldTypes).mapError .symbol
  let renamed ← (MethodSymbol.ofInternalName renamed renamedTypes).mapError .symbol
  m.setMethod old renamed

/-- Enters a record. -/
def accept (m : Editable) (number : Nat) : Record → Except RenamingError (Editable × List Notice)
  | .ofClass old renamed => acceptClass m number old renamed
  | .ofField old renamed => (acceptField m old renamed).map (·, [])
  | .ofMethod old oldTypes renamed renamedTypes =>
    (acceptMethod m old oldTypes renamed renamedTypes).map (·, [])
  | .ofPackage => .ok (m, [.packageRecordIgnored number])

/-- The reader of the tagged format. -/
def reader : LineReader Record Editable where
  recordOf
  start := .empty
  accept
  finish m := ⟨m.freeze, []⟩

/-! ### Writing -/

/-- The pieces in which the line for a class is written. -/
def classPieces (e : ClassName × ClassName) : List String := ["CL: ", e.1.text, " ", e.2.text]

/-- The pieces in which the line for a field is written. -/
def fieldPieces (e : FieldSymbol × FieldSymbol) : List String :=
  ["FD: ", e.1.owner.text, "/", e.1.name, " ", e.2.owner.text, "/", e.2.name]

/-- The pieces in which the line for a method is written. -/
def methodPieces (e : MethodSymbol × MethodSymbol) : List String :=
  ["MD: ", e.1.internalName, " ", e.1.descriptor.text, " ", e.2.internalName, " ",
    e.2.descriptor.text]

end SymbolRenaming.Tagged
