/-
SymbolRenaming/Mappings.lean

The three kinds of mappings as one type, with what all of them can do.
-/
import SymbolRenaming.Mappings.Editable
import SymbolRenaming.Mappings.Rules

namespace SymbolRenaming

/-- Mappings of any kind. -/
inductive Mappings where
  | frozen (m : Frozen)
  | editable (m : Editable)
  | rules (m : Rules)

namespace Mappings

/-- Whether the mappings are tables; rules are not. -/
def isTable : Mappings → Bool
  | rules _ => false
  | _ => true

/-- The contract of the mappings. -/
def contract : Mappings → Renaming
  | frozen m => m.contract
  | editable m => m.contract
  | rules m => m.contract

/-- The present state as frozen mappings; rules have none. -/
def snapshot : Mappings → Except RenamingError Frozen
  | frozen m => .ok m
  | editable m => .ok m.freeze
  | rules _ => .error .notSnapshottable

/-- The present state turned round; rules have none. -/
def inverted : Mappings → Except RenamingError Frozen
  | frozen m => .ok m.invert
  | editable m => .ok m.freeze.invert
  | rules _ => .error .notInvertible

/-- What a reader of the mappings is told at first. -/
def openingNotices : Mappings → List Notice
  | frozen m => m.openingNotices
  | _ => []

end Mappings

end SymbolRenaming
