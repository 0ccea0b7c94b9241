/-
SymbolRenaming/Mappings/RenamingError.lean

What can be wrong with a set of mappings.
-/
import SymbolRenaming.SymbolError

namespace SymbolRenaming

/-- The two kinds of members. -/
inductive MemberKind where
  | field | method
  deriving DecidableEq, Repr

/-- The name of a kind of member. -/
def MemberKind.name : MemberKind → String
  | field => "field"
  | method => "method"

/-- Why mappings cannot be built, edited or turned into others. -/
inductive RenamingError where
  /-- A symbol is malformed. -/
  | symbol (cause : SymbolError)
  /-- The types of a renamed member are not the renamed types of the old one. -/
  | inconsistent (kind : MemberKind) (old renamed : String)
  /-- Rules cannot be turned round. -/
  | notInvertible
  /-- Rules cannot be listed. -/
  | notSnapshottable
  deriving DecidableEq, Repr

/-- The wording of an error. -/
def RenamingError.message : RenamingError → String
  | symbol cause => cause.message
  | inconsistent kind old renamed =>
    s!"remapped {kind.name} `{renamed}` doesn't correspond to the types of `{old}`"
  | notInvertible => "rule-based mappings can't be inverted"
  | notSnapshottable => "rule-based mappings can't be snapshotted"

end SymbolRenaming
