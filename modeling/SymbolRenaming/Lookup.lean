/-
SymbolRenaming/Lookup.lean

Looking up one symbol in mappings.

Design.  A symbol is given as text and read first; what comes out is the symbol
and what it becomes, both as text.  A class may also be an array type.
-/
import SymbolRenaming.Data
import SymbolRenaming.Mappings

namespace SymbolRenaming

/-- A symbol as a person writes it. -/
inductive Symbol where
  | classNamed (name : String)
  | fieldNamed (name : String)
  | methodNamed (name descriptor : String)
  deriving DecidableEq, Repr

/-- A symbol with what it becomes. -/
structure Finding where
  kind : String
  old : String
  renamed : String
  deriving DecidableEq, Repr

/-- Looks a symbol up. -/
def Symbol.find (r : Renaming) : Symbol → Except SymbolError Finding
  | classNamed name => do
    let t ← VmType.ofInternalName name
    pure ⟨"class", t.internalName, (r.renameType t).internalName⟩
  | fieldNamed name => do
    let x ← FieldSymbol.ofInternalName name
    pure ⟨"field", x.internalName, (r.renameField x).internalName⟩
  | methodNamed name descriptor => do
    let x ← MethodSymbol.ofInternalName name descriptor
    pure ⟨"method", x.text, (r.renameMethod x).text⟩

/-- A finding as structured data. -/
def Finding.toData (f : Finding) : Data :=
  .record [("kind", .text f.kind), ("original", .text f.old), ("renamed", .text f.renamed)]

/-- The text of a finding: the new name alone, or all of it as data. -/
def Finding.text (f : Finding) (asData : Bool) : String :=
  (if asData then f.toData.toText else f.renamed) ++ "\n"

end SymbolRenaming
