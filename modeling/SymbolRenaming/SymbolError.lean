/-
SymbolRenaming/SymbolError.lean

What can be wrong with the text of a symbol, each cause with the offending
text, and the one wording of each cause.
-/

namespace SymbolRenaming

/-- Why a text is not the symbol it should be. -/
inductive SymbolError where
  /-- The text is neither a class name nor an array or primitive type. -/
  | malformedType (text : String)
  /-- The text is not of the form parameters in parentheses, then a return type. -/
  | malformedDescriptor (text : String)
  /-- The text does not split into a well-formed owner and a name. -/
  | malformedMemberName (text : String)
  /-- A class was needed, and the text is a primitive or an array. -/
  | notAReferenceType (text : String)
  deriving DecidableEq, Repr

namespace SymbolError

/-- The offending text. -/
def text : SymbolError → String
  | malformedType t => t
  | malformedDescriptor t => t
  | malformedMemberName t => t
  | notAReferenceType t => t

/-- The wording of an error. -/
def message : SymbolError → String
  | malformedType t => s!"malformed type: {t}"
  | malformedDescriptor t => s!"malformed method descriptor: {t}"
  | malformedMemberName t => s!"malformed member name (expected `owner/name`): {t}"
  | notAReferenceType t => s!"type isn't a reference type: {t}"

end SymbolError

end SymbolRenaming
