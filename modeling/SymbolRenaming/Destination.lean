/-
SymbolRenaming/Destination.lean

Where a result goes, and in which format.
-/
import SymbolRenaming.Format

namespace SymbolRenaming

/-- Where a result goes: to a file, or to standard output where no path is set. -/
structure Destination where
  path : Option String := none
  format : Option Format := none
  deriving DecidableEq, Repr

namespace Destination

/-- The format of the result: the one that is set, or the one that the path
names, or the tagged one. -/
def chosenFormat (d : Destination) : Format :=
  (d.format <|> d.path.bind Format.ofExtension?).getD .tagged

/-- The destination where every setting that is missing is taken from another. -/
def orElse (d e : Destination) : Destination := ⟨d.path <|> e.path, d.format <|> e.format⟩

@[simp] theorem orElse_empty (d : Destination) : d.orElse {} = d := by
  rcases d with ⟨path, format⟩
  rcases path with - | path <;> rcases format with - | format <;> rfl

end Destination

end SymbolRenaming
