/-
SymbolRenaming/Data/Notice.lean

Notices as structured data.
-/
import SymbolRenaming.Data
import SymbolRenaming.Notice

namespace SymbolRenaming

/-- Writes a value that a notice carries. -/
def Detail.toData : Detail → Data
  | number n => .ofNat n
  | text s => .text s

/-- Writes a notice. -/
def Notice.toData (n : Notice) : Data :=
  .record [("level", .text n.level.name), ("target", .text n.target),
    ("message", .text n.message), ("fields", .record (n.details.map fun d => (d.1, d.2.toData)))]

end SymbolRenaming
