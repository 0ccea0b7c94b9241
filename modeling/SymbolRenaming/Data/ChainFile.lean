/-
SymbolRenaming/Data/ChainFile.lean

Chain files as structured data.

Design.  A format or a path that is not set has no field; everything else is
written, whether it has its usual value or not.
-/
import SymbolRenaming.ChainFile
import SymbolRenaming.Data.Symbols

namespace SymbolRenaming

/-- A field that is written only if it is set. -/
def Data.optionalField {α : Type} (name : String) (write : α → Data) (a : Option α) :
    List (String × Data) :=
  (a.map fun a => (name, write a)).toList

/-- Writes a layer. -/
def ChainLayer.toData : ChainLayer → Data
  | file path format invert =>
    .record ([("path", .text path)] ++ Data.optionalField "format" Format.toData format
      ++ [("invert", .bool invert)])
  | packages pairs => .record [("packages", .record (pairs.map fun p => (p.1, .text p.2)))]

/-- Writes how the program reports. -/
def Logging.toData (l : Logging) : Data :=
  .record [("level", .text l.level), ("json", .bool l.json)]

/-- Writes where the result goes. -/
def Destination.toData (o : Destination) : Data :=
  .record (Data.optionalField "path" .text o.path
    ++ Data.optionalField "format" Format.toData o.format)

/-- Writes a chain file. -/
def ChainFile.toData (c : ChainFile) : Data :=
  .record [("logging", c.logging.toData), ("layers", .list (c.layers.map ChainLayer.toData)),
    ("output", c.output.toData)]

end SymbolRenaming
