/-
SymbolRenaming/Toml/Value.lean

The values of a TOML document.

Design.  Numbers and moments are checked but kept as text, since nothing here
computes with them.  A table is the list of its entries in the order of the
document; the reader sees to it that no key comes twice.
-/

namespace SymbolRenaming.Toml

/-- A value of a TOML document. -/
inductive Value where
  | string (s : String)
  | boolean (b : Bool)
  /-- An integer or a floating-point number, as it is written. -/
  | number (text : String)
  /-- A date, a time or both, in its usual spelling. -/
  | moment (text : String)
  | array (items : List Value)
  | table (entries : List (String × Value))

instance : Inhabited Value := ⟨.boolean false⟩

/-- The value of the first entry with a key. -/
def lookup {α : Type} (k : String) : List (String × α) → Option α
  | [] => none
  | e :: es => if e.1 = k then some e.2 else lookup k es

/-- Gives the first entry with a key another value. -/
def replace {α : Type} (k : String) (v : α) : List (String × α) → List (String × α)
  | [] => []
  | e :: es => if e.1 = k then (k, v) :: es else e :: replace k v es

end SymbolRenaming.Toml
