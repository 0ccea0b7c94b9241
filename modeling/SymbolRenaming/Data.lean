/-
SymbolRenaming/Data.lean

Structured data, as it is exchanged with other programs, and its indented text.

Design.  A value is null, a truth value, a decimal number, a text, a list or a
record whose fields stand in a definite order.  The text has one item a line,
indented by two blanks for each level; an empty list or record is a pair of
brackets.
-/

namespace SymbolRenaming

/-- A value of structured data. -/
inductive Data where
  | null
  | bool (b : Bool)
  /-- The number `mantissa / 10 ^ places`. -/
  | number (mantissa : Int) (places : Nat)
  | text (s : String)
  | list (items : List Data)
  | record (fields : List (String × Data))

namespace Data

instance : Inhabited Data := ⟨null⟩

/-- A whole number. -/
def ofNat (n : Nat) : Data := number n 0

/-! ### Text of a text -/

/-- The hexadecimal digit of a number below sixteen. -/
def hexDigit (n : Nat) : Char := Char.ofNat (if n < 10 then 48 + n else 87 + n)

/-- How a character stands between quotes. -/
def escape (c : Char) : List Char :=
  if c = '"' then ['\\', '"']
  else if c = '\\' then ['\\', '\\']
  else if c = '\n' then ['\\', 'n']
  else if c = '\r' then ['\\', 'r']
  else if c = '\t' then ['\\', 't']
  else if c.toNat = 8 then ['\\', 'b']
  else if c.toNat = 12 then ['\\', 'f']
  else if c.toNat < 32 then
    ['\\', 'u', '0', '0', hexDigit (c.toNat / 16), hexDigit (c.toNat % 16)]
  else [c]

/-- A text between quotes. -/
def quoted (s : String) : String := .ofList ('"' :: s.toList.flatMap escape ++ ['"'])

/-! ### Text of a value -/

/-- The text of a decimal number. -/
def numberText (mantissa : Int) (places : Nat) : String :=
  if places = 0 then toString mantissa
  else
    let digits := Nat.toDigits 10 mantissa.natAbs
    let padded := List.replicate (places + 1 - digits.length) '0' ++ digits
    (if mantissa < 0 then "-" else "")
      ++ .ofList (padded.take (padded.length - places)) ++ "."
      ++ .ofList (padded.drop (padded.length - places))

/-- A line feed and the indentation of a level. -/
def lineBreak (level : Nat) : String := .ofList ('\n' :: List.replicate (2 * level) ' ')

mutual

/-- The indented text of a value that stands at a level. -/
def pretty (level : Nat) : Data → String
  | null => "null"
  | bool true => "true"
  | bool false => "false"
  | number mantissa places => numberText mantissa places
  | text s => quoted s
  | list [] => "[]"
  | list (item :: items) =>
    "[" ++ lineBreak (level + 1) ++ item.pretty (level + 1) ++ prettyItems (level + 1) items
      ++ lineBreak level ++ "]"
  | record [] => "\x7b\x7d"
  | record ((name, value) :: fields) =>
    "\x7b" ++ lineBreak (level + 1) ++ quoted name ++ ": " ++ value.pretty (level + 1)
      ++ prettyFields (level + 1) fields ++ lineBreak level ++ "\x7d"

/-- The further items of a list, each on a line of its own. -/
def prettyItems (level : Nat) : List Data → String
  | [] => ""
  | item :: items =>
    "," ++ lineBreak level ++ item.pretty level ++ prettyItems level items

/-- The further fields of a record, each on a line of its own. -/
def prettyFields (level : Nat) : List (String × Data) → String
  | [] => ""
  | (name, value) :: fields =>
    "," ++ lineBreak level ++ quoted name ++ ": " ++ value.pretty level
      ++ prettyFields level fields

end

/-- The indented text of a value. -/
def toText (d : Data) : String := d.pretty 0

end Data

end SymbolRenaming
