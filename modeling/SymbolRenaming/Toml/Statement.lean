/-
SymbolRenaming/Toml/Statement.lean

The statements of a TOML document: key with value, table header, and header of
an array's next table.

Design.  Values nest, and a document may not nest them deeper than a fixed
depth.  Their reader carries that depth, and beside it a bound on how many steps
it may still take; the length of the text is enough for the latter, and callers
never see it.  Inline tables are put together here, by the rules for dotted
keys.
-/
import SymbolRenaming.Toml.Node
import SymbolRenaming.Toml.Scalar

namespace SymbolRenaming.Toml

/-! ### Blanks, comments and line ends -/

/-- Drops spaces and tabs. -/
def skipSpaces (cs : List Char) : List Char := cs.dropWhile isSpace

/-- Reads a line ending. -/
def readLineEnding? : List Char → Option (List Char)
  | '\n' :: cs => some cs
  | '\r' :: '\n' :: cs => some cs
  | _ => none

/-- Drops a comment, if one starts here. -/
def skipComment : List Char → List Char
  | '#' :: cs => cs.dropWhile isPrintable
  | cs => cs

/-- Reads what may stand between a statement and the next line: blanks, a
comment, and then a line ending or the end of the text. -/
def readLineEnd? (cs : List Char) : Option (List Char) :=
  match skipComment (skipSpaces cs) with
  | [] => some []
  | rest => readLineEnding? rest

/-- Drops blanks, line endings and comments, as they may stand in an array. -/
def skipTrivia (inComment : Bool) : List Char → List Char
  | [] => []
  | c :: cs =>
    if c = '\n' then skipTrivia false cs
    else if c = '\r' ∧ cs.head? = some '\n' then skipTrivia false cs
    else if inComment then
      if isPrintable c then skipTrivia true cs else c :: cs
    else if isSpace c then skipTrivia false cs
    else if c = '#' then skipTrivia true cs
    else c :: cs

/-! ### Keys -/

/-- Whether a character can be part of a bare key. -/
def isBareKeyPart (c : Char) : Bool := c.isAlphanum || c == '_' || c == '-'

/-- Reads one part of a key. -/
def readSimpleKey? (cs : List Char) : Option (String × List Char) :=
  match cs.takeWhile isBareKeyPart with
  | [] => (readLineString? cs).map fun (s, rest) => (.ofList s, rest)
  | key => some (.ofList key, cs.dropWhile isBareKeyPart)

/-- Reads the parts of a key between dots, with the blanks around them, and at
most as many as the bound allows. -/
def readParts? : Nat → List Char → Option (List String × List Char)
  | 0, _ => none
  | bound + 1, cs =>
    match readSimpleKey? (skipSpaces cs) with
    | none => none
    | some (part, rest) =>
      match skipSpaces rest with
      | '.' :: more => (readParts? bound more).map fun (parts, rest) => (part :: parts, rest)
      | rest => some ([part], rest)

/-- How deep values may nest, and how many parts a key may have. -/
def maxDepth : Nat := 79

/-- Reads a key, with the blanks around it. -/
def readKey? (cs : List Char) : Option (List String × List Char) := readParts? maxDepth cs

/-! ### Inline tables -/

/-- Puts an inline table together from its keys and values. -/
def inlineTable? (pairs : List (List String × Value)) : Option Value :=
  (pairs.foldlM (fun entries pair => insertAt pair.2 true entries pair.1) []).map
    fun entries => .table (finish entries)

/-! ### Values -/

mutual

/-- Reads a value off the front of a text.  `depth` tells how many arrays and
inline tables may still open inside one another. -/
def readNested? (depth : Nat) : Nat → List Char → Option (Value × List Char)
  | 0, _ => none
  | bound + 1, cs =>
    match cs with
    | '[' :: rest =>
      if depth = 0 then none
      else (readItems? (depth - 1) bound rest).map fun (items, rest) => (.array items, rest)
    | '\x7b' :: rest =>
      if depth = 0 then none
      else
        match skipSpaces rest with
        | '\x7d' :: rest => some (.table [], rest)
        | rest =>
          match readPairs? (depth - 1) bound rest with
          | some (pairs, rest) => (inlineTable? pairs).map (·, rest)
          | none => none
    | _ =>
      if cs.head? = some '"' ∨ cs.head? = some '\'' then
        (readString? cs).map fun (s, rest) => (.string (.ofList s), rest)
      else readScalar? cs

/-- Reads the items of an array and its closing bracket. -/
def readItems? (depth : Nat) : Nat → List Char → Option (List Value × List Char)
  | 0, _ => none
  | bound + 1, cs =>
    match skipTrivia false cs with
    | ']' :: rest => some ([], rest)
    | cs =>
      match readNested? depth bound cs with
      | none => none
      | some (item, rest) =>
        match skipTrivia false rest with
        | ']' :: rest => some ([item], rest)
        | ',' :: rest =>
          (readItems? depth bound rest).map fun (items, rest) => (item :: items, rest)
        | _ => none

/-- Reads the keys and values of an inline table and its closing brace. -/
def readPairs? (depth : Nat) : Nat → List Char → Option (List (List String × Value) × List Char)
  | 0, _ => none
  | bound + 1, cs =>
    match readKey? cs with
    | some (key, '=' :: rest) =>
      match readNested? depth bound (skipSpaces rest) with
      | none => none
      | some (v, rest) =>
        match skipSpaces rest with
        | '\x7d' :: rest => some ([(key, v)], rest)
        | ',' :: rest =>
          (readPairs? depth bound rest).map fun (pairs, rest) => ((key, v) :: pairs, rest)
        | _ => none
    | _ => none

end

/-- Reads a value; no reader takes more steps than the text is long. -/
def readValue? (cs : List Char) : Option (Value × List Char) :=
  readNested? maxDepth (cs.length + 1) cs

/-! ### Statements -/

/-- A statement of a document. -/
inductive Statement where
  /-- A key with a value, in the table that the last header opened. -/
  | entry (key : List String) (v : Value)
  /-- A header that opens a table. -/
  | header (path : List String)
  /-- A header that opens the next table of an array. -/
  | arrayHeader (path : List String)

/-- Reads a statement up to the end of its line. -/
def readStatement? (cs : List Char) : Option (Statement × List Char) :=
  match cs with
  -- the two brackets of an array header stand together
  | '[' :: '[' :: rest =>
    match readKey? rest with
    | some (path, ']' :: ']' :: rest) => (readLineEnd? rest).map (.arrayHeader path, ·)
    | _ => none
  | '[' :: rest =>
    match readKey? rest with
    | some (path, ']' :: rest) => (readLineEnd? rest).map (.header path, ·)
    | _ => none
  | _ =>
    match readKey? cs with
    | some (key, '=' :: rest) =>
      match readValue? (skipSpaces rest) with
      | some (v, rest) => (readLineEnd? rest).map (.entry key v, ·)
      | none => none
    | _ => none

/-- Reads statements to the end of the text, passing over blank lines and
comments; the bound is the number of lines that may still come. -/
def readStatements? : Nat → List Char → Option (List Statement)
  | 0, _ => none
  | bound + 1, cs =>
    match skipSpaces cs with
    | [] => some []
    | c :: rest =>
      if c = '#' ∨ c = '\n' ∨ c = '\r' then
        (readLineEnd? (c :: rest)).bind (readStatements? bound)
      else
        match readStatement? (c :: rest) with
        | some (s, rest) => (readStatements? bound rest).map (s :: ·)
        | none => none

/-- The statements of a text, which may start with a byte order mark. -/
def statements? (cs : List Char) : Option (List Statement) :=
  let body := if cs.head? = some '\ufeff' then cs.tail else cs
  readStatements? (body.length + 1) body

end SymbolRenaming.Toml
