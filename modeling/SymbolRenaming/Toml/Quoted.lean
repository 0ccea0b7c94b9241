/-
SymbolRenaming/Toml/Quoted.lean

Strings of a TOML document: basic and literal, on one line or on several.

Design.  One reader serves the four kinds.  It takes the text character by
character and remembers where it stands: between two characters (after some
quotes, inside a string of several lines), after a backslash, inside a numeric
escape, or where a line is folded.  Only basic strings have escapes; only
strings of several lines may hold line endings, which are read as line feeds.
At the end of a string of several lines up to two quotes belong to its text.
-/

namespace SymbolRenaming.Toml

/-- Whether a character may stand in a string or a comment as it is. -/
def isPrintable (c : Char) : Bool := c = '\t' || (0x20 ≤ c.toNat && c.toNat ≠ 0x7F)

/-- A blank of TOML: a space or a tab. -/
def isSpace (c : Char) : Bool := c = ' ' || c = '\t'

/-- The value of a hexadecimal digit. -/
def hexValue? (c : Char) : Option Nat :=
  if '0' ≤ c ∧ c ≤ '9' then some (c.toNat - 48)
  else if 'a' ≤ c ∧ c ≤ 'f' then some (c.toNat - 87)
  else if 'A' ≤ c ∧ c ≤ 'F' then some (c.toNat - 55)
  else none

/-- The character that a one-letter escape stands for. -/
def escaped? : Char → Option Char
  | 'b' => some (Char.ofNat 8)
  | 't' => some '\t'
  | 'n' => some '\n'
  | 'f' => some (Char.ofNat 12)
  | 'r' => some '\r'
  | '"' => some '"'
  | '\\' => some '\\'
  | _ => none

/-- The character with a number, if there is one. -/
def scalar? (n : Nat) : Option Char := if n.isValidChar then some (Char.ofNat n) else none

/-- The delimiter of a string, and whether it may have several lines. -/
structure StringKind where
  quote : Char
  multiline : Bool

/-- Whether a string has escapes. -/
def StringKind.hasEscapes (k : StringKind) : Bool := k.quote = '"'

/-- Where the reader of a string stands. -/
inductive StringState where
  /-- Between two characters, after a number of quotes. -/
  | plain (quotes : Nat)
  /-- After a carriage return, which a line feed has to follow. -/
  | carriage
  /-- After a backslash. -/
  | escape
  /-- Inside a numeric escape, with the digits still to come and the number so far. -/
  | hex (left : Nat) (value : Nat)
  /-- After a backslash and blanks; a line ending has to follow. -/
  | foldStart
  /-- After a backslash and a line ending; blanks and line endings are dropped. -/
  | fold
  /-- After a carriage return where a line is folded. -/
  | foldCarriage

/-- What a character does to the reader of a string. -/
inductive StringStep where
  /-- The character may not stand here. -/
  | refuse
  /-- The character is the last quote of a closing delimiter. -/
  | close
  /-- The text goes on: characters that are now known, and where the reader stands. -/
  | go (found : List Char) (next : StringState)

/-- A step between two characters, after a number of quotes. -/
def plainStep (k : StringKind) (quotes : Nat) (c : Char) : StringStep :=
  if c = k.quote then
    if !k.multiline || quotes = 2 then .close else .go [] (.plain (quotes + 1))
  else
    let pending := List.replicate quotes k.quote
    if c = '\\' ∧ k.hasEscapes then .go pending .escape
    else if k.multiline && c = '\n' then .go (pending ++ ['\n']) (.plain 0)
    else if k.multiline && c = '\r' then .go pending .carriage
    else if isPrintable c then .go (pending ++ [c]) (.plain 0)
    else .refuse

/-- A step behind a backslash and blanks, where the line has to end. -/
def foldStep (c : Char) : StringStep :=
  if isSpace c then .go [] .foldStart
  else if c = '\n' then .go [] .fold
  else if c = '\r' then .go [] .foldCarriage
  else .refuse

/-- What a character does, wherever the reader stands. -/
def stringStep (k : StringKind) : StringState → Char → StringStep
  | .plain quotes, c => plainStep k quotes c
  | .carriage, c => if c = '\n' then .go ['\n'] (.plain 0) else .refuse
  | .escape, c =>
    match escaped? c with
    | some d => .go [d] (.plain 0)
    | none =>
      if c = 'u' then .go [] (.hex 4 0)
      else if c = 'U' then .go [] (.hex 8 0)
      else if k.multiline then foldStep c
      else .refuse
  | .hex left value, c =>
    match hexValue? c with
    | none => .refuse
    | some d =>
      if 1 < left then .go [] (.hex (left - 1) (16 * value + d))
      else
        match scalar? (16 * value + d) with
        | some x => .go [x] (.plain 0)
        | none => .refuse
  | .foldStart, c => foldStep c
  | .fold, c =>
    if isSpace c || c = '\n' then .go [] .fold
    else if c = '\r' then .go [] .foldCarriage
    else plainStep k 0 c
  | .foldCarriage, c => if c = '\n' then .go [] .fold else .refuse

/-- The end of a string of several lines, after its third quote in a row: two
more quotes at most belong to the text. -/
def closeMultiline (quote : Char) : List Char → List Char × List Char
  | a :: b :: rest =>
    if a = quote ∧ b = quote then ([quote, quote], rest)
    else if a = quote then ([quote], b :: rest)
    else ([], a :: b :: rest)
  | [a] => if a = quote then ([quote], []) else ([], [a])
  | [] => ([], [])

/-- Reads the rest of a string, behind its opening delimiter, up to and
including its closing one. -/
def readBody? (k : StringKind) (state : StringState) :
    List Char → Option (List Char × List Char)
  | [] => none
  | c :: cs =>
    match stringStep k state c with
    | .refuse => none
    | .close => some (if k.multiline then closeMultiline k.quote cs else ([], cs))
    | .go found next => (readBody? k next cs).map fun r => (found ++ r.1, r.2)

/-- Drops a line ending that directly follows an opening delimiter. -/
def dropFirstLineEnding : List Char → List Char
  | '\n' :: cs => cs
  | '\r' :: '\n' :: cs => cs
  | cs => cs

/-- Reads a string on one line, with its delimiters. -/
def readLineString? : List Char → Option (List Char × List Char)
  | c :: cs => if c = '"' ∨ c = '\'' then readBody? ⟨c, false⟩ (.plain 0) cs else none
  | [] => none

/-- Reads a string of any kind, with its delimiters. -/
def readString? : List Char → Option (List Char × List Char)
  | a :: b :: c :: cs =>
    if (a = '"' ∨ a = '\'') ∧ b = a ∧ c = a then
      readBody? ⟨a, true⟩ (.plain 0) (dropFirstLineEnding cs)
    else readLineString? (a :: b :: c :: cs)
  | cs => readLineString? cs

end SymbolRenaming.Toml
