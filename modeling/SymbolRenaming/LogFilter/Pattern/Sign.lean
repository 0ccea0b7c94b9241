/-
SymbolRenaming/LogFilter/Pattern/Sign.lean

Signs: what the characters of a pattern stand for, and which of them can be
compared with a text.

Design.  An escape turns characters into a sign, so that an escaped character is
no longer a mark.  Flags change how a pattern is read (`Modes`).  Patterns are
compared without tables of Unicode properties: a sign that would need one is
refused.  These are the general categories, the classes of digits, blanks and
word characters, the word boundaries, and any character if its case is to be
ignored.  Without the Unicode flag the classes of digits and so on are those of
ASCII; then a sign that could match a part of a character is refused.
-/
import SymbolRenaming.Text.Alphabet

namespace SymbolRenaming.LogFilter.Pattern

/-! ### Modes -/

/-- How a pattern is read: by Unicode, regardless of case, and with blanks and
comments between its parts. -/
structure Modes where
  unicode : Bool
  caseless : Bool
  spaced : Bool
  deriving DecidableEq, Repr

namespace Modes

/-- The modes at the beginning of a pattern. -/
def initial : Modes := ⟨true, false, false⟩

/-- The modes with one flag switched on or off; most flags change none of them. -/
def switch (on : Bool) (m : Modes) (flag : Char) : Modes :=
  if flag = 'u' then { m with unicode := on }
  else if flag = 'i' then { m with caseless := on }
  else if flag = 'x' then { m with spaced := on }
  else m

/-- The modes after flags in order; a dash stands before those that are switched off. -/
def after (m : Modes) (flags : List Char) : Modes :=
  (flags.dropWhile (· != '-')).foldl (switch false)
    ((flags.takeWhile (· != '-')).foldl (switch true) m)

/-- Whether characters can be compared.  To ignore their case, letters beyond
ASCII would have to be known. -/
def comparesCharacters (m : Modes) : Bool := !(m.unicode && m.caseless)

end Modes

/-! ### Signs -/

/-- What stands in a pattern. -/
inductive Sign where
  /-- A character that is not escaped. -/
  | plain (c : Char)
  /-- A character that is escaped, or given by its code point. -/
  | literal (c : Char)
  /-- A character that is given by two digits, and can be meant as a byte. -/
  | byte (c : Char)
  /-- A class of digits, blanks or word characters, or of all others. -/
  | set (negated : Bool)
  /-- The beginning or the end of the text. -/
  | anchor
  /-- A boundary of words, or a place that is none. -/
  | wordAnchor
  deriving DecidableEq, Repr

/-- The character that a sign stands for. -/
def Sign.char? : Sign → Option Char
  | plain c | literal c | byte c => some c
  | _ => none

/-- Whether a character has a code below 128. -/
def isAscii (c : Char) : Bool := c.toNat < 128

/-- Whether a sign can stand outside of classes.  A dot matches any character, and
without the Unicode flag any byte. -/
def Modes.admits (m : Modes) : Sign → Bool
  | .plain c =>
    if c = '.' then m.unicode else c = '^' || c = '$' || m.comparesCharacters
  | .literal _ => m.comparesCharacters
  | .byte c => m.comparesCharacters && (m.unicode || isAscii c)
  | .set negated => !m.unicode && !negated
  | .anchor => true
  | .wordAnchor => !m.unicode

/-- Whether a sign can stand in a class.  Without the Unicode flag a class consists
of bytes. -/
def Modes.admitsItem (m : Modes) : Sign → Bool
  | .plain c | .literal c | .byte c => m.comparesCharacters && (m.unicode || isAscii c)
  | .set negated => !m.unicode && !negated
  | .anchor | .wordAnchor => false

/-! ### Escapes -/

/-- The sign that a backslash and one character stand for.  A letter without a
meaning of its own is refused, and so are digits and what is not ASCII. -/
def escaped? (c : Char) : Option Sign :=
  if ['d', 's', 'w'].contains c then some (.set false)
  else if ['D', 'S', 'W'].contains c then some (.set true)
  else if ['A', 'z'].contains c then some .anchor
  else if ['b', 'B', '<', '>'].contains c then some .wordAnchor
  else if c = 'a' then some (.literal '\x07')
  else if c = 'f' then some (.literal '\x0c')
  else if c = 'n' then some (.literal '\n')
  else if c = 'r' then some (.literal '\r')
  else if c = 't' then some (.literal '\t')
  else if c = 'v' then some (.literal '\x0b')
  else if c.isAlphanum || !isAscii c then none
  else some (.literal c)

/-- The number of hexadecimal digits after a letter that announces a code point. -/
def codeLength? : Char → Option Nat
  | 'x' => some 2
  | 'u' => some 4
  | 'U' => some 8
  | _ => none

/-- The value of a hexadecimal digit. -/
def hexDigit? (c : Char) : Option Nat :=
  if c.isDigit then some (c.toNat - 48)
  else if 'a' ≤ c ∧ c ≤ 'f' then some (c.toNat - 87)
  else if 'A' ≤ c ∧ c ≤ 'F' then some (c.toNat - 55)
  else none

/-- The sign for a code point that was given by so many digits. -/
def ofCode? (digits code : Nat) : Option Sign :=
  if code.isValidChar then
    some (if digits = 2 then .byte (.ofNat code) else .literal (.ofNat code))
  else none

end SymbolRenaming.LogFilter.Pattern
