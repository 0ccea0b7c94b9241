/-
SymbolRenaming/LogFilter/Directive.lean

Directives: the parts of a log filter, and how they are written.

Design.  A directive sets a limit for some events.  It can ask for the beginning
of the target (`srg=debug`), for a span that is open (`srg[span]=debug`) and for
a field (`srg[{key}]=debug`, `srg[span{key=value}]=debug`).  A word alone is a
limit for everything, or else a target that reports everything.  A directive is
told apart into its parts without the blanks around it, and the places found are
counted in the text with its blanks: a blank before a directive therefore
belongs to its first part and shifts all parts, and one behind it belongs to its
limit.
-/
import SymbolRenaming.LogFilter.Pattern
import SymbolRenaming.Notice
import SymbolRenaming.Text.Split

namespace SymbolRenaming.LogFilter

open Text

/-! ### Limits -/

/-- The least severe level that is reported, or off. -/
abbrev Limit := Option Level

/-- The name of a limit in capitals. -/
def limitName : Limit → String
  | none => "OFF"
  | some l => l.name

/-- The limit with a number from 0 (off) to 5 (everything). -/
def limitOfNat? : Nat → Option Limit
  | 0 => some none
  | 1 => some (some .error)
  | 2 => some (some .warn)
  | 3 => some (some .info)
  | 4 => some (some .debug)
  | 5 => some (some .trace)
  | _ => none

/-- The limit with a name in small letters. -/
def limitOfName? : String → Option Limit
  | "off" => some none
  | "error" => some (some .error)
  | "warn" => some (some .warn)
  | "info" => some (some .info)
  | "debug" => some (some .debug)
  | "trace" => some (some .trace)
  | _ => none

/-- Reads a number: decimal digits, with a plus sign before them if one likes. -/
def readNat? (cs : List Char) : Option Nat :=
  let digits := if cs.head? = some '+' then cs.tail else cs
  if digits.isEmpty || !digits.all Char.isDigit then none
  else some (digits.foldl (fun n c => 10 * n + (c.toNat - 48)) 0)

/-- Reads a limit: a number, or a name in any case. -/
def readLimit? (s : String) : Option Limit :=
  match (readNat? s.toList).bind limitOfNat? with
  | some l => some l
  | none => limitOfName? (.ofList (s.toList.map Char.toLower))

/-- Reads the limit behind an equals sign; nothing there reports everything. -/
def readGivenLimit? (cs : List Char) : Option Limit :=
  if cs.isEmpty then some (some .trace) else readLimit? (.ofList cs)

/-! ### Fields -/

/-- Whether a text is an exponent, or nothing. -/
def isExponent : List Char → Bool
  | [] => true
  | e :: r =>
    let digits := if r.head? = some '+' || r.head? = some '-' then r.tail else r
    (e = 'e' || e = 'E') && !digits.isEmpty && digits.all Char.isDigit

/-- Whether a text is a decimal number without a sign, infinity, or no number at
all by name. -/
def isMagnitude (cs : List Char) : Bool :=
  let whole := cs.takeWhile Char.isDigit
  let rest := cs.dropWhile Char.isDigit
  let fraction := if rest.head? = some '.' then rest.tail.takeWhile Char.isDigit else []
  let rest := if rest.head? = some '.' then rest.tail.dropWhile Char.isDigit else rest
  ["inf", "infinity", "nan"].contains (String.ofList (cs.map Char.toLower))
    || !(whole ++ fraction).isEmpty && isExponent rest

/-- Whether a field can be asked to have a value.  A value is a truth value, a
number or a pattern, and all of them are patterns but for numbers with a plus
sign. -/
def isFieldValue (cs : List Char) : Bool :=
  isPattern cs || cs.head? = some '+' && isMagnitude cs.tail

/-- What a directive asks of a field: that it is there, and perhaps its value. -/
structure Field where
  name : String
  value : Option String
  deriving DecidableEq, Repr

/-- Reads a field: a name, or a name and a value around an equals sign.  What
follows a second equals sign is not looked at. -/
def readField? (cs : List Char) : Option Field :=
  match pieces (· == '=') cs with
  | [name] => if name.isEmpty then none else some ⟨.ofList name, none⟩
  | name :: value :: _ =>
    if isFieldValue value then some ⟨.ofList name, some (.ofList value)⟩ else none
  | [] => none

/-! ### Directives -/

/-- A limit for the events whose target starts with a text, and perhaps only
within a span or with a field.  The empty text stands for all targets. -/
structure Directive where
  target : List Char
  span : Option (List Char)
  field : Option Field
  limit : Limit
  deriving DecidableEq, Repr

/-- The directive that sets a limit for everything. -/
def Directive.everywhere (limit : Limit) : Directive := ⟨[], none, none, limit⟩

/-- Splits a text behind so many bytes; a character is not cut. -/
def splitAtByte? : Nat → List Char → Option (List Char × List Char)
  | 0, cs => some ([], cs)
  | _ + 1, [] => none
  | n + 1, c :: r =>
    if c.utf8Size ≤ n + 1 then
      (splitAtByte? (n + 1 - c.utf8Size) r).map fun parts => (c :: parts.1, parts.2)
    else none

/-- The number of bytes of a text. -/
def byteCount : List Char → Nat
  | [] => 0
  | c :: r => c.utf8Size + byteCount r

/-- The part of a text from one place to another, both counted in bytes. -/
def part? (text : List Char) (start stop : Nat) : Option (List Char) := do
  let parts ← splitAtByte? start text
  let parts ← splitAtByte? (stop - start) parts.2
  pure parts.1

/-- The part of a text from a place to its end. -/
def partFrom? (text : List Char) (start : Nat) : Option (List Char) :=
  (splitAtByte? start text).map Prod.snd

/-- Whether a character ends the first word of a directive. -/
def endsWord (c : Char) : Bool := c == '=' || c == '['

/-- Whether a target can start with a character. -/
def startsTarget (c : Char) : Bool :=
  ['-', ':', '_'].contains c || isAlphabetic c || isNumeric c

/-- Reads what follows a bracketed condition, which ends at a place: nothing, or
a limit. -/
def readConditionLimit? (text : List Char) (place : Nat) : List Char → Option Limit
  | [] => some (some .trace)
  | c :: _ => if c = '=' then (partFrom? text (place + 1)).bind readGivenLimit? else none

/-- Reads a bracketed condition and what follows it; `core` is what is left behind
the opening bracket, which ends at a place. -/
def readCondition? (text target : List Char) (place : Nat) (core : List Char) :
    Option Directive := do
  let name := core.takeWhile fun c => c != ']' && c != '\x7b'
  let nameEnd := place + byteCount name
  let span ← part? text place nameEnd
  match core.drop name.length with
  | [] => none
  | ']' :: rest => return ⟨target, some span, none, ← readConditionLimit? text (nameEnd + 1) rest⟩
  | _ :: rest =>
    let inner := rest.takeWhile (· != '\x7d')
    let innerEnd := nameEnd + 1 + byteCount inner
    match rest.drop inner.length with
    | _ :: ']' :: rest =>
      let field ← readField? (← part? text (nameEnd + 1) innerEnd)
      let limit ← readConditionLimit? text (innerEnd + 2) rest
      return ⟨target, if span.isEmpty then none else some span, some field, limit⟩
    | _ => none

/-- Reads a word alone: a limit, or a target that reports everything. -/
def readWord (text : List Char) : Directive :=
  match readLimit? (.ofList text) with
  | some limit => .everywhere limit
  | none => ⟨text, none, none, some .trace⟩

/-- Reads a directive. -/
def readDirective? (text : List Char) : Option Directive := do
  let core := trim text
  let word := core.takeWhile (!endsWord ·)
  let wordEnd := byteCount word
  if word.isEmpty then
    match core with
    | '[' :: rest => readCondition? text [] 1 rest
    | _ => none
  else if !word.head?.any startsTarget then none
  else
    match core.drop word.length with
    | [] => return readWord text
    | '[' :: rest => readCondition? text (← part? text 0 wordEnd) (wordEnd + 1) rest
    | _ :: _ =>
      let limit ← readGivenLimit? (← partFrom? text (wordEnd + 1))
      return ⟨← part? text 0 wordEnd, none, none, limit⟩

/-- Reads the directives between commas; nothing between two commas is no
directive. -/
def read? (cs : List Char) : Option (List Directive) :=
  ((pieces (· == ',') cs).filter (!·.isEmpty)).mapM readDirective?

end SymbolRenaming.LogFilter
