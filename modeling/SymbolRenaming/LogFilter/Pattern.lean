/-
SymbolRenaming/LogFilter/Pattern.lean

Patterns: which texts are regular expressions that can be searched for.

Design.  A filter may ask for the value of a field by a regular expression, and
refuses a text that is none.  Whether a text is one is decided by a machine that
reads it character by character.  One part of the state is about escapes and
comments: from it the characters become signs.  The other part is about structure:
the groups that are open, each with its modes and with what stands in it so far;
the names that groups have; and the place that is reached.  A pattern stands
between braces and commas, so no counted repetition can occur in it, and it may not
be nested too deeply.
-/
import SymbolRenaming.LogFilter.Pattern.Bracket

namespace SymbolRenaming.LogFilter.Pattern

open Text

/-! ### Groups -/

/-- What a sequence ends with: nothing that can be repeated, an item, or a repetition
that a question mark makes reluctant. -/
inductive Ending where
  | nothing | item | repetition
  deriving DecidableEq, Repr

/-- A sequence of items: their number, how deep they are nested, and the last one. -/
structure Sequence where
  count : Nat
  deepest : Nat
  last : Nat
  ending : Ending
  deriving DecidableEq, Repr

namespace Sequence

/-- The empty sequence. -/
def empty : Sequence := ⟨0, 0, 0, .nothing⟩

/-- Adds an item. -/
def add (s : Sequence) (depth : Nat) (ending : Ending) : Sequence :=
  ⟨s.count + 1, max s.deepest depth, depth, ending⟩

/-- How deep a sequence is nested; several items are one level deeper than one. -/
def depth (s : Sequence) : Nat := if s.count ≤ 1 then s.deepest else s.deepest + 1

/-- Repeats the last item, which is nested one level deeper by that. -/
def repeat? (s : Sequence) (mark : Char) : Option Sequence :=
  match s.ending with
  | .nothing => none
  | .repetition =>
    if mark = '?' then some { s with ending := .item }
    else some { s with deepest := max s.deepest (s.last + 1), last := s.last + 1 }
  | .item =>
    some ⟨s.count, max s.deepest (s.last + 1), s.last + 1, .repetition⟩

/-- Skips a blank; what follows makes no repetition reluctant. -/
def skip (s : Sequence) : Sequence :=
  if s.ending = .repetition then { s with ending := .item } else s

end Sequence

/-- An open group, or the whole pattern: its modes, the alternative that is under way,
and the depth of those before it. -/
structure Group where
  modes : Modes
  sequence : Sequence
  others : Option Nat
  deriving DecidableEq, Repr

namespace Group

/-- An empty group. -/
def empty (modes : Modes) : Group := ⟨modes, .empty, none⟩

/-- Adds an item to the alternative that is under way. -/
def add (g : Group) (depth : Nat) (ending : Ending) : Group :=
  { g with sequence := g.sequence.add depth ending }

/-- How deep a group is nested; several alternatives are one level deeper than one. -/
def depth (g : Group) : Nat :=
  match g.others with
  | none => g.sequence.depth
  | some others => max others g.sequence.depth + 1

/-- Ends an alternative. -/
def alternate (g : Group) : Group :=
  { g with sequence := .empty, others := some (max (g.others.getD 0) g.sequence.depth) }

end Group

/-! ### Structure -/

/-- A place in a pattern. -/
inductive Place where
  /-- Outside of classes and group heads. -/
  | outside
  /-- After an opening parenthesis. -/
  | opened
  /-- After an opening parenthesis and a question mark. -/
  | head
  /-- After the letter that announces a name. -/
  | named
  /-- In a group name; the characters so far, the last one first. -/
  | name (reversed : List Char)
  /-- Among flags; the characters so far, the last one first. -/
  | flags (reversed : List Char)
  /-- In a class; the classes around it, the innermost first. -/
  | within (outer : List Items) (items : Items) (spot : Spot)
  deriving DecidableEq, Repr

/-- How far the structure of a pattern is known: the place, the innermost group that
is open, those around it, and the names of groups. -/
structure Structure where
  place : Place
  group : Group
  outer : List Group
  names : List (List Char)
  deriving DecidableEq, Repr

/-- The structure of the empty pattern. -/
def Structure.empty : Structure := ⟨.outside, .empty .initial, [], []⟩

/-- The greatest depth that a pattern may have. -/
def maxDepth : Nat := 250

/-- Whether a pattern can end here: outside of everything, and not too deep. -/
def Structure.isComplete (t : Structure) : Bool :=
  t.place = .outside && t.outer.isEmpty && t.group.depth ≤ maxDepth

/-- Opens a group. -/
def Structure.openGroup (t : Structure) : Structure :=
  { t with place := .opened, group := .empty t.group.modes, outer := t.group :: t.outer }

/-- Closes a group; it becomes an item of the one around it. -/
def Structure.closeGroup? (t : Structure) : Option Structure :=
  match t.outer with
  | [] => none
  | g :: outer =>
    some { t with place := .outside, group := g.add (t.group.depth + 1) .item, outer }

/-- Adds a sign outside of classes. -/
def Structure.addSign? (t : Structure) (s : Sign) : Option Structure :=
  if t.group.modes.admits s then
    some { t with place := .outside, group := t.group.add 0 .item }
  else none

/-- Reads a character outside of classes and group heads. -/
def readOutside? (t : Structure) (c : Char) : Option Structure :=
  if c = '(' then some t.openGroup
  else if c = ')' then t.closeGroup?
  else if c = '[' then some { t with place := .within [] .empty .start }
  else if c = '|' then some { t with place := .outside, group := t.group.alternate }
  else if c = '*' || c = '+' || c = '?' then
    (t.group.sequence.repeat? c).map fun s => { t with group := { t.group with sequence := s } }
  else if c = '\x7b' then none
  else t.addSign? (.plain c)

/-- The letters that are flags. -/
def flagLetters : List Char := ['i', 'm', 's', 'U', 'u', 'R', 'x']

/-- Reads a character among flags.  Flags alone are no group: they hold from there to
the end of the group around them. -/
def readFlag? (t : Structure) (seen : List Char) (c : Char) : Option Structure :=
  let modes := t.group.modes.after seen.reverse
  if c = ')' then
    match t.outer with
    | [] => none
    | g :: outer =>
      if seen.isEmpty || seen.head? = some '-' then none
      else some { t with place := .outside, group := { g.add 0 .nothing with modes }, outer }
  else if c = ':' then
    if seen.head? = some '-' then none
    else some { t with place := .outside, group := { t.group with modes } }
  else if (c = '-' || flagLetters.contains c) && !seen.contains c then
    some { t with place := .flags (c :: seen) }
  else none

/-- Whether a character can stand in a group name. -/
def isNameChar (first : Bool) (c : Char) : Bool :=
  c = '_' || isAlphabetic c || !first && (isNumeric c || c = '.' || c = '[' || c = ']')

/-- Reads a character of a group name. -/
def readName? (t : Structure) (seen : List Char) (c : Char) : Option Structure :=
  if c = '>' then
    if seen.isEmpty || t.names.contains seen then none
    else some { t with place := .outside, names := seen :: t.names }
  else if isNameChar seen.isEmpty c then some { t with place := .name (c :: seen) }
  else none

/-- Makes a move in a class; the outermost class is an item of the group. -/
def Structure.move (t : Structure) (outer : List Items) (items : Items) (move : Move) :
    Structure :=
  let items := items.add move.items
  match move.turn, outer with
  | .stay spot, _ => { t with place := .within outer items spot }
  | .operate, _ => { t with place := .within outer items.operate .between }
  | .opens, _ => { t with place := .within (items :: outer) .empty .start }
  | .closes, is :: outer =>
    { t with place := .within outer (is.addClass (items.depth + 1)) .between }
  | .closes, [] => { t with place := .outside, group := t.group.add (items.depth + 1) .item }

/-- Reads the next sign; `rest` is what follows it. -/
def Structure.read? (t : Structure) (rest : List Char) (s : Sign) : Option Structure :=
  match t.place, s with
  | .within outer items spot, s =>
    (spot.read? t.group.modes rest s).map (t.move outer items)
  | .outside, .plain c => readOutside? t c
  | .opened, .plain c => if c = '?' then some { t with place := .head } else readOutside? t c
  | .head, .plain c =>
    if c = 'P' then some { t with place := .named }
    else if c = '<' then some { t with place := .name [] }
    else readFlag? t [] c
  | .named, .plain c => if c = '<' then some { t with place := .name [] } else none
  | .name seen, .plain c => readName? t seen c
  | .flags seen, .plain c => readFlag? t seen c
  | .outside, s | .opened, s => t.addSign? s
  | _, _ => none

/-- Skips a blank or the beginning of a comment, if there is something to skip at the
place. -/
def Structure.skip? (t : Structure) (comment : Bool) (rest : List Char) : Option Structure :=
  match t.place with
  | .outside => some { t with group := { t.group with sequence := t.group.sequence.skip } }
  | .opened => some t
  | .within outer items spot =>
    (spot.skip? t.group.modes comment rest).map (t.move outer items)
  | _ => none

/-! ### Characters -/

/-- How far an escape is read. -/
inductive Escape where
  | absent
  /-- After the backslash. -/
  | begun
  /-- In a code point of so many digits, before this many of them. -/
  | code (digits more value : Nat)
  deriving DecidableEq, Repr

/-- How far a pattern is read. -/
structure Reading where
  escape : Escape
  inComment : Bool
  known : Structure
  deriving DecidableEq, Repr

/-- The reading before the first character. -/
def Reading.start : Reading := ⟨.absent, false, .empty⟩

/-- Takes the sign that characters turn out to be. -/
def Reading.take? (r : Reading) (rest : List Char) (s : Sign) : Option Reading :=
  (r.known.read? rest s).map fun t => ⟨.absent, false, t⟩

/-- Reads a character of an escape. -/
def Reading.readEscape? (r : Reading) (c : Char) (rest : List Char) : Option Reading :=
  match codeLength? c with
  | some n => some { r with escape := .code n n 0 }
  | none => (escaped? c).bind (r.take? rest)

/-- Reads a digit of a code point. -/
def Reading.readDigit? (r : Reading) (digits more value : Nat) (c : Char) (rest : List Char) :
    Option Reading :=
  match hexDigit? c with
  | none => none
  | some d =>
    let value := 16 * value + d
    if 1 < more then some { r with escape := .code digits (more - 1) value }
    else (ofCode? digits value).bind (r.take? rest)

/-- Whether a character can be skipped: a blank or the mark of a comment, where the
modes allow them and not within an escape, a name or flags. -/
def Reading.skips (r : Reading) (c : Char) : Bool :=
  r.known.group.modes.spaced && (isBlank c || c = '#') && r.escape != .begun &&
    match r.known.place with
    | .outside | .opened | .within .. => true
    | _ => false

/-- Reads the next character; `rest` is what follows it. -/
def Reading.step? (r : Reading) (c : Char) (rest : List Char) : Option Reading :=
  if r.inComment then some { r with inComment := c != '\n' }
  else if r.skips c then
    match r.escape with
    | .absent => (r.known.skip? (c = '#') rest).map fun t => ⟨.absent, c = '#', t⟩
    | _ => some { r with inComment := c = '#' }
  else
    match r.escape with
    | .absent => if c = '\\' then some { r with escape := .begun } else r.take? rest (.plain c)
    | .begun => r.readEscape? c rest
    | .code digits more value => r.readDigit? digits more value c rest

/-- Reads a text. -/
def Reading.read? : Reading → List Char → Option Reading
  | r, [] => some r
  | r, c :: rest => (r.step? c rest).bind (Reading.read? · rest)

/-- Whether a pattern can end here. -/
def Reading.isComplete (r : Reading) : Bool := r.escape == .absent && r.known.isComplete

end Pattern

/-- Whether a text is a regular expression that can be searched for. -/
def isPattern (cs : List Char) : Bool :=
  (Pattern.Reading.start.read? cs).any Pattern.Reading.isComplete

end SymbolRenaming.LogFilter
