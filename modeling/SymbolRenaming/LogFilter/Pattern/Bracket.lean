/-
SymbolRenaming/LogFilter/Pattern/Bracket.lean

Bracketed classes of characters.

Design.  A class is read sign by sign; the place within the brackets (`Spot`)
tells what the next sign can mean.  A dash makes a range of the characters on both
sides, but not at the ends of a class; two dashes, ampersands or tildes are
operators; a bracket opens a class within the class, or is the beginning of a
named class.  Where blanks can stand between the parts of a class, what follows a
dash is looked for behind them.  How deep classes and operators are nested is
counted on the way (`Items`).
-/
import SymbolRenaming.LogFilter.Pattern.Sign

namespace SymbolRenaming.LogFilter.Pattern

open Text

/-! ### Depth -/

/-- The items of a class so far: their number and depth since the last operator,
and the depth of what stands before it. -/
structure Items where
  count : Nat
  deepest : Nat
  left : Option Nat
  deriving DecidableEq, Repr

namespace Items

/-- No items. -/
def empty : Items := ⟨0, 0, none⟩

/-- Adds items that nothing is nested in. -/
def add (is : Items) (n : Nat) : Items := { is with count := is.count + n }

/-- Adds a class. -/
def addClass (is : Items) (depth : Nat) : Items :=
  { is with count := is.count + 1, deepest := max is.deepest depth }

/-- How deep the items are nested.  Several items are one level deeper than one,
and so are the two sides of an operator. -/
def depth (is : Items) : Nat :=
  let right := if is.count ≤ 1 then is.deepest else is.deepest + 1
  match is.left with
  | none => right
  | some left => max left right + 1

/-- Ends the left side of an operator. -/
def operate (is : Items) : Items := ⟨0, 0, some is.depth⟩

end Items

/-! ### Places -/

/-- What was skipped before a sign. -/
inductive Gap where
  | nothing | blanks | comment
  deriving DecidableEq, Repr

/-- A place within brackets. -/
inductive Spot where
  /-- After the opening bracket. -/
  | start
  /-- After the caret behind the opening bracket. -/
  | negated
  /-- After dashes at the beginning. -/
  | dashes
  /-- Where no range can be under way. -/
  | between
  /-- Within the brackets of a named class. -/
  | named
  /-- After a mark that is an operator if it stands twice. -/
  | single (mark : Char)
  /-- After an item; a range can begin at a character. -/
  | item (low : Option Char)
  /-- After an item and a dash. -/
  | range (low : Option Char) (gap : Gap)
  deriving DecidableEq, Repr

/-- Where a sign leads. -/
inductive Turn where
  | stay (spot : Spot)
  | operate
  | opens
  | closes
  deriving DecidableEq, Repr

/-- What a sign does within brackets: how many items it makes certain, and where it
leads. -/
structure Move where
  items : Nat
  turn : Turn
  deriving DecidableEq, Repr

/-! ### Named classes -/

/-- The names of classes of ASCII characters. -/
def classNames : List String :=
  ["alnum", "alpha", "ascii", "blank", "cntrl", "digit", "graph", "lower", "print", "punct",
   "space", "upper", "word", "xdigit"]

/-- Whether a named class stands behind an opening bracket, and if so whether it is
negated. -/
def namedClass? : List Char → Option Bool
  | ':' :: r =>
    let negated := r.head? = some '^'
    let r := if negated then r.tail else r
    let name := r.takeWhile (· != ':')
    if classNames.contains (.ofList name) && (r.drop name.length).take 2 = [':', ']'] then
      some negated
    else none
  | _ => none

/-- Whether a named class can stand in a class. -/
def Modes.admitsNamed (m : Modes) (negated : Bool) : Bool :=
  m.comparesCharacters && (m.unicode || !negated)

/-! ### Reading -/

/-- Reads a sign where no range can be under way; `rest` is what follows it. -/
def beginItem? (m : Modes) (rest : List Char) (s : Sign) : Option Move :=
  if s = .plain '[' then
    match namedClass? rest with
    | some negated => if m.admitsNamed negated then some ⟨1, .stay .named⟩ else none
    | none => some ⟨0, .opens⟩
  else if s = .plain ']' then some ⟨0, .closes⟩
  else if s = .plain '&' then some ⟨0, .stay (.single '&')⟩
  else if s = .plain '-' then some ⟨0, .stay (.single '-')⟩
  else if s = .plain '~' then some ⟨0, .stay (.single '~')⟩
  else if m.admitsItem s then some ⟨1, .stay (.item s.char?)⟩
  else none

/-- Reads a sign after an item. -/
def afterItem? (m : Modes) (rest : List Char) (low : Option Char) (s : Sign) : Option Move :=
  if s = .plain '-' then some ⟨0, .stay (.range low .nothing)⟩ else beginItem? m rest s

/-- Reads the end of a range, which lies not below its beginning. -/
def endRange? (m : Modes) (low : Option Char) (s : Sign) : Option Move :=
  match low, s.char? with
  | some l, some h => if l ≤ h && m.admitsItem s then some ⟨0, .stay .between⟩ else none
  | _, _ => none

/-- Reads a sign within brackets; `rest` is what follows it. -/
def Spot.read? (m : Modes) (rest : List Char) (spot : Spot) (s : Sign) : Option Move :=
  match spot with
  | .start =>
    if s = .plain '^' then if m.unicode then some ⟨0, .stay .negated⟩ else none
    else if s = .plain '-' && m.admitsItem s then some ⟨1, .stay .dashes⟩
    else if s = .plain ']' && m.admitsItem s then some ⟨1, .stay .between⟩
    else if s = .plain '-' || s = .plain ']' then none
    else beginItem? m rest s
  | .negated =>
    if s = .plain '-' && m.admitsItem s then some ⟨1, .stay .dashes⟩
    else if s = .plain ']' && m.admitsItem s then some ⟨1, .stay .between⟩
    else if s = .plain '-' || s = .plain ']' then none
    else beginItem? m rest s
  | .dashes => if s = .plain '-' then some ⟨1, .stay .dashes⟩ else beginItem? m rest s
  | .between => beginItem? m rest s
  | .named => some ⟨0, .stay (if s = .plain ']' then .between else .named)⟩
  | .single c =>
    if s = .plain c then some ⟨0, .operate⟩
    else if m.admitsItem (.plain c) then
      (afterItem? m rest (some c) s).map fun move => { move with items := move.items + 1 }
    else none
  | .item low => afterItem? m rest low s
  | .range low .nothing =>
    if s = .plain ']' then some ⟨1, .closes⟩
    else if s = .plain '-' then some ⟨0, .operate⟩
    else endRange? m low s
  | .range low .blanks =>
    if s = .plain ']' then some ⟨1, .closes⟩
    else if s = .plain '-' then some ⟨1, .stay (.range (some '-') .nothing)⟩
    else endRange? m low s
  | .range low .comment => endRange? m low s

/-- Skips a blank, or the mark that a comment begins with, within brackets; `rest`
is what follows it.  A mark that stands before it is an item.  A dash is one too if
the comment after it begins with what would make it one. -/
def Spot.skip? (m : Modes) (comment : Bool) (rest : List Char) (spot : Spot) : Option Move :=
  match spot with
  | .single c => if m.admitsItem (.plain c) then some ⟨1, .stay (.item (some c))⟩ else none
  | .range low .comment => some ⟨0, .stay (.range low .comment)⟩
  | .range low _ =>
    if !comment then some ⟨0, .stay (.range low .blanks)⟩
    else if (rest.dropWhile isBlank).head?.any (['-', ']'].contains ·) then
      some ⟨1, .stay (.item (some '-'))⟩
    else some ⟨0, .stay (.range low .comment)⟩
  | spot => some ⟨0, .stay spot⟩

end SymbolRenaming.LogFilter.Pattern
