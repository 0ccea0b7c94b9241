/-
SymbolRenaming/Toml/Scalar.lean

Numbers, moments and truth values of a TOML document.

Design.  Such a value is a run of letters, digits and the signs `+ - . : _`, so
the run is cut out first and then judged as a whole.  A date and a time may
also stand on both sides of one blank.  Digits may be grouped by single
underscores.  A number is kept as it is written; a moment is kept in its usual
spelling, with a capital `T` and no zeros at the end of its fraction.
-/
import SymbolRenaming.Text.Split
import SymbolRenaming.Toml.Quoted
import SymbolRenaming.Toml.Value

namespace SymbolRenaming.Toml

open Text

/-! ### Numbers -/

/-- Whether the characters are digits, perhaps with single underscores between. -/
def isDigitGroup (isDigit : Char → Bool) : List Char → Bool
  | [] => false
  | [c] => isDigit c
  | c :: d :: cs =>
    if d = '_' then isDigit c && isDigitGroup isDigit cs
    else isDigit c && isDigitGroup isDigit (d :: cs)

/-- The characters without a sign in front. -/
def dropSign : List Char → List Char
  | '+' :: cs => cs
  | '-' :: cs => cs
  | cs => cs

/-- The number that digits of a base form; underscores do not count. -/
def digitsValue (base : Nat) (cs : List Char) : Nat :=
  (cs.filterMap hexValue?).foldl (fun n d => base * n + d) 0

/-- Whether the digits form a whole number without superfluous zeros in front. -/
def isDecimalGroup (cs : List Char) : Bool :=
  isDigitGroup Char.isDigit cs && (cs.length == 1 || cs.head? != some '0')

/-- The least natural number that is no signed integer of 64 bits. -/
def integerBound : Nat := Nat.pow 2 63

/-- Whether the characters form an integer of 64 bits. -/
def isInteger (cs : List Char) : Bool :=
  match cs with
  | '0' :: 'x' :: digits =>
    isDigitGroup (fun c => (hexValue? c).isSome) digits && digitsValue 16 digits < integerBound
  | '0' :: 'o' :: digits =>
    isDigitGroup (fun c => '0' ≤ c && c ≤ '7') digits && digitsValue 8 digits < integerBound
  | '0' :: 'b' :: digits =>
    isDigitGroup (fun c => c == '0' || c == '1') digits && digitsValue 2 digits < integerBound
  | _ =>
    -- the least integer is one further from zero than the greatest
    let bound := if cs.head? = some '-' then integerBound + 1 else integerBound
    isDecimalGroup (dropSign cs) && digitsValue 10 (dropSign cs) < bound

/-- Whether the characters form the exponent of a floating-point number. -/
def isExponent (cs : List Char) : Bool := isDigitGroup Char.isDigit (dropSign cs)

/-- The digits before and after the point of a decimal number; a number without
a point has none after it. -/
def mantissaParts? (mantissa : List Char) : Option (List Char × List Char) :=
  match pieces (· == '.') mantissa with
  | [whole] => if isDecimalGroup whole then some (whole, []) else none
  | [whole, fraction] =>
    if isDecimalGroup whole && isDigitGroup Char.isDigit fraction then some (whole, fraction)
    else none
  | _ => none

/-- The parts of a floating-point number without its sign: the digits before the
point, those after it, and the exponent.  There is a point or an exponent. -/
def floatParts? (body : List Char) : Option (List Char × List Char × List Char) :=
  match pieces (fun c => c == 'e' || c == 'E') body with
  | [mantissa, exponent] =>
    if isExponent exponent then
      (mantissaParts? mantissa).map fun (whole, fraction) => (whole, fraction, exponent)
    else none
  | [mantissa] =>
    if mantissa.contains '.' then
      (mantissaParts? mantissa).map fun (whole, fraction) => (whole, fraction, [])
    else none
  | _ => none

/-- The least number that is rounded up to infinity by a format of 64 bits. -/
def floatBound : Nat := Nat.pow 2 1024 - Nat.pow 2 970

/-- The number of an exponent. -/
def exponentValue (cs : List Char) : Int :=
  if cs.head? = some '-' then -(digitsValue 10 (dropSign cs)) else digitsValue 10 (dropSign cs)

/-- Whether digits, of which the first `point` stand before the point, form a
number that is at least the bound. -/
def reaches (bound : Nat) (digits : List Char) (point : Int) : Bool :=
  let significant := digits.dropWhile (· == '0')
  let zeros := digits.length - significant.length
  let size := (Nat.toDigits 10 bound).length
  -- unless they have equally many digits before the point, those decide
  if significant.isEmpty then false
  else if point - zeros ≠ size then (size : Int) < point - zeros
  else
    bound * Nat.pow 10 (significant.length - size)
      ≤ digitsValue 10 significant * Nat.pow 10 (size - significant.length)

/-- Whether the characters form a floating-point number; one that is too large
has to be negative. -/
def isFloat (cs : List Char) : Bool :=
  let body := dropSign cs
  if body = ['i', 'n', 'f'] ∨ body = ['n', 'a', 'n'] then true
  else
    match floatParts? body with
    | some (whole, fraction, exponent) =>
      let digits := (whole ++ fraction).filter Char.isDigit
      let point := (whole.filter Char.isDigit).length + exponentValue exponent
      cs.head? = some '-' || !reaches floatBound digits point
    | none => false

/-! ### Moments -/

/-- The number that two digits form. -/
def twoDigits? (a b : Char) : Option Nat :=
  if a.isDigit && b.isDigit then some (10 * (a.toNat - 48) + (b.toNat - 48)) else none

/-- How many days a month has. -/
def daysInMonth (year month : Nat) : Nat :=
  if month = 2 then
    if (year % 4 = 0 ∧ year % 100 ≠ 0) ∨ year % 400 = 0 then 29 else 28
  else if month = 4 ∨ month = 6 ∨ month = 9 ∨ month = 11 then 30
  else 31

/-- Reads a date off the front of the characters; gives it and what follows. -/
def readDate? : List Char → Option (List Char × List Char)
  | y1 :: y2 :: y3 :: y4 :: '-' :: m1 :: m2 :: '-' :: d1 :: d2 :: rest => do
    let century ← twoDigits? y1 y2
    let year ← twoDigits? y3 y4
    let month ← twoDigits? m1 m2
    let day ← twoDigits? d1 d2
    if 1 ≤ month ∧ month ≤ 12 ∧ 1 ≤ day ∧ day ≤ daysInMonth (100 * century + year) month then
      some ([y1, y2, y3, y4, '-', m1, m2, '-', d1, d2], rest)
    else none
  | _ => none

/-- The fraction of a second in its usual spelling: nine digits at most, and no
zeros at its end. -/
def fractionText (digits : List Char) : List Char :=
  let kept := ((digits.take 9).reverse.dropWhile (· == '0')).reverse
  if kept.isEmpty then [] else '.' :: kept

/-- Reads a time of day off the front of the characters. -/
def readTime? : List Char → Option (List Char × List Char)
  | h1 :: h2 :: ':' :: m1 :: m2 :: ':' :: s1 :: s2 :: rest => do
    let hour ← twoDigits? h1 h2
    let minute ← twoDigits? m1 m2
    let second ← twoDigits? s1 s2
    if hour ≤ 23 ∧ minute ≤ 59 ∧ second ≤ 60 then
      let clock := [h1, h2, ':', m1, m2, ':', s1, s2]
      match rest with
      | '.' :: more =>
        let digits := more.takeWhile Char.isDigit
        if digits.isEmpty then none
        else some (clock ++ fractionText digits, more.dropWhile Char.isDigit)
      | _ => some (clock, rest)
    else none
  | _ => none

/-- Reads a distance from universal time that is all of the characters. -/
def readOffset? : List Char → Option (List Char)
  | [] => some []
  | ['Z'] => some ['Z']
  | ['z'] => some ['Z']
  | [sign, h1, h2, ':', m1, m2] => do
    let hour ← twoDigits? h1 h2
    let minute ← twoDigits? m1 m2
    if (sign = '+' ∨ sign = '-') ∧ hour ≤ 23 ∧ minute ≤ 59 then
      some ((if hour = 0 ∧ minute = 0 then '+' else sign) :: [h1, h2, ':', m1, m2])
    else none
  | _ => none

/-- Reads characters that are a date, a time of day, or both with or without a
distance from universal time. -/
def readMoment? (cs : List Char) : Option (List Char) :=
  match readDate? cs with
  | some (date, []) => some date
  | some (date, delimiter :: rest) =>
    if delimiter = 'T' ∨ delimiter = 't' ∨ delimiter = ' ' then do
      let (time, offset) ← readTime? rest
      let offset ← readOffset? offset
      some (date ++ 'T' :: time ++ offset)
    else none
  | none =>
    match readTime? cs with
    | some (time, []) => some time
    | _ => none

/-! ### Cutting out and judging -/

/-- Whether a character can be part of a number, a moment or a truth value. -/
def isScalarPart (c : Char) : Bool :=
  c.isAlphanum || c == '+' || c == '-' || c == '.' || c == ':' || c == '_'

/-- Cuts out the run that is to be judged: a blank is part of it where a date
stands before it and a time of day after it. -/
def cutScalar (cs : List Char) : List Char × List Char :=
  let first := cs.takeWhile isScalarPart
  let rest := cs.dropWhile isScalarPart
  match readDate? first, rest with
  | some (_, []), ' ' :: more =>
    let second := more.takeWhile isScalarPart
    if (readTime? second).isSome then
      (first ++ ' ' :: second, more.dropWhile isScalarPart)
    else (first, rest)
  | _, _ => (first, rest)

/-- Judges a run. -/
def scalarOf? (cs : List Char) : Option Value :=
  if cs = ['t', 'r', 'u', 'e'] then some (.boolean true)
  else if cs = ['f', 'a', 'l', 's', 'e'] then some (.boolean false)
  else if isInteger cs || isFloat cs then some (.number (.ofList cs))
  else (readMoment? cs).map fun m => .moment (.ofList m)

/-- Reads a value that is no string, array or table off the front of a text. -/
def readScalar? (cs : List Char) : Option (Value × List Char) :=
  let cut := cutScalar cs
  if cut.1.isEmpty then none else (scalarOf? cut.1).map (·, cut.2)

end SymbolRenaming.Toml
