/-
SymbolRenaming/Text/Lines.lean

Lines of a text or of a byte sequence.

Design.  A line ends at a line feed, and one carriage return directly before
that line feed belongs to the line ending.  What follows the last line feed is
a line only if it is not empty, and keeps a trailing carriage return.  The
rule is the same for characters and for bytes, so one function serves both.
-/

namespace SymbolRenaming.Text

variable {α : Type} [DecidableEq α]

/-- Puts an element in front of the first line. -/
def extendLine (a : α) : List (List α) → List (List α)
  | [] => [[a]]
  | l :: ls => (a :: l) :: ls

/-- The lines of a sequence, given its line feed and its carriage return. -/
def splitLines (lf cr : α) : List α → List (List α)
  | [] => []
  | [a] => if a = lf then [[]] else [[a]]
  | a :: b :: rest =>
    if a = lf then [] :: splitLines lf cr (b :: rest)
    else if a = cr ∧ b = lf then splitLines lf cr (b :: rest)
    else extendLine a (splitLines lf cr (b :: rest))

/-! ### Texts and bytes -/

/-- The lines of a text. -/
def lines (s : String) : List String :=
  (splitLines '\n' '\r' s.toList).map .ofList

/-- The lines of a byte sequence; `none` stands for a line that is not UTF-8. -/
def decodedLines (bytes : List UInt8) : List (Option String) :=
  (splitLines 10 13 bytes).map fun l => String.fromUTF8? ⟨l.toArray⟩

/-- The text of bytes that a cut may have left without the end of their last
character; a mark stands for what is left of that character. -/
def decodeTruncated (bytes : List UInt8) : String :=
  let attempts := [0, 1, 2, 3].filterMap fun n =>
    (String.fromUTF8? ⟨(bytes.take (bytes.length - n)).toArray⟩).map
      fun s => if n = 0 then s else s ++ "\ufffd"
  attempts.head?.getD ""

end SymbolRenaming.Text
