/-
SymbolRenaming/Format/Codec.lean

Reading and writing mappings in either format.

Design.  All entry points for reading come down to one run over lines; they
differ in where the lines come from.  Writing lists the explicit entries:
classes, then fields, then methods, each kind in the order of its table.

Main result: writing to any sink is writing the whole text to it
(`writeTo_eq_write`), so a sink that stops after some characters has taken the
text up to there.
-/
import SymbolRenaming.Format
import SymbolRenaming.Format.Compact
import SymbolRenaming.Format.Sink
import SymbolRenaming.Format.Tagged
import SymbolRenaming.Text.Lines

namespace SymbolRenaming.Format

/-! ### Reading -/

/-- Reads lines, some of which may not be UTF-8. -/
def readLines (f : Format) (lines : List (Option String)) : Noted (Except ReadError Frozen) :=
  match f with
  | tagged => Tagged.reader.read lines
  | compact => Compact.reader.read lines

/-- Reads lines of text. -/
def parseLines (f : Format) (lines : List String) : Noted (Except ReadError Frozen) :=
  f.readLines (lines.map some)

/-- Reads the lines of a text. -/
def parse (f : Format) (text : String) : Noted (Except ReadError Frozen) :=
  f.parseLines (Text.lines text)

/-- Reads the lines of a byte sequence. -/
def parseBytes (f : Format) (bytes : List UInt8) : Noted (Except ReadError Frozen) :=
  f.readLines (Text.decodedLines bytes)

/-! ### Writing -/

/-- The pieces in which the line for a class is written. -/
def classPieces : Format → ClassName × ClassName → List String
  | tagged => Tagged.classPieces
  | compact => Compact.classPieces

/-- The pieces in which the line for a field is written. -/
def fieldPieces : Format → FieldSymbol × FieldSymbol → List String
  | tagged => Tagged.fieldPieces
  | compact => Compact.fieldPieces

/-- The pieces in which the line for a method is written. -/
def methodPieces : Format → MethodSymbol × MethodSymbol → List String
  | tagged => Tagged.methodPieces
  | compact => Compact.methodPieces

/-- The line for a class. -/
def classLine (f : Format) (e : ClassName × ClassName) : String := .join (f.classPieces e)

/-- The line for a field. -/
def fieldLine (f : Format) (e : FieldSymbol × FieldSymbol) : String := .join (f.fieldPieces e)

/-- The line for a method. -/
def methodLine (f : Format) (e : MethodSymbol × MethodSymbol) : String := .join (f.methodPieces e)

/-- The records of mappings, section by section, each in its pieces, of which the
line feed is the last. -/
def sections (f : Format) (r : Renaming) : List (List (List String)) :=
  [r.classEntries.map fun e => f.classPieces e ++ ["\n"],
   r.fieldEntries.map fun e => f.fieldPieces e ++ ["\n"],
   r.methodEntries.map fun e => f.methodPieces e ++ ["\n"]]

/-- The text of mappings, as characters. -/
def renderChars (f : Format) (r : Renaming) : List Char :=
  (f.sections r).flatten.flatten.flatMap String.toList

/-- The text of mappings. -/
def render (f : Format) (r : Renaming) : String := .ofList (f.renderChars r)

/-- The lines of the text of mappings. -/
def toLines (f : Format) (r : Renaming) : List String := Text.lines (f.render r)

/-- Writes mappings to a sink; the second part tells whether all was taken. -/
def writeTo {σ : Type} (f : Format) (r : Renaming) (k : Sink σ) (s : σ) : σ × Bool :=
  k.writeSections s (f.sections r)

/-- Writes the text of mappings to a place for bytes; the second part tells why
this failed, if it did. -/
def writeIo {σ : Type} (f : Format) (r : Renaming) (k : ByteSink σ) (s : σ) :
    σ × Option IoFailure :=
  k.writeAll s (f.render r).toUTF8.toList

/-- Writes mappings into a buffer of a number of bytes: what the buffer holds,
and why writing failed, if it did. -/
def writeBytes (f : Format) (r : Renaming) (capacity : Nat) : List UInt8 × Option IoFailure :=
  let written := f.writeIo r ByteSink.limited ⟨capacity, []⟩
  (written.1.held, written.2)

theorem writeTo_eq_write {σ : Type} (f : Format) (r : Renaming) (k : Sink σ) (s : σ) :
    f.writeTo r k s = k.write s (f.renderChars r) :=
  k.writeSections_eq_write s (f.sections r)

end SymbolRenaming.Format
