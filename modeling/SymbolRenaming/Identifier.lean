/-
SymbolRenaming/Identifier.lean

Identifiers: the names a field or a method can have in a source file.

Design.  An identifier starts with a letter, an underscore or a dollar sign and
goes on with those and numbers.  Letters and numbers are the Unicode classes;
keywords are identifiers too.

Main results: an identifier is not empty (`isIdentifier_ne_nil`), and none of its
characters is a blank (`isIdentifierPart_of_mem`, `not_isBlank_of_isIdentifierPart`).
-/
import SymbolRenaming.Text.Alphabet

namespace SymbolRenaming

open Text

/-- Whether a character can start an identifier. -/
def isIdentifierStart (c : Char) : Bool := isAlphabetic c || c == '_' || c == '$'

/-- Whether a character can stand inside an identifier. -/
def isIdentifierPart (c : Char) : Bool := isIdentifierStart c || isNumeric c

/-- Whether the characters form an identifier. -/
def isIdentifier : List Char → Bool
  | [] => false
  | c :: cs => isIdentifierStart c && cs.all isIdentifierPart

/-- Whether a text is an identifier. -/
def isIdentifierText (s : String) : Bool := isIdentifier s.toList

theorem isIdentifier_ne_nil {cs : List Char} (h : isIdentifier cs) : cs ≠ [] := by
  rintro rfl
  simp [isIdentifier] at h

theorem isIdentifierPart_of_mem {cs : List Char} (h : isIdentifier cs) :
    ∀ c ∈ cs, isIdentifierPart c := by
  rcases cs with - | ⟨c, cs⟩
  · simp
  · simp only [isIdentifier, Bool.and_eq_true, List.all_eq_true] at h
    intro x hx
    rcases List.mem_cons.1 hx with rfl | hx
    · simp [isIdentifierPart, h.1]
    · exact h.2 x hx

theorem not_isBlank_of_isIdentifierPart {c : Char} (h : isIdentifierPart c) :
    isBlank c = false := by
  rcases hb : isBlank c with - | -
  · rfl
  · have hu : c ≠ '_' := by rintro rfl; simp [isBlank, blankCodes] at hb
    have hd : c ≠ '$' := by rintro rfl; simp [isBlank, blankCodes] at hb
    simp [isIdentifierPart, isIdentifierStart, isAlphabetic_of_isBlank hb,
      isNumeric_of_isBlank hb, hu, hd] at h

end SymbolRenaming
