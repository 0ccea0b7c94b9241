/-
SymbolRenaming/ClassName.lean

Internal names of classes, such as `java/lang/String`.

Design.  A class name is a text; its package is what stands before the last
slash, and the default package is the empty text.  Whether the text is well
formed is a separate predicate, so that tables can hold names nobody checked.
A well-formed name is a sequence of non-empty segments between slashes, none
with a character that delimits a descriptor or a column.

Main results: a class name that is put together has the package and the simple
name that it was made from (`package_ofPackage`, `simpleName_ofPackage`), and
moving a class keeps its simple name (`simpleName_withPackage`).
-/
import SymbolRenaming.Text.Blank
import SymbolRenaming.Text.Split

namespace SymbolRenaming

open Text

/-- The internal name of a class. -/
structure ClassName where
  text : String
  deriving DecidableEq, Ord, Repr

namespace ClassName

instance : ToString ClassName := ⟨text⟩

/-- The characters of the name. -/
def chars (c : ClassName) : List Char := c.text.toList

/-- The part before the last slash; the default package is empty. -/
def package (c : ClassName) : String :=
  match splitAtLast '/' c.chars with
  | some (before, _) => .ofList before
  | none => ""

/-- The part after the last slash. -/
def simpleName (c : ClassName) : String :=
  match splitAtLast '/' c.chars with
  | some (_, after) => .ofList after
  | none => c.text

/-- The class with a simple name in a package. -/
def ofPackage (package simpleName : String) : ClassName :=
  if package.isEmpty then ⟨simpleName⟩ else ⟨package ++ "/" ++ simpleName⟩

/-- Moves the class into a package. -/
def withPackage (c : ClassName) (package : String) : ClassName :=
  ofPackage package c.simpleName

/-! ### Well-formed names -/

/-- The characters that end a class name inside a descriptor or a record. -/
def isDelimiter (c : Char) : Bool :=
  c == ';' || c == '[' || c == '(' || c == ')' || c == '.' || c == '<' || c == '>' || isBlank c

/-- Whether the characters form a well-formed internal name. -/
def isWellFormedChars (cs : List Char) : Bool :=
  (pieces (· == '/') cs).all (!·.isEmpty) && cs.all (!isDelimiter ·)

/-- Whether the text is a well-formed internal name. -/
def isWellFormed (c : ClassName) : Bool := isWellFormedChars c.chars

/-! ### Small facts -/

theorem not_mem_simpleName (c : ClassName) : '/' ∉ c.simpleName.toList := by
  rcases e : splitAtLast '/' c.chars with - | ⟨a, b⟩
  · simp only [simpleName, e]
    exact splitAtLast_eq_none_iff.1 e
  · simp only [simpleName, e, String.toList_ofList]
    exact (splitAtLast_eq_some_iff.1 e).2

theorem simpleName_ofPackage {p n : String} (h : '/' ∉ n.toList) :
    (ofPackage p n).simpleName = n := by
  by_cases hp : p.isEmpty
  · have e : splitAtLast '/' n.toList = none := splitAtLast_eq_none_iff.2 h
    simp [ofPackage, hp, simpleName, chars, e]
  · have e : splitAtLast '/' (p.toList ++ '/' :: n.toList) = some (p.toList, n.toList) :=
      splitAtLast_eq_some_iff.2 ⟨rfl, h⟩
    simp [ofPackage, hp, simpleName, chars, e]

/-- Moving a class keeps its simple name. -/
theorem simpleName_withPackage (c : ClassName) (p : String) :
    (c.withPackage p).simpleName = c.simpleName :=
  simpleName_ofPackage c.not_mem_simpleName

theorem package_ofPackage {p n : String} (h : '/' ∉ n.toList) :
    (ofPackage p n).package = p := by
  by_cases hp : p.isEmpty
  · have e : splitAtLast '/' n.toList = none := splitAtLast_eq_none_iff.2 h
    simp [ofPackage, package, chars, e, String.isEmpty_iff.1 hp]
  · have e : splitAtLast '/' (p.toList ++ '/' :: n.toList) = some (p.toList, n.toList) :=
      splitAtLast_eq_some_iff.2 ⟨rfl, h⟩
    simp [ofPackage, hp, package, chars, e]

/-- A class moved into a package is in it. -/
theorem package_withPackage (c : ClassName) (p : String) : (c.withPackage p).package = p :=
  package_ofPackage c.not_mem_simpleName

end ClassName

end SymbolRenaming
