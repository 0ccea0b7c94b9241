/-
SymbolRenaming/Mappings/Rules.lean

Mappings computed by rules, and the rule that moves whole packages.

Design.  Each kind of symbol has at most one rule, and a rule may leave a
symbol alone.  A member's types are renamed by the class rule; the member rules
give names only.  Nothing is listed, so rules can be neither frozen nor turned
round.

Main result: the package rule moves exactly the classes of the named packages
and keeps their simple names (`renameClass_packages`).
-/
import SymbolRenaming.Mappings.Frozen

namespace SymbolRenaming

open Text

/-- A rule for each kind of symbol, if there is one. -/
structure Rules where
  classRule : Option (ClassName → Option ClassName) := none
  methodRule : Option (MethodSymbol → Option String) := none
  fieldRule : Option (FieldSymbol → Option String) := none

namespace Rules

/-- Rules that rename nothing. -/
def empty : Rules := {}

instance : Inhabited Rules := ⟨empty⟩

/-- What a class becomes. -/
def renameClass (m : Rules) (c : ClassName) : ClassName :=
  (m.classRule.bind fun rule => rule c).getD c

/-- What a method becomes. -/
def renameMethod (m : Rules) (x : MethodSymbol) : MethodSymbol :=
  let renamed := x.mapClasses m.renameClass
  match m.methodRule.bind fun rule => rule x with
  | some name => renamed.withName name
  | none => renamed

/-- What a field becomes. -/
def renameField (m : Rules) (x : FieldSymbol) : FieldSymbol :=
  let renamed := x.mapClasses m.renameClass
  match m.fieldRule.bind fun rule => rule x with
  | some name => renamed.withName name
  | none => renamed

/-- The contract of rules: nothing is listed. -/
def contract (m : Rules) : Renaming where
  renameClass := m.renameClass
  renameMethod := m.renameMethod
  renameField := m.renameField
  classes := []
  methods := []
  fields := []

/-- Which rules are set. -/
def text (m : Rules) : String :=
  let flag := fun (b : Bool) => if b then "true" else "false"
  "RenamingMappings \x7b classes: " ++ flag m.classRule.isSome
    ++ ", methods: " ++ flag m.methodRule.isSome
    ++ ", fields: " ++ flag m.fieldRule.isSome ++ " \x7d"

/-! ### Moving packages -/

/-- A slash or a dot, the two separators of a package name. -/
def isPackageSeparator (c : Char) : Bool := c == '/' || c == '.'

/-- The one spelling of a package: blanks and separators at the ends are
dropped, and dots become slashes. -/
def packagePath (s : String) : String :=
  .ofList ((trimBy isPackageSeparator (trim s.toList)).map fun c => if c = '.' then '/' else c)

/-- Where each package goes; the last pair for a package wins. -/
def packageTable (pairs : List (String × String)) : Table String String :=
  .ofList (pairs.map fun p => (packagePath p.1, packagePath p.2))

/-- Moves the classes of the named packages; subpackages stay. -/
def packages (pairs : List (String × String)) : Rules :=
  let table := packageTable pairs
  { classRule := some fun c => (table.get? c.package).map c.withPackage }

/-- What is told when a package rule is made. -/
def packagesNotice (pairs : List (String × String)) : Notice :=
  .packageRuleCreated (packageTable pairs).size

theorem renameClass_packages (pairs : List (String × String)) (c : ClassName) :
    (packages pairs).renameClass c
      = match (packageTable pairs).get? c.package with
        | some target => c.withPackage target
        | none => c := by
  rcases e : (packageTable pairs).get? c.package with - | target <;>
    simp [packages, renameClass, e]

end Rules

end SymbolRenaming
