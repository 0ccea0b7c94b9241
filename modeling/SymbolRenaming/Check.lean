/-
SymbolRenaming/Check.lean

The check of mappings: are the new names names that a source file can have, and
do the members fit the classes?

Design.  A report counts the entries and lists the problems: those of the
classes, of the fields and of the methods, each kind in the order of its table,
and then the first inconsistency, if there is one.
-/
import SymbolRenaming.Data
import SymbolRenaming.Identifier
import SymbolRenaming.Mappings

namespace SymbolRenaming

open Text

/-! ### Good names -/

/-- Whether every segment of a class name is an identifier. -/
def ClassName.isSourceName (c : ClassName) : Bool := (pieces (· == '/') c.chars).all isIdentifier

/-- Whether a method name is an identifier, or one of the two names that a
compiler gives. -/
def isMethodName (name : String) : Bool :=
  name == "<init>" || name == "<clinit>" || isIdentifierText name

/-! ### Problems -/

/-- A problem with an entry, or with the mappings as a whole; then the names are
empty. -/
structure Problem where
  kind : String
  old : String := ""
  renamed : String := ""
  message : String
  deriving DecidableEq, Repr

/-- The problem with a class, if there is one. -/
def classProblem? (e : ClassName × ClassName) : Option Problem :=
  if e.2.isSourceName then none
  else some ⟨"class", e.1.text, e.2.text, "renamed class is not a valid Java name"⟩

/-- The problem with a field, if there is one. -/
def fieldProblem? (e : FieldSymbol × FieldSymbol) : Option Problem :=
  if isIdentifierText e.2.name then none
  else some ⟨"field", e.1.internalName, e.2.internalName,
    "renamed field is not a valid Java identifier"⟩

/-- The problem with a method, if there is one. -/
def methodProblem? (e : MethodSymbol × MethodSymbol) : Option Problem :=
  if isMethodName e.2.name then none
  else some ⟨"method", e.1.text, e.2.text, "renamed method is not a valid Java identifier"⟩

/-- The problem with the mappings as a whole, if there is one. -/
def consistencyProblem? (r : Renaming) : Option Problem :=
  match r.checkTypes with
  | .ok () => none
  | .error e => some ⟨"consistency", "", "", e.message⟩

/-! ### Reports -/

/-- What a check finds. -/
structure CheckResult where
  classes : Nat
  fields : Nat
  methods : Nat
  problems : List Problem
  deriving DecidableEq, Repr

namespace CheckResult

/-- Checks mappings. -/
def of (r : Renaming) : CheckResult where
  classes := r.classes.length
  fields := r.fields.length
  methods := r.methods.length
  problems := r.classEntries.filterMap classProblem? ++ r.fieldEntries.filterMap fieldProblem?
    ++ r.methodEntries.filterMap methodProblem? ++ (consistencyProblem? r).toList

/-- The exit code that a report asks for. -/
def exitCode (c : CheckResult) : Nat := if c.problems.isEmpty then 0 else 1

/-- The line for a problem. -/
def problemLine (p : Problem) : String :=
  if p.old.isEmpty then p.kind ++ ": " ++ p.message ++ "\n"
  else p.kind ++ ": " ++ p.old ++ " -> " ++ p.renamed ++ ": " ++ p.message ++ "\n"

/-- The line with the numbers of entries and problems. -/
def summaryLine (c : CheckResult) : String :=
  "checked: " ++ toString c.classes ++ " classes, " ++ toString c.fields ++ " fields, "
    ++ toString c.methods ++ " methods; " ++ toString c.problems.length ++ " problems\n"

/-- A problem as structured data. -/
def problemData (p : Problem) : Data :=
  .record [("kind", .text p.kind), ("original", .text p.old), ("renamed", .text p.renamed),
    ("message", .text p.message)]

/-- A report as structured data. -/
def toData (c : CheckResult) : Data :=
  .record [("classes", .ofNat c.classes), ("fields", .ofNat c.fields),
    ("methods", .ofNat c.methods), ("problems", .list (c.problems.map problemData))]

/-- The text of a report: a line for each problem and a last line, or all of it
as data. -/
def text (c : CheckResult) (asData : Bool) : String :=
  if asData then c.toData.toText ++ "\n"
  else String.join (c.problems.map problemLine) ++ c.summaryLine

/-! ### Small facts -/

theorem exitCode_eq_zero_iff {c : CheckResult} : c.exitCode = 0 ↔ c.problems = [] := by
  simp [exitCode]

theorem exitCode_eq_one_iff {c : CheckResult} : c.exitCode = 1 ↔ c.problems ≠ [] := by
  simp [exitCode]

end CheckResult

end SymbolRenaming
