/-
SymbolRenaming/Mappings/Renaming.lean

The contract that all kinds of mappings share: how a symbol is renamed, and
which symbols are named explicitly.

Design.  The contract is a record of three functions and three key lists.
Every operation that only reads mappings (composition, writing, checking) takes
this record, so two kinds of mappings with equal records cannot be told apart
by any of them.

Main results: no inconsistency is found exactly when every listed member entry
has the renamed types of its key (`checkTypes_eq_ok_iff`).
-/
import SymbolRenaming.Member
import SymbolRenaming.Mappings.RenamingError

namespace SymbolRenaming

/-- Read access to mappings: how symbols are renamed, and the listed keys. -/
structure Renaming where
  renameClass : ClassName → ClassName
  renameMethod : MethodSymbol → MethodSymbol
  renameField : FieldSymbol → FieldSymbol
  classes : List ClassName
  methods : List MethodSymbol
  fields : List FieldSymbol

namespace Renaming

/-- Renames nothing and lists nothing. -/
def identity : Renaming := ⟨id, id, id, [], [], []⟩

/-- Renames the class in a type. -/
def renameType (r : Renaming) (t : VmType) : VmType := t.mapClass r.renameClass

/-- Renames a type that has to be a class. -/
def renameClassType (r : Renaming) (t : VmType) : Except RenamingError ClassName :=
  match t.asClass with
  | .ok c => .ok (r.renameClass c)
  | .error e => .error (.symbol e)

/-- The listed classes with their new names. -/
def classEntries (r : Renaming) : List (ClassName × ClassName) :=
  r.classes.map fun c => (c, r.renameClass c)

/-- The listed methods with what they become. -/
def methodEntries (r : Renaming) : List (MethodSymbol × MethodSymbol) :=
  r.methods.map fun x => (x, r.renameMethod x)

/-- The listed fields with what they become. -/
def fieldEntries (r : Renaming) : List (FieldSymbol × FieldSymbol) :=
  r.fields.map fun x => (x, r.renameField x)

/-! ### Consistency -/

/-- Whether a field becomes a field of its renamed owner. -/
def fieldAgrees (r : Renaming) (e : FieldSymbol × FieldSymbol) : Bool :=
  (e.1.mapClasses r.renameClass).sameTypes e.2

/-- Whether a method becomes a method of its renamed owner and descriptor. -/
def methodAgrees (r : Renaming) (e : MethodSymbol × MethodSymbol) : Bool :=
  (e.1.mapClasses r.renameClass).sameTypes e.2

/-- The error for a field entry whose types do not agree. -/
def fieldError (e : FieldSymbol × FieldSymbol) : RenamingError :=
  .inconsistent .field e.1.internalName e.2.internalName

/-- The error for a method entry whose types do not agree. -/
def methodError (e : MethodSymbol × MethodSymbol) : RenamingError :=
  .inconsistent .method e.1.text e.2.text

/-- The first entry whose types do not agree, fields before methods. -/
def firstInconsistency (r : Renaming) : Option RenamingError :=
  match r.fieldEntries.find? fun e => !r.fieldAgrees e with
  | some e => some (fieldError e)
  | none => (r.methodEntries.find? fun e => !r.methodAgrees e).map methodError

/-- Succeeds when the types of every listed member agree with the classes. -/
def checkTypes (r : Renaming) : Except RenamingError Unit :=
  match r.firstInconsistency with
  | some e => .error e
  | none => .ok ()

/-- Every listed member becomes a member with the renamed types. -/
def Consistent (r : Renaming) : Prop :=
  (∀ x ∈ r.fields, r.renameClass x.owner = (r.renameField x).owner) ∧
  ∀ x ∈ r.methods, r.renameClass x.owner = (r.renameMethod x).owner ∧
    x.descriptor.mapClasses r.renameClass = (r.renameMethod x).descriptor

theorem checkTypes_eq_ok_iff (r : Renaming) :
    r.checkTypes = .ok () ↔ r.Consistent := by
  have hf : (r.fieldEntries.find? fun e => !r.fieldAgrees e) = none ↔
      ∀ x ∈ r.fields, r.renameClass x.owner = (r.renameField x).owner := by
    rw [List.find?_eq_none]
    simp [fieldEntries, fieldAgrees, FieldSymbol.sameTypes, FieldSymbol.mapClasses]
  have hm : (r.methodEntries.find? fun e => !r.methodAgrees e) = none ↔
      ∀ x ∈ r.methods, r.renameClass x.owner = (r.renameMethod x).owner ∧
        x.descriptor.mapClasses r.renameClass = (r.renameMethod x).descriptor := by
    rw [List.find?_eq_none]
    simp [methodEntries, methodAgrees, MethodSymbol.sameTypes, MethodSymbol.mapClasses]
  rw [Consistent, ← hf, ← hm, checkTypes, firstInconsistency]
  rcases e1 : r.fieldEntries.find? fun e => !r.fieldAgrees e with - | e
  · rcases e2 : r.methodEntries.find? fun e => !r.methodAgrees e with - | e <;> simp
  · simp

end Renaming

end SymbolRenaming
