/-
SymbolRenaming/Mappings/Editable.lean

Editable mappings: a class table and new names for members.

Design.  Only the new name of a member is stored.  Its renamed owner and
descriptor are computed from the class table at every look-up, so a class edit
also changes how members of that class, edited earlier, are resolved.  Mapping
a class to itself removes its entry.

Main results: how each edit changes what a class becomes
(`renameClass_setClass`), and that a refused edit changes nothing, since it
returns no store.
-/
import SymbolRenaming.Mappings.Frozen

namespace SymbolRenaming

/-- A class table and new member names, all open to edits. -/
structure Editable where
  classes : Table ClassName ClassName := .empty
  methodNames : Table MethodSymbol String := .empty
  fieldNames : Table FieldSymbol String := .empty

namespace Editable

/-- Mappings without entries. -/
def empty : Editable := {}

instance : Inhabited Editable := ⟨empty⟩

/-! ### Reading -/

/-- What a class becomes. -/
def renameClass (m : Editable) (c : ClassName) : ClassName := (m.classes.get? c).getD c

/-- What a method becomes: its types are renamed now, its name if one is set. -/
def renameMethod (m : Editable) (x : MethodSymbol) : MethodSymbol :=
  let renamed := x.mapClasses m.renameClass
  match m.methodNames.get? x with
  | some name => renamed.withName name
  | none => renamed

/-- What a field becomes: its owner is renamed now, its name if one is set. -/
def renameField (m : Editable) (x : FieldSymbol) : FieldSymbol :=
  let renamed := x.mapClasses m.renameClass
  match m.fieldNames.get? x with
  | some name => renamed.withName name
  | none => renamed

/-- The contract of editable mappings. -/
def contract (m : Editable) : Renaming where
  renameClass := m.renameClass
  renameMethod := m.renameMethod
  renameField := m.renameField
  classes := m.classes.keys
  methods := m.methodNames.keys
  fields := m.fieldNames.keys

/-- The state of the mappings as complete tables. -/
def freeze (m : Editable) : Frozen :=
  .ofNames m.classes.entries m.methodNames.entries m.fieldNames.entries

/-- Whether there is no entry. -/
def isEmpty (m : Editable) : Bool :=
  m.classes.isEmpty && m.methodNames.isEmpty && m.fieldNames.isEmpty

/-- Whether two values have the same entries, in any order. -/
def sameEntries (m n : Editable) : Bool :=
  m.classes.sameEntries n.classes && m.methodNames.sameEntries n.methodNames &&
    m.fieldNames.sameEntries n.fieldNames

/-! ### Edits -/

/-- Sets the new name of a class; a class mapped to itself loses its entry. -/
def setClass (m : Editable) (old renamed : ClassName) : Editable :=
  if old = renamed then { m with classes := m.classes.erase old }
  else { m with classes := m.classes.insert old renamed }

/-- Sets the new name of a type that has to be a class, as its new name has to. -/
def setClassType (m : Editable) (old renamed : VmType) : Except RenamingError Editable :=
  match old.asClass, renamed.asClass with
  | .ok c, .ok d => .ok (m.setClass c d)
  | .error e, _ => .error (.symbol e)
  | _, .error e => .error (.symbol e)

/-- Sets the new name of a method. -/
def setMethodName (m : Editable) (x : MethodSymbol) (name : String) : Editable :=
  { m with methodNames := m.methodNames.insert x name }

/-- Sets the new name of a method to that of `renamed`, whose types have to be
the renamed types of the method as the classes stand. -/
def setMethod (m : Editable) (x renamed : MethodSymbol) : Except RenamingError Editable :=
  if m.contract.methodAgrees (x, renamed) then .ok (m.setMethodName x renamed.name)
  else .error (Renaming.methodError (x, renamed))

/-- Sets the new name of a field. -/
def setFieldName (m : Editable) (x : FieldSymbol) (name : String) : Editable :=
  { m with fieldNames := m.fieldNames.insert x name }

/-- Sets the new name of a field to that of `renamed`, whose owner has to be
the renamed owner of the field as the classes stand. -/
def setField (m : Editable) (x renamed : FieldSymbol) : Except RenamingError Editable :=
  if m.contract.fieldAgrees (x, renamed) then .ok (m.setFieldName x renamed.name)
  else .error (Renaming.fieldError (x, renamed))

/-! ### Small facts -/

theorem renameClass_setClass (m : Editable) (o r c : ClassName) :
    (m.setClass o r).renameClass c = if o = c then r else m.renameClass c := by
  by_cases hr : o = r
  · subst hr
    by_cases hc : o = c
    · subst hc
      simp [setClass, renameClass, Table.get?_erase]
    · simp [setClass, renameClass, Table.get?_erase, hc]
  · by_cases hc : o = c
    · subst hc
      simp [setClass, renameClass, hr, Table.get?_insert]
    · simp [setClass, renameClass, hr, hc, Table.get?_insert]

/-- An accepted method edit makes the method resolve to exactly what was given. -/
theorem renameMethod_setMethod {m m' : Editable} {x y : MethodSymbol}
    (h : m.setMethod x y = .ok m') : m'.renameMethod x = y := by
  simp only [setMethod] at h
  split at h
  · rename_i ha
    simp only [Except.ok.injEq] at h
    subst h
    simp only [Renaming.methodAgrees, MethodSymbol.sameTypes, Bool.and_eq_true, beq_iff_eq] at ha
    simp only [renameMethod, setMethodName, Table.get?_insert, ite_true, MethodSymbol.withName]
    rcases y with ⟨o, n, d⟩
    simp only [MethodSymbol.mk.injEq, true_and]
    exact ⟨ha.1, ha.2⟩
  · simp at h

/-- An accepted field edit makes the field resolve to exactly what was given. -/
theorem renameField_setField {m m' : Editable} {x y : FieldSymbol}
    (h : m.setField x y = .ok m') : m'.renameField x = y := by
  simp only [setField] at h
  split at h
  · rename_i ha
    simp only [Except.ok.injEq] at h
    subst h
    simp only [Renaming.fieldAgrees, FieldSymbol.sameTypes, beq_iff_eq] at ha
    simp only [renameField, setFieldName, Table.get?_insert, ite_true, FieldSymbol.withName]
    rcases y with ⟨o, n⟩
    simp only [FieldSymbol.mk.injEq, and_true]
    exact ha
  · simp at h

end Editable

end SymbolRenaming
