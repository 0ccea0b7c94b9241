/-
SymbolRenaming/Proofs/Mappings/Names.lean

Mappings built from classes and the new names of members.

Design.  The types of a renamed member follow from the classes, so that nothing
but its name has to be kept (`MethodSymbol.renamedTo`).  Mappings that are built
this way are consistent, whatever they are built from (`consistent_ofNames`).  The
other way round, consistent mappings are given back by their classes and the new
names of their members, in the order of their tables (`tables_ofNames_names`).
-/
import SymbolRenaming.Mappings

namespace SymbolRenaming

/-! ### Members with another name -/

/-- The method with its types renamed, and with another name if there is one. -/
def MethodSymbol.renamedTo (f : ClassName → ClassName) (name? : Option String)
    (x : MethodSymbol) : MethodSymbol :=
  (x.mapClasses f).withName (name?.getD x.name)

/-- The field with its owner renamed, and with another name if there is one. -/
def FieldSymbol.renamedTo (f : ClassName → ClassName) (name? : Option String)
    (x : FieldSymbol) : FieldSymbol :=
  (x.mapClasses f).withName (name?.getD x.name)

theorem Editable.renameMethod_eq (m : Editable) (x : MethodSymbol) :
    m.renameMethod x = x.renamedTo m.renameClass (m.methodNames.get? x) := by
  rw [renameMethod]
  rcases m.methodNames.get? x with - | name
  · rfl
  · rfl

theorem Editable.renameField_eq (m : Editable) (x : FieldSymbol) :
    m.renameField x = x.renamedTo m.renameClass (m.fieldNames.get? x) := by
  rw [renameField]
  rcases m.fieldNames.get? x with - | name
  · rfl
  · rfl

namespace Frozen

/-! ### What is built from names -/

section OfNames

variable (cs : List (ClassName × ClassName)) (ms : List (MethodSymbol × String))
  (fs : List (FieldSymbol × String))

theorem renameClass_ofNames (c : ClassName) :
    (ofNames cs ms fs).contract.renameClass c = ((Table.ofList cs).get? c).getD c :=
  renameClass_ofTables _ c

variable {cs ms fs}

theorem mem_of_mem_classes_ofNames {e : ClassName × ClassName}
    (h : e ∈ (ofNames cs ms fs).tables.classes.entries) : e ∈ cs :=
  Table.mem_of_mem_entries_ofList (List.mem_filter.1 h).1

/-- A field entry is a field with its owner renamed and with a new name. -/
theorem exists_name_of_mem_fields_ofNames {e : FieldSymbol × FieldSymbol}
    (h : e ∈ (ofNames cs ms fs).tables.fields.entries) :
    ∃ name, (e.1, name) ∈ fs ∧
      e.2 = (e.1.mapClasses (ofNames cs ms fs).contract.renameClass).withName name := by
  obtain ⟨⟨x, name⟩, hx, rfl⟩ := List.mem_map.1 (Table.mem_of_mem_entries_ofList h)
  refine ⟨name, hx, ?_⟩
  rw [funext (renameClass_ofNames cs ms fs)]

/-- A method entry is a method with its types renamed and with a new name. -/
theorem exists_name_of_mem_methods_ofNames {e : MethodSymbol × MethodSymbol}
    (h : e ∈ (ofNames cs ms fs).tables.methods.entries) :
    ∃ name, (e.1, name) ∈ ms ∧
      e.2 = (e.1.mapClasses (ofNames cs ms fs).contract.renameClass).withName name := by
  obtain ⟨⟨x, name⟩, hx, rfl⟩ := List.mem_map.1 (Table.mem_of_mem_entries_ofList h)
  refine ⟨name, hx, ?_⟩
  rw [funext (renameClass_ofNames cs ms fs)]

variable (cs ms fs)

/-- What is built from names is consistent. -/
theorem consistent_ofNames : (ofNames cs ms fs).contract.Consistent := by
  constructor
  · intro x hx
    obtain ⟨e, he, rfl⟩ := List.mem_map.1 hx
    obtain ⟨name, -, hv⟩ := exists_name_of_mem_fields_ofNames he
    have hget : (ofNames cs ms fs).tables.fields.get? e.1 = some e.2 :=
      Table.get?_eq_some_iff.2 he
    show _ = (((ofNames cs ms fs).tables.fields.get? e.1).getD _).owner
    rw [hget, Option.getD_some, hv]
    rfl
  · intro x hx
    obtain ⟨e, he, rfl⟩ := List.mem_map.1 hx
    obtain ⟨name, -, hv⟩ := exists_name_of_mem_methods_ofNames he
    have hget : (ofNames cs ms fs).tables.methods.get? e.1 = some e.2 :=
      Table.get?_eq_some_iff.2 he
    show _ = (((ofNames cs ms fs).tables.methods.get? e.1).getD _).owner ∧
      _ = (((ofNames cs ms fs).tables.methods.get? e.1).getD _).descriptor
    rw [hget, Option.getD_some, hv]
    exact ⟨rfl, rfl⟩

theorem checkTypes_ofNames : (ofNames cs ms fs).contract.checkTypes = .ok () :=
  (Renaming.checkTypes_eq_ok_iff _).2 (consistent_ofNames cs ms fs)

end OfNames

/-! ### The names of consistent mappings -/

/-- The new names of the listed fields. -/
def fieldNames (m : Frozen) : Table FieldSymbol String := m.tables.fields.mapValues FieldSymbol.name

/-- The new names of the listed methods. -/
def methodNames (m : Frozen) : Table MethodSymbol String :=
  m.tables.methods.mapValues MethodSymbol.name

section Consistent

variable {m : Frozen} (h : m.contract.checkTypes = .ok ())
include h

/-- The owner of a renamed field is the renamed owner. -/
theorem owner_eq_of_mem_fields {e : FieldSymbol × FieldSymbol}
    (he : e ∈ m.tables.fields.entries) : m.contract.renameClass e.1.owner = e.2.owner := by
  have hget : m.contract.renameField e.1 = e.2 := by
    show (m.tables.fields.get? e.1).getD _ = e.2
    rw [Table.get?_eq_some_iff.2 he, Option.getD_some]
  rw [← hget]
  exact ((Renaming.checkTypes_eq_ok_iff _).1 h).1 e.1 (List.mem_map_of_mem he)

/-- The types of a renamed method are the renamed types. -/
theorem types_eq_of_mem_methods {e : MethodSymbol × MethodSymbol}
    (he : e ∈ m.tables.methods.entries) :
    m.contract.renameClass e.1.owner = e.2.owner ∧
      e.1.descriptor.mapClasses m.contract.renameClass = e.2.descriptor := by
  have hget : m.contract.renameMethod e.1 = e.2 := by
    show (m.tables.methods.get? e.1).getD _ = e.2
    rw [Table.get?_eq_some_iff.2 he, Option.getD_some]
  rw [← hget]
  exact ((Renaming.checkTypes_eq_ok_iff _).1 h).2 e.1 (List.mem_map_of_mem he)

theorem withName_of_mem_fields {e : FieldSymbol × FieldSymbol}
    (he : e ∈ m.tables.fields.entries) :
    (e.1.mapClasses m.contract.renameClass).withName e.2.name = e.2 := by
  obtain ⟨x, ⟨o, n⟩⟩ := e
  have ho := owner_eq_of_mem_fields h he
  show FieldSymbol.mk (m.contract.renameClass x.owner) n = ⟨o, n⟩
  rw [ho]

theorem withName_of_mem_methods {e : MethodSymbol × MethodSymbol}
    (he : e ∈ m.tables.methods.entries) :
    (e.1.mapClasses m.contract.renameClass).withName e.2.name = e.2 := by
  obtain ⟨x, ⟨o, n, d⟩⟩ := e
  obtain ⟨ho, hd⟩ := types_eq_of_mem_methods h he
  show MethodSymbol.mk (m.contract.renameClass x.owner) n
    (x.descriptor.mapClasses m.contract.renameClass) = ⟨o, n, d⟩
  rw [ho, hd]

/-- Consistent mappings are given back by their classes and the new names of
their members. -/
theorem tables_ofNames_names :
    (ofNames m.tables.classes.entries m.methodNames.entries m.fieldNames.entries).tables
      = m.tables := by
  -- no class keeps its name, so that none is dropped
  have hclasses : m.tables.classes.filter (fun e => e.1 ≠ e.2) = m.tables.classes := by
    refine Table.ext (List.filter_eq_self.2 fun e he => ?_)
    simpa using m.ne_of_mem_tables e he
  have hrename : (fun c => ((Table.ofList m.tables.classes.entries).get? c).getD c)
      = m.contract.renameClass := by
    rw [Table.ofList_entries]
    rfl
  -- each new member is given back by its name
  have hfields : (m.fieldNames.entries.map fun e =>
      (e.1, (e.1.mapClasses m.contract.renameClass).withName e.2)) = m.tables.fields.entries := by
    rw [fieldNames, Table.mapValues, List.map_map]
    conv => rhs; rw [← List.map_id m.tables.fields.entries]
    refine List.map_congr_left fun e he => ?_
    exact congrArg (Prod.mk e.1) (withName_of_mem_fields h he)
  have hmethods : (m.methodNames.entries.map fun e =>
      (e.1, (e.1.mapClasses m.contract.renameClass).withName e.2)) = m.tables.methods.entries := by
    rw [methodNames, Table.mapValues, List.map_map]
    conv => rhs; rw [← List.map_id m.tables.methods.entries]
    refine List.map_congr_left fun e he => ?_
    exact congrArg (Prod.mk e.1) (withName_of_mem_methods h he)
  rw [ofNames, tables_ofTables, hrename, hfields, hmethods, SymbolTables.dropFixedClasses]
  simp only [Table.ofList_entries, hclasses]

end Consistent

end Frozen

end SymbolRenaming
