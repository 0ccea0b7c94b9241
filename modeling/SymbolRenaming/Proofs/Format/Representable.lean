/-
SymbolRenaming/Proofs/Format/Representable.lean

The mappings that a format can write down.

Design.  Mappings are representable in a format if they are consistent and every
part of every entry can stand in its column (`Representable`).  The formats
differ in two points.  The tagged one joins owner and name, so that a name must
not have a slash.  The compact one opens its lines with a class, which must not
look like a comment.

A reader keeps classes and new names of members, and what it keeps has readable
parts (`HoldsNames`), an invariant that each edit preserves.  The mappings built
from such names are representable (`HoldsNames.representable_ofNames`): the types
of the new members are renamed to well-formed names, and so stay readable.
-/
import SymbolRenaming.Proofs.Format.Reading
import SymbolRenaming.Proofs.Mappings.Names

namespace SymbolRenaming.Format

open Text

/-! ### Representable mappings -/

/-- A member's name that the format can write. -/
structure AllowsName (f : Format) (name : String) : Prop where
  isWord : IsWord name
  not_mem : f = tagged → '/' ∉ name.toList

/-- A class that can stand first in a line of the format. -/
def AllowsFirst (f : Format) (c : ClassName) : Prop := f = compact → ¬ StartsComment c.text

/-- Mappings that the format can write and read back. -/
structure Representable (f : Format) (m : Frozen) : Prop where
  checkTypes : m.contract.checkTypes = .ok ()
  classes : ∀ e ∈ m.contract.classEntries, e.1.isWellFormed = true ∧ e.2.isWellFormed = true
  fieldOwners : ∀ e ∈ m.contract.fieldEntries,
    e.1.owner.isWellFormed = true ∧ e.2.owner.isWellFormed = true
  methodOwners : ∀ e ∈ m.contract.methodEntries,
    e.1.owner.isWellFormed = true ∧ e.2.owner.isWellFormed = true
  descriptors : ∀ e ∈ m.contract.methodEntries,
    (∃ s, Descriptor.parse s = .ok e.1.descriptor) ∧ ∃ s, Descriptor.parse s = .ok e.2.descriptor
  fieldNames : ∀ e ∈ m.contract.fieldEntries, f.AllowsName e.1.name ∧ f.AllowsName e.2.name
  methodNames : ∀ e ∈ m.contract.methodEntries, f.AllowsName e.1.name ∧ f.AllowsName e.2.name
  firstClasses : ∀ e ∈ m.contract.classEntries, f.AllowsFirst e.1
  firstFields : ∀ e ∈ m.contract.fieldEntries, f.AllowsFirst e.1.owner
  firstMethods : ∀ e ∈ m.contract.methodEntries, f.AllowsFirst e.1.owner

/-! ### Names that a reader keeps -/

/-- Tables whose entries have parts that the format reads. -/
structure HoldsNames (f : Format) (classes : Table ClassName ClassName)
    (methodNames : Table MethodSymbol String) (fieldNames : Table FieldSymbol String) : Prop where
  ofClass : ∀ e ∈ classes.entries,
    e.1.isWellFormed = true ∧ e.2.isWellFormed = true ∧ f.AllowsFirst e.1
  ofMethod : ∀ e ∈ methodNames.entries, e.1.owner.isWellFormed = true ∧ e.1.descriptor.Readable ∧
    f.AllowsName e.1.name ∧ f.AllowsName e.2 ∧ f.AllowsFirst e.1.owner
  ofField : ∀ e ∈ fieldNames.entries, e.1.owner.isWellFormed = true ∧
    f.AllowsName e.1.name ∧ f.AllowsName e.2 ∧ f.AllowsFirst e.1.owner

namespace HoldsNames

variable {f : Format} {cs : Table ClassName ClassName} {ms : Table MethodSymbol String}
  {fs : Table FieldSymbol String}

theorem empty : f.HoldsNames .empty .empty .empty where
  ofClass e he := by cases he
  ofMethod e he := by cases he
  ofField e he := by cases he

theorem insertClass (h : f.HoldsNames cs ms fs) {c d : ClassName} (hc : c.isWellFormed = true)
    (hd : d.isWellFormed = true) (hfirst : f.AllowsFirst c) :
    f.HoldsNames (cs.insert c d) ms fs where
  ofClass := by
    intro e he
    rcases Table.mem_of_mem_entries_insert he with rfl | he
    · exact ⟨hc, hd, hfirst⟩
    · exact h.ofClass e he
  ofMethod := h.ofMethod
  ofField := h.ofField

theorem eraseClass (h : f.HoldsNames cs ms fs) (c : ClassName) :
    f.HoldsNames (cs.erase c) ms fs where
  ofClass e he := h.ofClass e (List.mem_filter.1 he).1
  ofMethod := h.ofMethod
  ofField := h.ofField

theorem insertMethod (h : f.HoldsNames cs ms fs) {x : MethodSymbol} {name : String}
    (hx : x.owner.isWellFormed = true ∧ x.descriptor.Readable ∧ f.AllowsName x.name ∧
      f.AllowsName name ∧ f.AllowsFirst x.owner) :
    f.HoldsNames cs (ms.insert x name) fs where
  ofClass := h.ofClass
  ofMethod := by
    intro e he
    rcases Table.mem_of_mem_entries_insert he with rfl | he
    · exact hx
    · exact h.ofMethod e he
  ofField := h.ofField

theorem insertField (h : f.HoldsNames cs ms fs) {x : FieldSymbol} {name : String}
    (hx : x.owner.isWellFormed = true ∧ f.AllowsName x.name ∧ f.AllowsName name ∧
      f.AllowsFirst x.owner) :
    f.HoldsNames cs ms (fs.insert x name) where
  ofClass := h.ofClass
  ofMethod := h.ofMethod
  ofField := by
    intro e he
    rcases Table.mem_of_mem_entries_insert he with rfl | he
    · exact hx
    · exact h.ofField e he

/-- The kept classes rename well-formed names to well-formed names. -/
theorem isWellFormed_renameClass (h : f.HoldsNames cs ms fs) {c : ClassName}
    (hc : c.isWellFormed = true) :
    ((Frozen.ofNames cs.entries ms.entries fs.entries).contract.renameClass c).isWellFormed
      = true := by
  rw [Frozen.renameClass_ofNames, Table.ofList_entries]
  rcases e : cs.get? c with - | d
  · exact hc
  · exact (h.ofClass (c, d) (Table.get?_eq_some_iff.1 e)).2.1

/-- The parts of a class entry. -/
theorem of_mem_classEntries (h : f.HoldsNames cs ms fs) {e : ClassName × ClassName}
    (he : e ∈ (Frozen.ofNames cs.entries ms.entries fs.entries).contract.classEntries) :
    (e.1.isWellFormed = true ∧ e.2.isWellFormed = true) ∧ f.AllowsFirst e.1 := by
  rw [Frozen.classEntries_contract] at he
  obtain ⟨hold, hnew, hfirst⟩ := h.ofClass e (Frozen.mem_of_mem_classes_ofNames he)
  exact ⟨⟨hold, hnew⟩, hfirst⟩

/-- The parts of a field entry; the new owner comes from the classes. -/
theorem of_mem_fieldEntries (h : f.HoldsNames cs ms fs) {e : FieldSymbol × FieldSymbol}
    (he : e ∈ (Frozen.ofNames cs.entries ms.entries fs.entries).contract.fieldEntries) :
    (e.1.owner.isWellFormed = true ∧ e.2.owner.isWellFormed = true) ∧
      (f.AllowsName e.1.name ∧ f.AllowsName e.2.name) ∧ f.AllowsFirst e.1.owner := by
  rw [Frozen.contract, SymbolTables.fieldEntries_contract] at he
  obtain ⟨name, hmem, hv⟩ := Frozen.exists_name_of_mem_fields_ofNames he
  obtain ⟨howner, hname, hnew, hfirst⟩ := h.ofField _ hmem
  rw [hv]
  exact ⟨⟨howner, h.isWellFormed_renameClass howner⟩, ⟨hname, hnew⟩, hfirst⟩

/-- The parts of a method entry; the new owner and the new descriptor come from
the classes. -/
theorem of_mem_methodEntries (h : f.HoldsNames cs ms fs) {e : MethodSymbol × MethodSymbol}
    (he : e ∈ (Frozen.ofNames cs.entries ms.entries fs.entries).contract.methodEntries) :
    (e.1.owner.isWellFormed = true ∧ e.2.owner.isWellFormed = true) ∧
      (e.1.descriptor.Readable ∧ e.2.descriptor.Readable) ∧
      (f.AllowsName e.1.name ∧ f.AllowsName e.2.name) ∧ f.AllowsFirst e.1.owner := by
  rw [Frozen.contract, SymbolTables.methodEntries_contract] at he
  obtain ⟨name, hmem, hv⟩ := Frozen.exists_name_of_mem_methods_ofNames he
  obtain ⟨howner, hread, hname, hnew, hfirst⟩ := h.ofMethod _ hmem
  have hread' := hread.mapClasses fun c hc =>
    h.isWellFormed_renameClass (hread.isWellFormed c hc)
  rw [hv]
  exact ⟨⟨howner, h.isWellFormed_renameClass howner⟩, ⟨hread, hread'⟩, ⟨hname, hnew⟩, hfirst⟩

/-- What is built from kept names is representable. -/
theorem representable_ofNames (h : f.HoldsNames cs ms fs) :
    f.Representable (.ofNames cs.entries ms.entries fs.entries) where
  checkTypes := Frozen.checkTypes_ofNames _ _ _
  classes _ he := (h.of_mem_classEntries he).1
  fieldOwners _ he := (h.of_mem_fieldEntries he).1
  methodOwners _ he := (h.of_mem_methodEntries he).1
  descriptors := by
    intro e he
    obtain ⟨hold, hnew⟩ := (h.of_mem_methodEntries he).2.1
    exact ⟨Descriptor.exists_parse_iff.2 hold, Descriptor.exists_parse_iff.2 hnew⟩
  fieldNames _ he := (h.of_mem_fieldEntries he).2.1
  methodNames _ he := (h.of_mem_methodEntries he).2.2.1
  firstClasses _ he := (h.of_mem_classEntries he).2
  firstFields _ he := (h.of_mem_fieldEntries he).2.2
  firstMethods _ he := (h.of_mem_methodEntries he).2.2.2

end HoldsNames

end SymbolRenaming.Format
