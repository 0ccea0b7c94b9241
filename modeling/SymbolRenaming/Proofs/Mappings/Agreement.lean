/-
SymbolRenaming/Proofs/Mappings/Agreement.lean

The three kinds of mappings rename alike.

Design.  Frozen mappings hold complete members, editable ones compute the types of
a member at each look-up, and rules hold nothing.  What all of them make of a member
is the member with its types renamed and with a new name, if there is one
(`MethodSymbol.renamedTo`), so that two kinds agree as soon as they agree on classes
and on names.

Whatever the history of editable mappings is, they agree with the frozen mappings
that are built from its accepted changes (`agrees_frozen_after`); lists that are
written in are a history of their own.  To freeze them changes nothing in the
contract, its lists of keys included, since no class is listed with its own name
(`contract_freeze`).  Whoever reads mappings through their contract, as the writers
and the composition do, cannot tell the two apart.

Main result: `kinds_agree`.
-/
import Mathlib.Data.List.Basic
import SymbolRenaming.Composition
import SymbolRenaming.Format.Codec
import SymbolRenaming.Proofs.Mappings.History

namespace SymbolRenaming

/-! ### Contracts that agree -/

/-- Two contracts that rename every symbol alike; the keys they list may differ. -/
structure Renaming.Agrees (r s : Renaming) : Prop where
  classes : ∀ c, r.renameClass c = s.renameClass c
  methods : ∀ x, r.renameMethod x = s.renameMethod x
  fields : ∀ x, r.renameField x = s.renameField x
  types : ∀ t, r.renameType t = s.renameType t

/-- A type is renamed as its class is. -/
theorem Renaming.Agrees.of_symbols {r s : Renaming}
    (hclasses : ∀ c, r.renameClass c = s.renameClass c)
    (hmethods : ∀ x, r.renameMethod x = s.renameMethod x)
    (hfields : ∀ x, r.renameField x = s.renameField x) : r.Agrees s where
  classes := hclasses
  methods := hmethods
  fields := hfields
  types := by
    intro t
    rw [Renaming.renameType, Renaming.renameType, funext hclasses]

/-! ### Frozen mappings and rules -/

section Names

variable (cs : List (ClassName × ClassName)) (ms : List (MethodSymbol × String))
  (fs : List (FieldSymbol × String))

/-- Rules that look every symbol up in tables. -/
def Rules.ofNames : Rules where
  classRule := some fun c => (Table.ofList cs).get? c
  methodRule := some fun x => (Table.ofList ms).get? x
  fieldRule := some fun x => (Table.ofList fs).get? x

theorem Rules.renameMethod_ofNames (x : MethodSymbol) :
    (ofNames cs ms fs).renameMethod x
      = x.renamedTo (ofNames cs ms fs).renameClass ((Table.ofList ms).get? x) := by
  have hrule : (ofNames cs ms fs).methodRule.bind (fun rule => rule x)
      = (Table.ofList ms).get? x := rfl
  rw [renameMethod, hrule]
  rcases (Table.ofList ms).get? x with - | name
  · rfl
  · rfl

theorem Rules.renameField_ofNames (x : FieldSymbol) :
    (ofNames cs ms fs).renameField x
      = x.renamedTo (ofNames cs ms fs).renameClass ((Table.ofList fs).get? x) := by
  have hrule : (ofNames cs ms fs).fieldRule.bind (fun rule => rule x)
      = (Table.ofList fs).get? x := rfl
  rw [renameField, hrule]
  rcases (Table.ofList fs).get? x with - | name
  · rfl
  · rfl

/-- The table holds complete methods, made from the names of the list. -/
theorem Frozen.get?_methods_ofNames (x : MethodSymbol) :
    (ofNames cs ms fs).tables.methods.get? x = ((Table.ofList ms).get? x).map
      (x.mapClasses (ofNames cs ms fs).contract.renameClass).withName := by
  rw [funext (renameClass_ofNames cs ms fs)]
  exact Table.get?_ofList_map (fun (y : MethodSymbol) name =>
    (y.mapClasses fun c => ((Table.ofList cs).get? c).getD c).withName name) ms x

/-- The table holds complete fields, made from the names of the list. -/
theorem Frozen.get?_fields_ofNames (x : FieldSymbol) :
    (ofNames cs ms fs).tables.fields.get? x = ((Table.ofList fs).get? x).map
      (x.mapClasses (ofNames cs ms fs).contract.renameClass).withName := by
  rw [funext (renameClass_ofNames cs ms fs)]
  exact Table.get?_ofList_map (fun (y : FieldSymbol) name =>
    (y.mapClasses fun c => ((Table.ofList cs).get? c).getD c).withName name) fs x

theorem Frozen.renameMethod_ofNames (x : MethodSymbol) :
    (ofNames cs ms fs).contract.renameMethod x
      = x.renamedTo (ofNames cs ms fs).contract.renameClass ((Table.ofList ms).get? x) := by
  show ((ofNames cs ms fs).tables.methods.get? x).getD
    (x.mapClasses (ofNames cs ms fs).contract.renameClass) = _
  rw [get?_methods_ofNames]
  rcases (Table.ofList ms).get? x with - | name
  · rfl
  · rfl

theorem Frozen.renameField_ofNames (x : FieldSymbol) :
    (ofNames cs ms fs).contract.renameField x
      = x.renamedTo (ofNames cs ms fs).contract.renameClass ((Table.ofList fs).get? x) := by
  show ((ofNames cs ms fs).tables.fields.get? x).getD
    (x.mapClasses (ofNames cs ms fs).contract.renameClass) = _
  rw [get?_fields_ofNames]
  rcases (Table.ofList fs).get? x with - | name
  · rfl
  · rfl

/-- Frozen mappings rename as the rules that look up what they were built from. -/
theorem Frozen.agrees_rules :
    (Frozen.ofNames cs ms fs).contract.Agrees (Rules.ofNames cs ms fs).contract := by
  have hclasses : ∀ c, (Frozen.ofNames cs ms fs).contract.renameClass c
      = (Rules.ofNames cs ms fs).renameClass c := renameClass_ofNames cs ms fs
  refine .of_symbols hclasses ?_ ?_
  · intro x
    show _ = (Rules.ofNames cs ms fs).renameMethod x
    rw [renameMethod_ofNames, Rules.renameMethod_ofNames, funext hclasses]
  · intro x
    show _ = (Rules.ofNames cs ms fs).renameField x
    rw [renameField_ofNames, Rules.renameField_ofNames, funext hclasses]

end Names

/-! ### Editable mappings and frozen ones -/

namespace Editable

/-- Editable mappings rename as the frozen ones that are built from the accepted
changes of their history. -/
theorem agrees_frozen_after (history : List Change) :
    (after history).contract.Agrees (Frozen.ofNames (history.filterMap Change.classPair?)
      ((accepted history).filterMap Change.methodPair?)
      ((accepted history).filterMap Change.fieldPair?)).contract := by
  have hclasses : ∀ c, (after history).renameClass c
      = (Frozen.ofNames (history.filterMap Change.classPair?)
          ((accepted history).filterMap Change.methodPair?)
          ((accepted history).filterMap Change.fieldPair?)).contract.renameClass c := by
    intro c
    rw [renameClass_after, classImage, Frozen.renameClass_ofNames, Table.get?_ofList]
  refine .of_symbols hclasses ?_ ?_
  · intro x
    show (after history).renameMethod x = _
    rw [renameMethod_eq, Frozen.renameMethod_ofNames, get?_methodNames_after, methodName?,
      Table.get?_ofList, funext hclasses]
  · intro x
    show (after history).renameField x = _
    rw [renameField_eq, Frozen.renameField_ofNames, get?_fieldNames_after, fieldName?,
      Table.get?_ofList, funext hclasses]

/-- What is admissible at every moment is accepted. -/
theorem accepted_eq_self {history : List Change}
    (h : ∀ e ∈ history, ∀ image, e.Admissible image) : accepted history = history := by
  induction history using List.reverseRecOn with
  | nil => rfl
  | append_singleton history e ih =>
    rw [accepted_concat, if_pos, ih]
    · intro x hx
      exact h x (List.mem_append_left _ hx)
    · exact h e (by simp) _

section Lists

variable (cs : List (ClassName × ClassName)) (ms : List (MethodSymbol × String))
  (fs : List (FieldSymbol × String))

/-- Editable mappings with the pairs of lists written in, one after the other. -/
def ofNames : Editable :=
  fs.foldl (fun m e => m.setFieldName e.1 e.2)
    (ms.foldl (fun m e => m.setMethodName e.1 e.2)
      (cs.foldl (fun m e => m.setClass e.1 e.2) .empty))

/-- The changes that write the pairs of lists. -/
def writing : List Change :=
  cs.map (fun e => .ofClass e.1 e.2) ++ ms.map (fun e => .ofMethodName e.1 e.2)
    ++ fs.map fun e => .ofFieldName e.1 e.2

theorem ofNames_eq_after : ofNames cs ms fs = after (writing cs ms fs) := by
  rw [after, writing, List.foldl_append, List.foldl_append, List.foldl_map, List.foldl_map,
    List.foldl_map]
  rfl

theorem accepted_writing : accepted (writing cs ms fs) = writing cs ms fs := by
  refine accepted_eq_self ?_
  intro e he image
  rcases List.mem_append.1 he with he | he
  · rcases List.mem_append.1 he with he | he
    · obtain ⟨x, -, rfl⟩ := List.mem_map.1 he
      exact trivial
    · obtain ⟨x, -, rfl⟩ := List.mem_map.1 he
      exact trivial
  · obtain ⟨x, -, rfl⟩ := List.mem_map.1 he
    exact trivial

/-- Each list is what the changes say of its kind. -/
theorem pairs_writing :
    (writing cs ms fs).filterMap Change.classPair? = cs ∧
      (writing cs ms fs).filterMap Change.methodPair? = ms ∧
      (writing cs ms fs).filterMap Change.fieldPair? = fs := by
  simp [writing, List.filterMap_append, List.filterMap_map, Function.comp_def,
    List.filterMap_none, Change.classPair?, Change.methodPair?, Change.fieldPair?]

theorem agrees_frozen_ofNames :
    (ofNames cs ms fs).contract.Agrees (Frozen.ofNames cs ms fs).contract := by
  have h := agrees_frozen_after (writing cs ms fs)
  obtain ⟨hclasses, hmethods, hfields⟩ := pairs_writing cs ms fs
  rw [accepted_writing, hclasses, hmethods, hfields, ← ofNames_eq_after] at h
  exact h

end Lists

/-! ### Freezing -/

theorem renameClass_freeze (m : Editable) : m.freeze.contract.renameClass = m.renameClass := by
  funext c
  rw [freeze, Frozen.renameClass_ofNames, Table.ofList_entries]
  rfl

/-- Frozen, mappings have the same entries if they make the same of every class and
have the same new names. -/
theorem sameEntries_freeze {m n : Editable} (hclass : ∀ c, m.renameClass c = n.renameClass c)
    (hmethod : ∀ x, m.methodNames.get? x = n.methodNames.get? x)
    (hfield : ∀ x, m.fieldNames.get? x = n.fieldNames.get? x) :
    m.freeze.sameEntries n.freeze = true := by
  have hrename : m.freeze.contract.renameClass = n.freeze.contract.renameClass := by
    rw [renameClass_freeze, renameClass_freeze]
    exact funext hclass
  refine SymbolTables.sameEntries_iff.2 ⟨fun c => ?_, fun x => ?_, fun x => ?_⟩
  · show ((Table.ofList m.classes.entries).filter _).get? c
      = ((Table.ofList n.classes.entries).filter _).get? c
    rw [Table.ofList_entries, Table.ofList_entries, Table.get?_filter, Table.get?_filter]
    exact filter_ne_eq_of_getD_eq (hclass c)
  · rw [freeze, Frozen.get?_methods_ofNames, Table.ofList_entries, hmethod]
    rw [freeze, Frozen.get?_methods_ofNames, Table.ofList_entries]
    exact congrArg (fun rename => (n.methodNames.get? x).map (x.mapClasses rename).withName) hrename
  · rw [freeze, Frozen.get?_fields_ofNames, Table.ofList_entries, hfield]
    rw [freeze, Frozen.get?_fields_ofNames, Table.ofList_entries]
    exact congrArg (fun rename => (n.fieldNames.get? x).map (x.mapClasses rename).withName) hrename

/-- To freeze mappings that list no class with its own name changes nothing in
their contract. -/
theorem contract_freeze {m : Editable} (h : ∀ e ∈ m.classes.entries, e.1 ≠ e.2) :
    m.freeze.contract = m.contract := by
  have hclass := renameClass_freeze m
  have hmethod : m.freeze.contract.renameMethod = m.renameMethod := by
    funext x
    rw [renameMethod_eq, ← hclass, freeze, Frozen.renameMethod_ofNames, Table.ofList_entries]
  have hfield : m.freeze.contract.renameField = m.renameField := by
    funext x
    rw [renameField_eq, ← hclass, freeze, Frozen.renameField_ofNames, Table.ofList_entries]
  have hclasses : m.freeze.contract.classes = m.classes.keys := by
    show ((Table.ofList m.classes.entries).filter fun e => e.1 ≠ e.2).keys = _
    rw [Table.ofList_entries]
    refine congrArg (List.map Prod.fst) (List.filter_eq_self.2 ?_)
    intro e he
    simpa using h e he
  have hmethods : m.freeze.contract.methods = m.methodNames.keys :=
    Table.keys_ofList_map (fun (x : MethodSymbol) name => (x.mapClasses fun c =>
      ((Table.ofList m.classes.entries).get? c).getD c).withName name) _
  have hfields : m.freeze.contract.fields = m.fieldNames.keys :=
    Table.keys_ofList_map (fun (x : FieldSymbol) name => (x.mapClasses fun c =>
      ((Table.ofList m.classes.entries).get? c).getD c).withName name) _
  calc m.freeze.contract
      = ⟨m.freeze.contract.renameClass, m.freeze.contract.renameMethod,
          m.freeze.contract.renameField, m.freeze.contract.classes,
          m.freeze.contract.methods, m.freeze.contract.fields⟩ := rfl
    _ = ⟨m.renameClass, m.renameMethod, m.renameField, m.classes.keys, m.methodNames.keys,
          m.fieldNames.keys⟩ := by
        rw [hclass, hmethod, hfield, hclasses, hmethods, hfields]
    _ = m.contract := rfl

/-- Frozen or not, mappings are the same layer. -/
theorem layer_freeze {m : Editable} (h : ∀ e ∈ m.classes.entries, e.1 ≠ e.2) :
    Composition.Layer.ofMappings (.frozen m.freeze)
      = Composition.Layer.ofMappings (.editable m) := by
  have hnotices : m.freeze.openingNotices = [] := rfl
  show Composition.Layer.mk m.freeze.contract m.freeze.openingNotices
    = Composition.Layer.mk m.contract []
  rw [contract_freeze h, hnotices]

end Editable

open Editable SymbolRenaming.Composition in
/-- **The kinds of mappings agree.**  Built from the same lists, frozen mappings,
editable ones and rules rename every symbol alike.  Editable mappings in any state
that changes lead to and what is frozen from them list the same entries in the same
order, have the same text, and are the same layer of every composition. -/
theorem kinds_agree :
    (∀ cs ms fs,
      (Editable.ofNames cs ms fs).contract.Agrees (Frozen.ofNames cs ms fs).contract ∧
      (Frozen.ofNames cs ms fs).contract.Agrees (Rules.ofNames cs ms fs).contract) ∧
    ∀ history : List Change,
      (after history).freeze.contract.Agrees (after history).contract ∧
      ((after history).freeze.contract.classEntries = (after history).contract.classEntries ∧
        (after history).freeze.contract.methodEntries
          = (after history).contract.methodEntries ∧
        (after history).freeze.contract.fieldEntries = (after history).contract.fieldEntries) ∧
      (∀ f : Format,
        f.toLines (after history).freeze.contract = f.toLines (after history).contract) ∧
      ∀ front back : List Layer,
        compose (front ++ Layer.ofMappings (.frozen (after history).freeze) :: back)
          = compose (front ++ Layer.ofMappings (.editable (after history)) :: back) := by
  constructor
  · intro cs ms fs
    exact ⟨agrees_frozen_ofNames cs ms fs, Frozen.agrees_rules cs ms fs⟩
  · intro history
    have hcontract := contract_freeze (ne_of_mem_classes_after history)
    have hlayer := layer_freeze (ne_of_mem_classes_after history)
    refine ⟨?_, ?_, ?_, ?_⟩
    · rw [hcontract]
      exact .of_symbols (fun _ => rfl) (fun _ => rfl) fun _ => rfl
    · rw [hcontract]
      exact ⟨rfl, rfl, rfl⟩
    · intro f
      rw [hcontract]
    · intro front back
      rw [hlayer]

end SymbolRenaming
