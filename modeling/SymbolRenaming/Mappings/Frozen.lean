/-
SymbolRenaming/Mappings/Frozen.lean

Frozen mappings: complete tables of classes, methods and fields, readable in
both directions.

Design.  A frozen value is the tables it was built from and the direction in
which it is read.  Turning it round changes the direction only, so turning it
round twice gives the value back.  Read backwards, each table is written the
other way round; when several classes share a target, the last of them is kept,
and the reader is told (`openingNotices`).  Classes mapped to themselves are
dropped when the value is built, and the value carries the proof of it.

Main results: `invert_invert`, and the contract of a frozen value lists exactly
its entries (`classEntries_contract`).
-/
import SymbolRenaming.Mappings.Renaming
import SymbolRenaming.Notice
import SymbolRenaming.Table

namespace SymbolRenaming

/-! ### Tables of the three kinds of symbols -/

/-- A table for each kind of symbol. -/
structure SymbolTables where
  classes : Table ClassName ClassName := .empty
  methods : Table MethodSymbol MethodSymbol := .empty
  fields : Table FieldSymbol FieldSymbol := .empty

namespace SymbolTables

/-- Writes every table the other way round. -/
def swap (t : SymbolTables) : SymbolTables := ⟨t.classes.swap, t.methods.swap, t.fields.swap⟩

/-- Drops the classes that keep their name. -/
def dropFixedClasses (t : SymbolTables) : SymbolTables :=
  { t with classes := t.classes.filter fun e => e.1 ≠ e.2 }

/-- Whether the tables have the same entries, in any order. -/
def sameEntries (s t : SymbolTables) : Bool :=
  s.classes.sameEntries t.classes && s.methods.sameEntries t.methods &&
    s.fields.sameEntries t.fields

/-- Whether no table has an entry. -/
def isEmpty (t : SymbolTables) : Bool :=
  t.classes.isEmpty && t.methods.isEmpty && t.fields.isEmpty

/-- The contract that tables give: a listed symbol becomes its value, an
unlisted member has its types renamed. -/
def contract (t : SymbolTables) : Renaming :=
  let renameClass := fun c => (t.classes.get? c).getD c
  { renameClass
    renameMethod := fun x => (t.methods.get? x).getD (x.mapClasses renameClass)
    renameField := fun x => (t.fields.get? x).getD (x.mapClasses renameClass)
    classes := t.classes.keys
    methods := t.methods.keys
    fields := t.fields.keys }

end SymbolTables

/-- An identity that is dropped is still what the table answers. -/
theorem getD_filter_ne {α : Type} [DecidableEq α] (x : α) (o : Option α) :
    (o.filter fun v => x ≠ v).getD x = o.getD x := by
  rcases o with - | v
  · rfl
  · by_cases h : x = v <;> simp [Option.filter, h]

/-- Values that answer alike are alike once the identity is dropped. -/
theorem filter_ne_eq_of_getD_eq {α : Type} [DecidableEq α] {x : α} {o o' : Option α}
    (h : o.getD x = o'.getD x) : (o.filter fun v => x ≠ v) = o'.filter fun v => x ≠ v := by
  have hfilter (o : Option α) : (o.filter fun v => x ≠ v)
      = if o.getD x = x then none else some (o.getD x) := by
    rcases o with - | v
    · simp
    · by_cases hv : v = x
      · simp [hv]
      · simp [hv, Ne.symm hv]
  rw [hfilter, hfilter, h]

/-! ### Frozen mappings -/

/-- Tables with the direction in which they are read. -/
structure Frozen where
  forward : SymbolTables
  inverted : Bool := false
  /-- No class keeps its name. -/
  ne_of_mem : ∀ e ∈ forward.classes.entries, e.1 ≠ e.2

namespace Frozen

/-- Mappings without entries. -/
def empty : Frozen where
  forward := {}
  ne_of_mem := by simp [Table.empty]

instance : Inhabited Frozen := ⟨empty⟩

/-- The tables in the direction of reading. -/
def tables (m : Frozen) : SymbolTables := if m.inverted then m.forward.swap else m.forward

/-- Exchanges old and new symbols. -/
def invert (m : Frozen) : Frozen := { m with inverted := !m.inverted }

/-- What a reader is told who reads backwards for the first time. -/
def openingNotices (m : Frozen) : List Notice :=
  if m.inverted && m.forward.classes.swap.size ≠ m.forward.classes.size then
    [.inverseNotInjective m.forward.classes.size m.forward.classes.swap.size]
  else []

/-- Freezes tables; classes that keep their name are dropped. -/
def ofTables (t : SymbolTables) : Frozen where
  forward := t.dropFixedClasses
  ne_of_mem := by
    intro e he
    simpa using (List.mem_filter.1 he).2

/-- The contract of frozen mappings. -/
def contract (m : Frozen) : Renaming := m.tables.contract

/-- Builds mappings from complete pairs, later pairs overwriting earlier ones,
and refuses members whose types do not agree with the classes. -/
def ofPairs (classes : List (ClassName × ClassName)) (methods : List (MethodSymbol × MethodSymbol))
    (fields : List (FieldSymbol × FieldSymbol)) : Except RenamingError Frozen :=
  let m := ofTables ⟨.ofList classes, .ofList methods, .ofList fields⟩
  match m.contract.checkTypes with
  | .ok () => .ok m
  | .error e => .error e

/-- Builds mappings from classes and the new names of members; the types of a
renamed member are the renamed types of the old one. -/
def ofNames (classes : List (ClassName × ClassName)) (methodNames : List (MethodSymbol × String))
    (fieldNames : List (FieldSymbol × String)) : Frozen :=
  let classTable := Table.ofList classes
  let rename := fun c => (classTable.get? c).getD c
  ofTables
    { classes := classTable
      methods := .ofList (methodNames.map fun e => (e.1, (e.1.mapClasses rename).withName e.2))
      fields := .ofList (fieldNames.map fun e => (e.1, (e.1.mapClasses rename).withName e.2)) }

/-- Whether two values have the same entries in their direction of reading. -/
def sameEntries (m n : Frozen) : Bool := m.tables.sameEntries n.tables

/-- Whether there is no entry. -/
def isEmpty (m : Frozen) : Bool := m.tables.isEmpty

/-- A listing for readers: a heading for each kind and a line for each entry. -/
def text (m : Frozen) : String :=
  let line := fun (old renamed : String) => "  " ++ old ++ " = " ++ renamed ++ "\n"
  "classes:\n" ++ String.join (m.tables.classes.entries.map fun e => line e.1.text e.2.text)
  ++ "methods:\n" ++ String.join (m.tables.methods.entries.map fun e => line e.1.text e.2.text)
  ++ "fields:\n"
  ++ String.join (m.tables.fields.entries.map fun e => line e.1.internalName e.2.internalName)

@[simp] theorem invert_invert (m : Frozen) : m.invert.invert = m := by
  simp [invert]

@[simp] theorem tables_ofTables (t : SymbolTables) : (ofTables t).tables = t.dropFixedClasses := rfl

/-- A class that keeps its name is renamed alike when its entry is dropped. -/
theorem renameClass_ofTables (t : SymbolTables) (c : ClassName) :
    (ofTables t).contract.renameClass c = (t.classes.get? c).getD c := by
  show ((t.classes.filter fun e => e.1 ≠ e.2).get? c).getD c = _
  rw [Table.get?_filter, getD_filter_ne]

/-- In neither direction does a class keep its name. -/
theorem ne_of_mem_tables (m : Frozen) : ∀ e ∈ m.tables.classes.entries, e.1 ≠ e.2 := by
  intro e he
  rw [tables] at he
  split at he
  · exact (m.ne_of_mem _ (Table.mem_of_mem_entries_swap he)).symm
  · exact m.ne_of_mem e he

end Frozen

/-- A table lookup over the table's own keys lists the table's entries. -/
theorem Table.map_keys_getD {α β : Type} [DecidableEq α] (t : Table α β) (d : α → β) :
    (t.keys.map fun k => (k, (t.get? k).getD (d k))) = t.entries := by
  rw [Table.keys, List.map_map]
  conv => rhs; rw [← List.map_id t.entries]
  refine List.map_congr_left fun e he => ?_
  have : t.get? e.1 = some e.2 := Table.get?_eq_some_iff.2 he
  simp [this]

theorem SymbolTables.classEntries_contract (t : SymbolTables) :
    t.contract.classEntries = t.classes.entries := t.classes.map_keys_getD _

theorem SymbolTables.methodEntries_contract (t : SymbolTables) :
    t.contract.methodEntries = t.methods.entries := t.methods.map_keys_getD _

theorem SymbolTables.fieldEntries_contract (t : SymbolTables) :
    t.contract.fieldEntries = t.fields.entries := t.fields.map_keys_getD _

theorem Frozen.classEntries_contract (m : Frozen) :
    m.contract.classEntries = m.tables.classes.entries :=
  m.tables.classEntries_contract

/-! ### The same entries -/

theorem SymbolTables.sameEntries_iff {s t : SymbolTables} :
    s.sameEntries t = true ↔
      (∀ c, s.classes.get? c = t.classes.get? c) ∧ (∀ x, s.methods.get? x = t.methods.get? x) ∧
        ∀ x, s.fields.get? x = t.fields.get? x := by
  simp only [sameEntries, Bool.and_eq_true, Table.sameEntries_iff, and_assoc]

namespace Frozen

variable {m n k : Frozen}

theorem sameEntries_of_tables_eq (h : m.tables = n.tables) : m.sameEntries n = true := by
  rw [sameEntries, h, SymbolTables.sameEntries_iff]
  exact ⟨fun _ => rfl, fun _ => rfl, fun _ => rfl⟩

theorem sameEntries_symm (h : m.sameEntries n = true) : n.sameEntries m = true := by
  obtain ⟨hclasses, hmethods, hfields⟩ := SymbolTables.sameEntries_iff.1 h
  refine SymbolTables.sameEntries_iff.2 ⟨fun c => ?_, fun x => ?_, fun x => ?_⟩
  · exact (hclasses c).symm
  · exact (hmethods x).symm
  · exact (hfields x).symm

theorem sameEntries_trans (h : m.sameEntries n = true) (h' : n.sameEntries k = true) :
    m.sameEntries k = true := by
  obtain ⟨hclasses, hmethods, hfields⟩ := SymbolTables.sameEntries_iff.1 h
  obtain ⟨hclasses', hmethods', hfields'⟩ := SymbolTables.sameEntries_iff.1 h'
  refine SymbolTables.sameEntries_iff.2 ⟨fun c => ?_, fun x => ?_, fun x => ?_⟩
  · exact (hclasses c).trans (hclasses' c)
  · exact (hmethods x).trans (hmethods' x)
  · exact (hfields x).trans (hfields' x)

end Frozen

end SymbolRenaming
