/-
SymbolRenaming/Proofs/Mappings/Inverse.lean

Tables written the other way round, and what is lost on the way back.

Design.  Written the other way round, a table without shared values has exactly its
entries backwards; the two tables are then *opposite* (`Table.Opposite`), a relation
that can itself be read in both directions.  Everything below is about opposite
tables and never about the way in which one of them was made.

What the classes of one table do, the classes of the other undo, but for one case.
A class can be the new name of another class without being renamed itself: its name
is *taken* (`SymbolTables.IsTaken`).  Going there it keeps its name, and coming back
it is moved away.  The two tables of a kind of members are turned round each for
itself, and so the types of a member that carries a taken class no longer fit the
classes on the way back.  Members that carry no such class are the *reversible* ones
(`MemberKind.Reversible`).

Main results: `renameClass_renameClass_iff` and `consistent_iff_reversible`.
-/
import SymbolRenaming.Proofs.Composition.Run

namespace SymbolRenaming

/-! ### Opposite tables -/

namespace Table

variable {α β : Type} [DecidableEq α] [DecidableEq β]

/-- No two keys share a value. -/
def Injective (t : Table α β) : Prop := t.values.Nodup

instance (t : Table α β) : Decidable t.Injective := inferInstanceAs (Decidable (List.Nodup _))

/-- Two tables with the same entries, in one of them backwards. -/
def Opposite (s : Table α β) (t : Table β α) : Prop :=
  ∀ x y, s.get? x = some y ↔ t.get? y = some x

theorem Opposite.symm {s : Table α β} {t : Table β α} (h : s.Opposite t) : t.Opposite s :=
  fun y x => (h x y).symm

theorem Opposite.get?_iff {s : Table α β} {t : Table β α} (h : s.Opposite t) {x : α} {y : β} :
    s.get? x = some y ↔ t.get? y = some x :=
  h x y

/-- A table without shared values keeps all its entries when it is written the other
way round. -/
theorem opposite_swap {t : Table α β} (h : t.Injective) : t.Opposite t.swap := by
  have hkeys : ((t.entries.map Prod.swap).map Prod.fst).Nodup := by
    rw [List.map_map]
    exact h
  have hentries : t.swap.entries = t.entries.map Prod.swap := entries_ofList hkeys
  intro x y
  rw [get?_eq_some_iff, get?_eq_some_iff, hentries, List.mem_map]
  constructor
  · intro he
    exact ⟨(x, y), he, rfl⟩
  · rintro ⟨e, he, heq⟩
    obtain ⟨rfl, rfl⟩ := Prod.mk.inj heq
    exact he

omit [DecidableEq β] in
theorem mem_values_iff {t : Table α β} {y : β} : y ∈ t.values ↔ ∃ x, t.get? x = some y := by
  rw [values, List.mem_map]
  constructor
  · rintro ⟨e, he, rfl⟩
    exact ⟨e.1, get?_eq_some_iff.2 he⟩
  · rintro ⟨x, hx⟩
    exact ⟨(x, y), get?_eq_some_iff.1 hx, rfl⟩

omit [DecidableEq β] in
/-- What holds of all keys holds of all symbols for which something is found. -/
theorem forall_mem_keys_iff {t : Table α β} {q : α → Prop} :
    (∀ x ∈ t.keys, q x) ↔ ∀ x y, t.get? x = some y → q x := by
  simp only [← contains_iff, contains, Option.isSome_iff_exists]
  exact forall_congr' fun x => forall_exists_index

end Table

namespace SymbolTables

/-- In no table do two keys share a value. -/
structure Injective (t : SymbolTables) : Prop where
  classes : t.classes.Injective
  methods : t.methods.Injective
  fields : t.fields.Injective

/-- Tables of which one is the other read backwards. -/
structure Opposite (s t : SymbolTables) : Prop where
  classes : s.classes.Opposite t.classes
  methods : s.methods.Opposite t.methods
  fields : s.fields.Opposite t.fields

theorem Opposite.symm {s t : SymbolTables} (h : s.Opposite t) : t.Opposite s where
  classes := h.classes.symm
  methods := h.methods.symm
  fields := h.fields.symm

theorem opposite_swap {t : SymbolTables} (h : t.Injective) : t.Opposite t.swap where
  classes := Table.opposite_swap h.classes
  methods := Table.opposite_swap h.methods
  fields := Table.opposite_swap h.fields

/-- Another class gets the name of this one, which keeps it. -/
def IsTaken (t : SymbolTables) (c : ClassName) : Prop :=
  c ∉ t.classes.keys ∧ c ∈ t.classes.values

instance (t : SymbolTables) (c : ClassName) : Decidable (t.IsTaken c) :=
  inferInstanceAs (Decidable (_ ∧ _))

end SymbolTables

/-- Mappings that are read as they were built are opposite to their inverse, if no
values are shared. -/
theorem Frozen.opposite_invert {m : Frozen} (hforward : m.inverted = false)
    (h : m.tables.Injective) : m.tables.Opposite m.invert.tables := by
  have htables : m.tables = m.forward := by
    rw [tables, hforward]
    rfl
  have hinvert : m.invert.tables = m.forward.swap := by
    rw [tables, invert, hforward]
    rfl
  rw [hinvert, ← htables]
  exact SymbolTables.opposite_swap h

/-! ### There and back -/

section Back

variable {s t : SymbolTables}

/-- The classes go there and back, all but the taken ones. -/
theorem renameClass_renameClass_iff (h : s.classes.Opposite t.classes) {c : ClassName} :
    t.contract.renameClass (s.contract.renameClass c) = c ↔ ¬ s.IsTaken c := by
  show (t.classes.get? ((s.classes.get? c).getD c)).getD ((s.classes.get? c).getD c) = c ↔ _
  rcases e : s.classes.get? c with - | d
  · -- the class keeps its name there, and whoever has taken the name moves it back
    have hkey : c ∉ s.classes.keys := Table.get?_eq_none_iff.1 e
    rcases e' : t.classes.get? c with - | u
    · have hvalue : c ∉ s.classes.values := by
        rw [Table.mem_values_iff]
        rintro ⟨u, hu⟩
        rw [h.get?_iff, e'] at hu
        cases hu
      simp [SymbolTables.IsTaken, e', hvalue]
    · have hu : s.classes.get? u = some c := h.get?_iff.2 e'
      have hvalue : c ∈ s.classes.values := Table.mem_values_iff.2 ⟨u, hu⟩
      have hne : u ≠ c := by
        rintro rfl
        rw [e] at hu
        cases hu
      simp [SymbolTables.IsTaken, e', hkey, hvalue, hne]
  · have hkey : c ∈ s.classes.keys := by
      rw [← Table.contains_iff, Table.contains, e]
      rfl
    have hd : t.classes.get? d = some c := h.get?_iff.1 e
    simp [SymbolTables.IsTaken, hd, hkey]

namespace Composition.MemberKind

variable {α : Type} [DecidableEq α] (K : MemberKind α)

/-- No member among the keys carries a taken class. -/
def Reversible (s : SymbolTables) : Prop :=
  ∀ x ∈ (K.table s).keys, ∀ c ∈ K.classes x, ¬ s.IsTaken c

/-- One consistent entry is consistent backwards exactly if its member carries no
taken class. -/
theorem sameTypes_back_iff (h : s.classes.Opposite t.classes) {x y : α}
    (hxy : K.SameTypes (K.mapClasses s.contract.renameClass x) y) :
    K.SameTypes (K.mapClasses t.contract.renameClass y) x ↔
      ∀ c ∈ K.classes x, ¬ s.IsTaken c := by
  have hback := K.sameTypes_mapClasses hxy t.contract.renameClass
  rw [K.mapClasses_mapClasses] at hback
  have hid : K.SameTypes (K.mapClasses (t.contract.renameClass ∘ s.contract.renameClass) x)
      (K.mapClasses id x) ↔ ∀ c ∈ K.classes x, ¬ s.IsTaken c := by
    rw [K.sameTypes_mapClasses_iff]
    exact forall₂_congr fun c _ => renameClass_renameClass_iff h
  rw [K.mapClasses_id, Member.SameTypes, hback] at hid
  exact hid

/-- Of consistent members, those whose entries satisfy a condition are consistent
backwards exactly if they carry no taken class. -/
theorem forall_sameTypes_back_iff {p : α → α → Prop} (hclasses : s.classes.Opposite t.classes)
    (h : (K.table s).Opposite (K.table t)) (hs : K.Consistent s.contract) :
    (∀ y x, (K.table t).get? y = some x → p x y →
      K.SameTypes (K.mapClasses t.contract.renameClass y) x) ↔
    ∀ x y, (K.table s).get? x = some y → p x y → ∀ c ∈ K.classes x, ¬ s.IsTaken c := by
  rw [K.consistent_contract_iff] at hs
  rw [forall_comm]
  refine forall₂_congr fun x y => ?_
  rw [← h.get?_iff]
  refine forall₂_congr fun hxy _ => ?_
  exact K.sameTypes_back_iff hclasses (hs x y hxy)

/-- Consistent members are consistent backwards exactly if they are reversible. -/
theorem consistent_iff_reversible (hclasses : s.classes.Opposite t.classes)
    (h : (K.table s).Opposite (K.table t)) (hs : K.Consistent s.contract) :
    K.Consistent t.contract ↔ K.Reversible s := by
  have hback := K.forall_sameTypes_back_iff (p := fun _ _ => True) hclasses h hs
  simp only [forall_const] at hback
  rw [K.consistent_contract_iff, hback, Reversible, Table.forall_mem_keys_iff]

/-- What consistent and reversible members become is reversible too. -/
theorem Reversible.back {K : MemberKind α} (hr : K.Reversible s)
    (hclasses : s.classes.Opposite t.classes) (h : (K.table s).Opposite (K.table t))
    (hs : K.Consistent s.contract) : K.Reversible t := by
  have ht := (K.consistent_iff_reversible hclasses h hs).2 hr
  exact (K.consistent_iff_reversible hclasses.symm h.symm ht).1 hs

end Composition.MemberKind

end Back

/-- No field and no method among the keys carries a taken class. -/
structure SymbolTables.Reversible (t : SymbolTables) : Prop where
  fields : ∀ x ∈ t.fields.keys, ∀ c ∈ x.classes, ¬ t.IsTaken c
  methods : ∀ x ∈ t.methods.keys, ∀ c ∈ x.classes, ¬ t.IsTaken c

section Tables

open SymbolRenaming.Composition

variable {s t : SymbolTables}

/-- Consistent tables are consistent backwards exactly if they are reversible. -/
theorem SymbolTables.consistent_iff_reversible (h : s.Opposite t) (hs : s.contract.Consistent) :
    t.contract.Consistent ↔ s.Reversible := by
  obtain ⟨hfields, hmethods⟩ := consistent_iff.1 hs
  rw [consistent_iff,
    fieldKind.consistent_iff_reversible h.classes h.fields hfields,
    methodKind.consistent_iff_reversible h.classes h.methods hmethods]
  exact ⟨fun hr => ⟨hr.1, hr.2⟩, fun hr => ⟨hr.fields, hr.methods⟩⟩

end Tables

end SymbolRenaming
