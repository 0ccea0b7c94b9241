/-
SymbolRenaming/Proofs/Mappings/Return.lean

Symbols that come back through the inverse.

Design.  Several keys of a table may share a value.  Written the other way round, the
table answers with the last of them, the one behind which the value does not come
again (`Table.IsLastKey`, `Table.get?_swap_eq_some_iff`).

A symbol without an entry is renamed by some other means, there and back, and it can
be caught on the way: what it has become may be the value of an entry, and the inverse
takes it for the key of this entry.  So there are two ways to come back
(`Table.getD_swap_iff`): as the last key with a value, or without an entry in either
direction, if the other means lead back.  A class without an entry keeps its name.  A
member without an entry has its types renamed, and these come back exactly if each
class in it does.  Consistency plays no part in this.

Main result: `Frozen.rename_invert_rename_iff`.
-/
import SymbolRenaming.Proofs.Mappings.Inverse
import SymbolRenaming.Proofs.Table.Writes

namespace SymbolRenaming

/-! ### The last key with a value -/

namespace Table

variable {α β : Type}

/-- A key that has a value which no later key has. -/
def IsLastKey (t : Table α β) (x : α) (y : β) : Prop :=
  ∃ front back, t.entries = front ++ (x, y) :: back ∧ ∀ e ∈ back, e.2 ≠ y

theorem IsLastKey.get?_eq [DecidableEq α] {t : Table α β} {x : α} {y : β}
    (h : t.IsLastKey x y) : t.get? x = some y := by
  obtain ⟨front, back, hentries, -⟩ := h
  rw [get?_eq_some_iff, hentries]
  simp

section Swap

variable [DecidableEq β] {t : Table α β} {x : α} {y : β}

/-- Written the other way round, a table leads each value to the last key that has it. -/
theorem get?_swap_eq_some_iff : t.swap.get? y = some x ↔ t.IsLastKey x y := by
  rw [swap, get?_ofList, Entries.last?_eq_some_iff]
  constructor
  · rintro ⟨front, back, hcut, hback⟩
    refine ⟨front.map Prod.swap, back.map Prod.swap, ?_, ?_⟩
    · have hentries := congrArg (List.map Prod.swap) hcut
      simpa [Function.comp_def] using hentries
    · intro e he
      obtain ⟨e', he', rfl⟩ := List.mem_map.1 he
      exact hback e' he'
  · rintro ⟨front, back, hentries, hback⟩
    refine ⟨front.map Prod.swap, back.map Prod.swap, by simp [hentries], ?_⟩
    intro e he
    obtain ⟨e', he', rfl⟩ := List.mem_map.1 he
    exact hback e' he'

theorem get?_swap_eq_none_iff : t.swap.get? y = none ↔ y ∉ t.values := by
  rw [swap, get?_ofList, Entries.last?_eq_none_iff, List.map_map]
  rfl

instance [DecidableEq α] (t : Table α β) (x : α) (y : β) : Decidable (t.IsLastKey x y) :=
  decidable_of_iff _ get?_swap_eq_some_iff

/-- For a value, the fallback of a table written the other way round is not asked. -/
theorem isLastKey_getD_swap (h : y ∈ t.values) (fallback : α) :
    t.IsLastKey ((t.swap.get? y).getD fallback) y := by
  rcases e : t.swap.get? y with - | x
  · exact absurd h (get?_swap_eq_none_iff.1 e)
  · exact get?_swap_eq_some_iff.1 e

end Swap

section Back

variable [DecidableEq α] {t : Table α α} {x : α}

/-- Where a table and, for the symbols that it does not know, some other means rename
there and back, a symbol comes back as the last key with its value, or by the other
means alone. -/
theorem getD_swap_iff (there back : α → α) :
    (t.swap.get? ((t.get? x).getD (there x))).getD (back ((t.get? x).getD (there x))) = x ↔
      (∃ y, t.IsLastKey x y) ∨ x ∉ t.keys ∧ there x ∉ t.values ∧ back (there x) = x := by
  rcases e : t.get? x with - | y
  · have hkey : x ∉ t.keys := get?_eq_none_iff.1 e
    have hlast : ∀ y, ¬ t.IsLastKey x y := by
      intro y hy
      rw [hy.get?_eq] at e
      cases e
    rcases e' : t.swap.get? (there x) with - | u
    · have hvalue : there x ∉ t.values := get?_swap_eq_none_iff.1 e'
      simp [e', hlast, hkey, hvalue]
    · -- an entry catches the symbol, and its key is another symbol
      have hu : t.IsLastKey u (there x) := get?_swap_eq_some_iff.1 e'
      have hvalue : there x ∈ t.values := mem_values_iff.2 ⟨u, hu.get?_eq⟩
      have hne : u ≠ x := by
        rintro rfl
        exact hlast _ hu
      simp [e', hlast, hvalue, hne]
  · have hkey : x ∈ t.keys := by
      rw [mem_keys_iff_isSome, e]
      rfl
    have hlast : (∃ v, t.IsLastKey x v) ↔ t.swap.get? y = some x := by
      rw [get?_swap_eq_some_iff]
      refine ⟨?_, fun hy => ⟨y, hy⟩⟩
      rintro ⟨v, hv⟩
      obtain rfl : y = v := Option.some.inj (e.symm.trans hv.get?_eq)
      exact hv
    rw [hlast]
    rcases e' : t.swap.get? y with - | u
    · exact absurd (mem_values_iff.2 ⟨x, e⟩) (get?_swap_eq_none_iff.1 e')
    · simp [e', hkey]

end Back

end Table

/-! ### Classes and members -/

/-- A class that is the last one with its new name, or that neither has a new name nor
has the new name of another class. -/
def SymbolTables.ClassReturns (t : SymbolTables) (c : ClassName) : Prop :=
  (∃ d, t.classes.IsLastKey c d) ∨ c ∉ t.classes.keys ∧ c ∉ t.classes.values

theorem SymbolTables.renameClass_swap_iff {t : SymbolTables} {c : ClassName} :
    t.swap.contract.renameClass (t.contract.renameClass c) = c ↔ t.ClassReturns c := by
  have hback := t.classes.getD_swap_iff (x := c) id id
  simp only [id_eq, and_true] at hback
  exact hback

namespace Composition.MemberKind

variable {α : Type} [DecidableEq α] (K : MemberKind α) {t : SymbolTables} {x : α}

/-- A member that is the last one with its value, or that is no key, does not become
the value of one, and has only classes that come back. -/
def Returns (t : SymbolTables) (x : α) : Prop :=
  (∃ y, (K.table t).IsLastKey x y) ∨
    x ∉ (K.table t).keys ∧ K.rename t.contract x ∉ (K.table t).values ∧
      ∀ c ∈ K.classes x, t.ClassReturns c

/-- The types of a member come back with its classes. -/
theorem mapClasses_swap_iff :
    K.mapClasses t.swap.contract.renameClass (K.mapClasses t.contract.renameClass x) = x ↔
      ∀ c ∈ K.classes x, t.ClassReturns c := by
  rw [K.mapClasses_mapClasses, K.mapClasses_eq_self_iff]
  exact forall₂_congr fun c _ => SymbolTables.renameClass_swap_iff

theorem rename_contract_of_not_mem (h : x ∉ (K.table t).keys) :
    K.rename t.contract x = K.mapClasses t.contract.renameClass x := by
  rw [K.rename_contract, Table.get?_eq_none_iff.2 h, Option.getD_none]

theorem rename_swap_iff (hswap : K.table t.swap = (K.table t).swap) :
    K.rename t.swap.contract (K.rename t.contract x) = x ↔ K.Returns t x := by
  have hback := (K.table t).getD_swap_iff (x := x) (K.mapClasses t.contract.renameClass)
    (K.mapClasses t.swap.contract.renameClass)
  rw [← hswap, ← K.rename_contract t, ← K.rename_contract t.swap, K.mapClasses_swap_iff] at hback
  rw [hback, Returns]
  refine or_congr_right (and_congr_right fun hkey => ?_)
  rw [K.rename_contract_of_not_mem hkey]

/-- The inverse answers to a value with the last key that has it. -/
theorem isLastKey_rename_swap (hswap : K.table t.swap = (K.table t).swap) {y : α}
    (h : y ∈ (K.table t).values) : (K.table t).IsLastKey (K.rename t.swap.contract y) y := by
  rw [K.rename_contract, hswap]
  exact Table.isLastKey_getD_swap h _

end Composition.MemberKind

/-! ### There and back -/

namespace Frozen

open SymbolRenaming.Composition

/-- **What comes back through the inverse.**  For mappings that are read as they were
built, a symbol comes back exactly if it is the last key with its value, or if it is no
key and nothing catches it: a class must not be the new name of another one, and a
member must not become the value of an entry and must have only classes that come
back.  To a value that several keys share the inverse answers with the last of them. -/
theorem rename_invert_rename_iff {m : Frozen} (hforward : m.inverted = false) :
    ((∀ c, m.invert.contract.renameClass (m.contract.renameClass c) = c ↔
        m.tables.ClassReturns c) ∧
      (∀ x, m.invert.contract.renameMethod (m.contract.renameMethod x) = x ↔
        methodKind.Returns m.tables x) ∧
      ∀ x, m.invert.contract.renameField (m.contract.renameField x) = x ↔
        fieldKind.Returns m.tables x) ∧
    (∀ d ∈ m.tables.classes.values,
      m.tables.classes.IsLastKey (m.invert.contract.renameClass d) d) ∧
    (∀ y ∈ m.tables.methods.values,
      m.tables.methods.IsLastKey (m.invert.contract.renameMethod y) y) ∧
    ∀ y ∈ m.tables.fields.values,
      m.tables.fields.IsLastKey (m.invert.contract.renameField y) y := by
  have hinvert : m.invert.contract = m.tables.swap.contract := by
    rw [contract, tables, invert, tables, hforward]
    rfl
  rw [hinvert]
  refine ⟨⟨?_, ?_, ?_⟩, ?_, ?_, ?_⟩
  · intro c
    exact SymbolTables.renameClass_swap_iff
  · intro x
    exact methodKind.rename_swap_iff rfl
  · intro x
    exact fieldKind.rename_swap_iff rfl
  · intro d hd
    exact Table.isLastKey_getD_swap hd d
  · intro y hy
    exact methodKind.isLastKey_rename_swap rfl hy
  · intro y hy
    exact fieldKind.isLastKey_rename_swap rfl hy

/-- Two classes get one new name, and with it two fields become one. -/
def merging : Frozen :=
  .ofNames [(⟨"a"⟩, ⟨"z"⟩), (⟨"b"⟩, ⟨"z"⟩), (⟨"c"⟩, ⟨"b"⟩)] []
    [(⟨⟨"a"⟩, "f"⟩, "g"), (⟨⟨"b"⟩, "f"⟩, "g")]

/-- Of the two classes and of the two fields the later one comes back.  A field without
an entry comes back with its class, unless it becomes what the two have become. -/
theorem rename_invert_rename_merging :
    merging.inverted = false ∧
      merging.invert.contract.renameClass (merging.contract.renameClass ⟨"b"⟩) = ⟨"b"⟩ ∧
      merging.tables.classes.IsLastKey (merging.invert.contract.renameClass ⟨"z"⟩) ⟨"z"⟩ ∧
      merging.invert.contract.renameField (merging.contract.renameField ⟨⟨"b"⟩, "f"⟩)
        = ⟨⟨"b"⟩, "f"⟩ ∧
      merging.invert.contract.renameField (merging.contract.renameField ⟨⟨"b"⟩, "h"⟩)
        = ⟨⟨"b"⟩, "h"⟩ ∧
      ¬ fieldKind.Returns merging.tables ⟨⟨"b"⟩, "g"⟩ ∧
      ¬ fieldKind.Returns merging.tables ⟨⟨"a"⟩, "f"⟩ := by
  have hforward : merging.inverted = false := rfl
  obtain ⟨⟨hclass, -, hfield⟩, hlast, -⟩ := rename_invert_rename_iff hforward
  have hb : merging.tables.ClassReturns ⟨"b"⟩ := Or.inl ⟨⟨"z"⟩, by decide⟩
  refine ⟨hforward, (hclass _).2 hb, hlast _ (by decide), (hfield _).2 ?_, (hfield _).2 ?_, ?_, ?_⟩
  · exact Or.inl ⟨⟨⟨"z"⟩, "g"⟩, by decide⟩
  · refine Or.inr ⟨by decide, by decide, ?_⟩
    intro c hc
    obtain rfl := List.mem_singleton.1 hc
    exact hb
  · rw [← hfield]
    decide
  · rw [← hfield]
    decide

end Frozen

end SymbolRenaming
