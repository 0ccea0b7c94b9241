/-
SymbolRenaming/Proofs/Composition/Sequential.lean

When the entries of a composition are the layers read one after the other.

Design.  An entry that enters at some layer by a key is the key led through the
layers from there on.  Reading the layers one after the other starts with the
first name instead, and leads it through the layers behind as well.  The two
meet if the layers behind take the first name to the key, or at least to a name
that ends in the same place.  Classes that the composition adds at its end are
led through all layers from the start, so that nothing is asked of them.

So the entries are sequential exactly when all symbols that enter, and that end
under another name than their first one, are (`entries_compose_iff`).  A layer
may use a name for a class of its own that the layers behind give and take away
again, and then the entry is not what the layers do (`entries_compose_reused`).
-/
import SymbolRenaming.Proofs.Composition.Success

namespace SymbolRenaming

namespace Composition

/-! ### Sequential symbols -/

namespace SymbolKind

variable {α : Type} [DecidableEq α]

/-- Every symbol that enters, and that ends under another name than its first
one, ends where all layers take its first name. -/
def Sequential (K : SymbolKind α) (layers : List Renaming) : Prop :=
  ∀ behind layer ahead key first, layers = behind ++ layer :: ahead →
    K.Enters behind layer key first → K.through (layer :: ahead) key ≠ first →
    K.through (layer :: ahead) key = K.through (layer :: ahead) (K.through behind first)

variable (K : SymbolKind α) {layers : List Renaming}

theorem sequential_iff :
    K.Sequential layers ↔ ∀ first v, (K.table (stateAfter layers)).get? first = some v →
      v ≠ first → v = K.through layers first := by
  constructor
  · intro h first v hv hne
    obtain ⟨behind, layer, ahead, key, rfl, henter, rfl⟩ := K.get?_stateAfter_eq_some_iff.1 hv
    rw [K.through_append]
    exact h behind layer ahead key first rfl henter hne
  · rintro h behind layer ahead key first rfl henter hne
    rw [← K.through_append]
    refine h first _ ?_ hne
    exact K.get?_stateAfter_eq_some_iff.2 ⟨behind, layer, ahead, key, rfl, henter, rfl⟩

end SymbolKind

/-! ### Entries of the final tables -/

theorem MemberKind.forall_entries_finalTables_iff {α : Type} [DecidableEq α] (K : MemberKind α)
    {layers : List Renaming} :
    (∀ e ∈ (K.table (finalTables layers)).entries, e.2 = K.through layers e.1) ↔
      K.Sequential layers := by
  rw [K.sequential_iff]
  constructor
  · intro h first v hv hne
    exact h (first, v) (Table.get?_eq_some_iff.1 (K.get?_finalTables_eq_some_iff.2 ⟨hne, hv⟩))
  · rintro h ⟨first, v⟩ he
    obtain ⟨hne, hv⟩ := K.get?_finalTables_eq_some_iff.1 (Table.get?_eq_some_iff.2 he)
    exact h first v hv hne

theorem forall_classes_finalTables_iff {layers : List Renaming} :
    (∀ e ∈ (finalTables layers).classes.entries, e.2 = renameClassThrough layers e.1) ↔
      classKind.Sequential layers := by
  rw [classKind.sequential_iff]
  constructor
  · intro h first v hv hne
    refine h (first, v) (Table.get?_eq_some_iff.1 ?_)
    exact get?_classes_finalTables_eq_some_iff.2 ⟨hne, Or.inl hv⟩
  · rintro h ⟨first, v⟩ he
    obtain ⟨hne, hv | ⟨-, -, hv⟩⟩ :=
      get?_classes_finalTables_eq_some_iff.1 (Table.get?_eq_some_iff.2 he)
    · exact h first v hv hne
    · -- a class that was added at the end has been led through all layers
      exact hv

/-! ### Sequential entries -/

/-- **When a composition is sequential.**  The entries of a composition, of
layers of any kinds, are what the layers do one after the other exactly if the
symbols that enter are sequential. -/
theorem entries_compose_iff {layers : List Layer} {r : Frozen}
    (h : (compose layers).value = .ok r) :
    ((∀ e ∈ r.contract.classEntries,
        e.2 = renameClassThrough (layers.map Layer.contract) e.1) ∧
      (∀ e ∈ r.contract.fieldEntries,
        e.2 = renameFieldThrough (layers.map Layer.contract) e.1) ∧
      ∀ e ∈ r.contract.methodEntries,
        e.2 = renameMethodThrough (layers.map Layer.contract) e.1) ↔
      classKind.Sequential (layers.map Layer.contract) ∧
      fieldKind.Sequential (layers.map Layer.contract) ∧
      methodKind.Sequential (layers.map Layer.contract) := by
  rw [contract_of_value_compose h, SymbolTables.classEntries_contract,
    SymbolTables.fieldEntries_contract, SymbolTables.methodEntries_contract]
  exact and_congr forall_classes_finalTables_iff
    (and_congr fieldKind.forall_entries_finalTables_iff
      methodKind.forall_entries_finalTables_iff)

/-- An exchange of names and what is renamed in its names are sequential. -/
theorem sequential_exchange :
    ∃ r, (compose ([exchange, details].map Layer.ofMappings)).value = .ok r ∧
      classKind.Sequential ([exchange, details].map Mappings.contract) ∧
      fieldKind.Sequential ([exchange, details].map Mappings.contract) ∧
      methodKind.Sequential ([exchange, details].map Mappings.contract) := by
  have hok : (compose ([exchange, details].map Layer.ofMappings)).value
      = .ok (.ofTables (finalTables ([exchange, details].map Mappings.contract))) := rfl
  refine ⟨_, hok, (entries_compose_iff hok).1 ?_⟩
  decide

/-- The names `b` and `a`, as the tables before have them, are used once more. -/
def reuses : Mappings := .frozen (.ofNames [(⟨"b"⟩, ⟨"a"⟩), (⟨"a"⟩, ⟨"c"⟩)] [] [])

/-- The class `x` has become `a` and then `b`, and the third table takes it back
to `a`.  Its key `a` enters as a class of its own, although the second table
has already taken this name away, so that the entry from `a` to `c` is not what
the tables do to `a`. -/
theorem entries_compose_reused :
    ∃ ms : List Mappings, ∃ r,
      (compose (ms.map Layer.ofMappings)).value = .ok r ∧
      (⟨"a"⟩, ⟨"c"⟩) ∈ r.contract.classEntries ∧
      renameClassThrough (ms.map Mappings.contract) ⟨"a"⟩ = ⟨"a"⟩ := by
  refine ⟨[.frozen (.ofNames [(⟨"x"⟩, ⟨"a"⟩)] [] []), .frozen (.ofNames [(⟨"a"⟩, ⟨"b"⟩)] [] []),
    reuses], _, rfl, ?_, ?_⟩
  · decide
  · rfl

end Composition

end SymbolRenaming
