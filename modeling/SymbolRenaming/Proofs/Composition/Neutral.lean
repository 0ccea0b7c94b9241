/-
SymbolRenaming/Proofs/Composition/Neutral.lean

Layers that say nothing.

Design.  Mappings without entries and without rules have one contract, whatever
their kind: they list nothing and rename nothing (`contract_of_isVoid`).  A layer
with this contract leaves every state as it finds it (`applyLayer_identity`), and it
does not stop a class that is led through all layers.  A run looks at its layers in
these two places only, the fold over the states and the classes that are followed at
the end, so that the final tables come out the same (`finalTables_insert_identity`).
Nothing is asked of the other layers: the tables agree before anyone judges them.

Main result: `value_compose_insert_void`.
-/
import SymbolRenaming.Proofs.Composition.Stale
import SymbolRenaming.Proofs.Composition.Success
import SymbolRenaming.Proofs.Composition.Trailing

namespace SymbolRenaming

/-! ### Mappings that say nothing -/

theorem Table.eq_empty_of_isEmpty {α β : Type} {t : Table α β} (h : t.isEmpty = true) :
    t = .empty :=
  Table.ext (List.isEmpty_iff.1 h)

/-- What lists nothing, renames no class and gives no member another name renames
nothing at all. -/
theorem Renaming.eq_identity {r : Renaming} (hsilent : Composition.Silent r)
    (hclass : r.renameClass = id) (hmethod : ∀ x, r.renameMethod x = x.mapClasses r.renameClass)
    (hfield : ∀ x, r.renameField x = x.mapClasses r.renameClass) : r = .identity := by
  have hmethods : r.renameMethod = id := by
    funext x
    rw [hmethod, hclass]
    exact Composition.methodMember.mapClasses_id x
  have hfields : r.renameField = id := by
    funext x
    rw [hfield, hclass]
    exact Composition.fieldMember.mapClasses_id x
  calc r = ⟨r.renameClass, r.renameMethod, r.renameField, r.classes, r.methods, r.fields⟩ := rfl
    _ = .identity := by
      rw [hclass, hmethods, hfields, hsilent.classes, hsilent.methods, hsilent.fields]
      rfl

namespace Mappings

/-- Whether mappings have neither an entry nor a rule. -/
def isVoid : Mappings → Bool
  | frozen m => m.isEmpty
  | editable m => m.isEmpty
  | rules m => m.classRule.isNone && m.methodRule.isNone && m.fieldRule.isNone

/-- Mappings of any kind that say nothing have the same contract. -/
theorem contract_of_isVoid {m : Mappings} (h : m.isVoid = true) : m.contract = .identity := by
  cases m with
  | frozen m =>
    -- an inverse is void if the tables are that it is read from
    show m.tables.contract = .identity
    simp only [isVoid, Frozen.isEmpty, SymbolTables.isEmpty, Bool.and_eq_true] at h
    obtain ⟨⟨hclasses, hmethods⟩, hfields⟩ := h
    generalize m.tables = t at *
    obtain ⟨cs, ms, fs⟩ := t
    obtain rfl := Table.eq_empty_of_isEmpty hclasses
    obtain rfl := Table.eq_empty_of_isEmpty hmethods
    obtain rfl := Table.eq_empty_of_isEmpty hfields
    exact Renaming.eq_identity ⟨rfl, rfl, rfl⟩ rfl (fun _ => rfl) fun _ => rfl
  | editable m =>
    simp only [isVoid, Editable.isEmpty, Bool.and_eq_true] at h
    obtain ⟨⟨hclasses, hmethods⟩, hfields⟩ := h
    obtain ⟨cs, ms, fs⟩ := m
    obtain rfl := Table.eq_empty_of_isEmpty hclasses
    obtain rfl := Table.eq_empty_of_isEmpty hmethods
    obtain rfl := Table.eq_empty_of_isEmpty hfields
    exact Renaming.eq_identity ⟨rfl, rfl, rfl⟩ rfl (fun _ => rfl) fun _ => rfl
  | rules m =>
    simp only [isVoid, Bool.and_eq_true, Option.isNone_iff_eq_none] at h
    obtain ⟨⟨hclasses, hmethods⟩, hfields⟩ := h
    obtain ⟨c, x, y⟩ := m
    subst hclasses hmethods hfields
    exact Renaming.eq_identity ⟨rfl, rfl, rfl⟩ rfl (fun _ => rfl) fun _ => rfl

end Mappings

namespace Composition

/-! ### A layer that says nothing -/

theorem SymbolKind.table_applyLayer_identity {α : Type} [DecidableEq α] (K : SymbolKind α)
    (hkeys : K.keys .identity = []) (hrename : K.rename .identity = id) (s : SymbolTables) :
    K.table (applyLayer s .identity) = K.table s := by
  rw [K.table_applyLayer_of_nil hkeys, hrename]
  exact Table.ext (List.map_id _)

/-- No symbol moves, and none comes in. -/
theorem applyLayer_identity (s : SymbolTables) : applyLayer s .identity = s := by
  have hclasses := classKind.table_applyLayer_identity rfl rfl s
  have hmethods := methodKind.table_applyLayer_identity rfl rfl s
  have hfields := fieldKind.table_applyLayer_identity rfl rfl s
  calc applyLayer s .identity
      = ⟨(applyLayer s .identity).classes, (applyLayer s .identity).methods,
          (applyLayer s .identity).fields⟩ := rfl
    _ = ⟨s.classes, s.methods, s.fields⟩ :=
        congr (congrArg₂ SymbolTables.mk hclasses hmethods) hfields
    _ = s := rfl

section Run

variable (xs ys : List Renaming)

theorem stateAfter_insert_identity :
    stateAfter (xs ++ .identity :: ys) = stateAfter (xs ++ ys) := by
  rw [stateAfter_append, List.foldl_cons, applyLayer_identity, ← stateAfter_append]

theorem renameClassThrough_insert_identity :
    renameClassThrough (xs ++ .identity :: ys) = renameClassThrough (xs ++ ys) := by
  funext c
  calc renameClassThrough (xs ++ .identity :: ys) c
      = renameClassThrough ys (Renaming.identity.renameClass (renameClassThrough xs c)) :=
        classKind.through_append xs (.identity :: ys) c
    _ = renameClassThrough ys (renameClassThrough xs c) := rfl
    _ = renameClassThrough (xs ++ ys) c := (classKind.through_append xs ys c).symm

/-- The final tables do not show whether there was such a layer. -/
theorem finalTables_insert_identity :
    finalTables (xs ++ .identity :: ys) = finalTables (xs ++ ys) := by
  rw [finalTables, finalTables, stateAfter_insert_identity, close, close,
    renameClassThrough_insert_identity]

end Run

/-! ### Composition with a layer that says nothing -/

/-- **Layers without entries and rules are units.**  Put at any place among layers of
any kinds, mappings that say nothing leave what the composition comes to as it was:
the same tables in the same order, or the same error. -/
theorem value_compose_insert_void {e : Mappings} (h : e.isVoid = true) (xs ys : List Layer) :
    (compose (xs ++ [.ofMappings e] ++ ys)).value = (compose (xs ++ ys)).value := by
  have hcontract : (Layer.ofMappings e).contract = .identity := Mappings.contract_of_isVoid h
  refine value_compose_congr ?_
  rw [List.append_assoc, List.singleton_append, List.map_append, List.map_cons, hcontract,
    List.map_append]
  exact finalTables_insert_identity _ _

/-- Editable mappings whose only entry was taken out again. -/
def emptied : Mappings :=
  .editable ((Editable.empty.setClass ⟨"a"⟩ ⟨"b"⟩).setClass ⟨"a"⟩ ⟨"a"⟩)

/-- Between layers that do not compose, nothing makes no difference, and neither does it
behind layers that do. -/
theorem value_compose_insert_emptied :
    emptied.isVoid = true ∧
      (compose ([.ofMappings movesPackage] ++ [.ofMappings emptied]
        ++ [.ofMappings lateField])).value = .error (.inconsistent .field "p/A/f" "p/A/g") ∧
      (compose ([.ofMappings lateField, .ofMappings movesPackage] ++ [.ofMappings emptied]
        ++ [])).value = .ok (.ofNames [(⟨"p/A"⟩, ⟨"q/A"⟩)] [] [(⟨⟨"p/A"⟩, "f"⟩, "g")]) := by
  have hvoid : emptied.isVoid = true := rfl
  refine ⟨hvoid, ?_, ?_⟩
  · exact (value_compose_insert_void hvoid _ _).trans rfl
  · exact (value_compose_insert_void hvoid _ _).trans rfl

end Composition

end SymbolRenaming
