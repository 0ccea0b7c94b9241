/-
SymbolRenaming/Proofs/Composition/Run.lean

A run of the composition: where its entries come from and what its end makes of
them.

Design.  A symbol enters the state at one layer, under a first name, by one key
of that layer, and is then led through that layer and all later ones.  So the
list of layers is cut at the entering layer, `behind ++ layer :: ahead`, and an
entry of the state is the key led through `layer :: ahead`
(`get?_stateAfter_eq_some_iff`).  What the layers behind do to the first name
plays no part in the value: that is where composition and sequential reading
can come apart.

The end of the run adds the classes that occur inside members only, and drops
what ends where it started.  It succeeds exactly when the final tables are
consistent (`value_compose_eq_ok_iff`).
-/
import Mathlib.Data.List.Induction
import SymbolRenaming.Proofs.Composition.Kinds

namespace SymbolRenaming

namespace Composition

/-! ### Entering the state -/

/-- The state after layers, from nothing. -/
def stateAfter (layers : List Renaming) : SymbolTables := layers.foldl applyLayer {}

theorem stateAfter_concat (layers : List Renaming) (layer : Renaming) :
    stateAfter (layers ++ [layer]) = applyLayer (stateAfter layers) layer :=
  List.foldl_append

theorem stateAfter_append (xs ys : List Renaming) :
    stateAfter (xs ++ ys) = ys.foldl applyLayer (stateAfter xs) :=
  List.foldl_append

namespace SymbolKind

variable {α : Type} [DecidableEq α]

/-- A symbol enters behind some layers: the next layer lists `key`, and `key` is
new, with the first name `first`. -/
structure Enters (K : SymbolKind α) (behind : List Renaming) (layer : Renaming)
    (key first : α) : Prop where
  listed : key ∈ K.keys layer
  fresh : K.standing (stateAfter behind) key = .fresh first

variable (K : SymbolKind α)

/-- The entries of a state are the symbols that entered, led through the layers
from the entering one on. -/
theorem get?_stateAfter_eq_some_iff {layers : List Renaming} {first v : α} :
    (K.table (stateAfter layers)).get? first = some v ↔
      ∃ behind layer ahead key, layers = behind ++ layer :: ahead ∧
        K.Enters behind layer key first ∧ v = K.through (layer :: ahead) key := by
  induction layers using List.reverseRecOn generalizing v with
  | nil =>
    have hn : (K.table (stateAfter [])).get? first = none := by
      show (K.table {}).get? first = none
      rw [K.table_empty, Table.get?_empty]
    rw [hn]
    refine ⟨fun h => ?_, ?_⟩
    · cases h
    · rintro ⟨behind, layer, ahead, key, h, -⟩
      simp at h
  | append_singleton layers last ih =>
    rw [stateAfter_concat, K.get?_applyLayer_eq_some_iff]
    constructor
    · rintro (⟨w, hw, rfl⟩ | ⟨key, hkey, hfresh, rfl⟩)
      · obtain ⟨behind, layer, ahead, key, rfl, henter, rfl⟩ := ih.1 hw
        refine ⟨behind, layer, ahead ++ [last], key, by simp, henter, ?_⟩
        exact (K.through_concat (layer :: ahead) last key).symm
      · exact ⟨layers, last, [], key, rfl, ⟨hkey, hfresh⟩, rfl⟩
    · rintro ⟨behind, layer, ahead, key, hsplit, henter, rfl⟩
      rcases List.eq_nil_or_concat ahead with rfl | ⟨init, x, rfl⟩
      · -- the last layer is the entering one
        obtain ⟨rfl, hx⟩ := List.append_inj' hsplit rfl
        obtain rfl : last = layer := by simpa using hx
        exact Or.inr ⟨key, henter.listed, henter.fresh, rfl⟩
      · rw [List.concat_eq_append] at hsplit ⊢
        have hsplit' : layers ++ [last] = (behind ++ layer :: init) ++ [x] := by
          rw [hsplit]
          simp
        obtain ⟨rfl, hx⟩ := List.append_inj' hsplit' rfl
        obtain rfl : last = x := by simpa using hx
        refine Or.inl ⟨_, ih.2 ⟨behind, layer, init, key, rfl, henter, rfl⟩, ?_⟩
        exact K.through_concat (layer :: init) last key

end SymbolKind

/-! ### Types along a run -/

namespace MemberKind

variable {α : Type} [DecidableEq α] (K : MemberKind α)

/-- Beyond the types, a layer changes a member's name only. -/
def Typed (r : Renaming) : Prop :=
  ∀ x, K.SameTypes (K.mapClasses r.renameClass x) (K.rename r x)

/-- Every listed member becomes a member with the renamed types. -/
def Consistent (r : Renaming) : Prop :=
  ∀ x ∈ K.keys r, K.SameTypes (K.mapClasses r.renameClass x) (K.rename r x)

theorem mem_keys_iff {t : SymbolTables} {x : α} :
    x ∈ (K.table t).keys ↔ ∃ v, (K.table t).get? x = some v := by
  rw [← Table.contains_iff, Table.contains, Option.isSome_iff_exists]

theorem rename_contract_of_get? {t : SymbolTables} {x v : α} (h : (K.table t).get? x = some v) :
    K.rename t.contract x = v := by
  rw [K.rename_contract, h, Option.getD_some]

theorem consistent_contract_iff {t : SymbolTables} :
    K.Consistent t.contract ↔ ∀ x v, (K.table t).get? x = some v →
      K.SameTypes (K.mapClasses t.contract.renameClass x) v := by
  refine ⟨fun h x v hv => ?_, fun h x hx => ?_⟩
  · rw [← K.rename_contract_of_get? hv]
    refine h x ?_
    rw [K.keys_contract]
    exact K.mem_keys_iff.2 ⟨v, hv⟩
  · rw [K.keys_contract] at hx
    obtain ⟨v, hv⟩ := K.mem_keys_iff.1 hx
    rw [K.rename_contract_of_get? hv]
    exact h x v hv

theorem typed_contract_iff {t : SymbolTables} :
    K.Typed t.contract ↔ K.Consistent t.contract := by
  refine ⟨fun h x _ => h x, fun h x => ?_⟩
  rcases e : (K.table t).get? x with - | v
  · -- an unlisted member has its types renamed, and nothing else
    show K.withName _ "" = K.withName _ ""
    rw [K.rename_contract, e, Option.getD_none]
  · rw [K.rename_contract_of_get? e]
    exact K.consistent_contract_iff.1 h x v e

/-- Typed layers, read one after the other, rename the types as they rename the
classes. -/
theorem sameTypes_through {layers : List Renaming} (h : ∀ r ∈ layers, K.Typed r) (x : α) :
    K.SameTypes (K.mapClasses (renameClassThrough layers) x) (K.through layers x) := by
  induction layers generalizing x with
  | nil =>
    show K.withName (K.mapClasses id x) "" = K.withName x ""
    rw [K.mapClasses_id]
  | cons layer rest ih =>
    have h1 : K.SameTypes (K.mapClasses layer.renameClass x) (K.rename layer x) :=
      h layer (List.mem_cons_self ..) x
    have h2 := ih (fun r hr => h r (List.mem_cons_of_mem _ hr)) (K.rename layer x)
    have h3 := K.sameTypes_mapClasses h1 (renameClassThrough rest)
    rw [K.mapClasses_mapClasses] at h3
    exact Eq.trans h3 h2

end MemberKind

theorem consistent_iff {r : Renaming} :
    r.Consistent ↔ fieldKind.Consistent r ∧ methodKind.Consistent r := by
  refine and_congr ?_ ?_
  · refine forall₂_congr fun x _ => ?_
    show _ ↔ FieldSymbol.withName _ "" = FieldSymbol.withName _ ""
    simp [FieldSymbol.withName, fieldKind, fieldMember, FieldSymbol.mapClasses]
  · refine forall₂_congr fun x _ => ?_
    show _ ↔ MethodSymbol.withName _ "" = MethodSymbol.withName _ ""
    simp [MethodSymbol.withName, methodKind, methodMember, MethodSymbol.mapClasses]

/-- Consistent mappings, of whatever kind, are typed layers. -/
theorem typed_of_checkTypes {m : Mappings} (h : m.contract.checkTypes = .ok ()) :
    fieldKind.Typed m.contract ∧ methodKind.Typed m.contract := by
  obtain ⟨hf, hm⟩ := consistent_iff.1 ((Renaming.checkTypes_eq_ok_iff _).1 h)
  cases m with
  | frozen t => exact ⟨fieldKind.typed_contract_iff.2 hf, methodKind.typed_contract_iff.2 hm⟩
  | editable t =>
    constructor
    · intro x
      show FieldSymbol.withName _ "" = FieldSymbol.withName (t.renameField x) ""
      rw [Editable.renameField]
      split <;> rfl
    · intro x
      show MethodSymbol.withName _ "" = MethodSymbol.withName (t.renameMethod x) ""
      rw [Editable.renameMethod]
      split <;> rfl
  | rules t =>
    constructor
    · intro x
      show FieldSymbol.withName _ "" = FieldSymbol.withName (t.renameField x) ""
      rw [Rules.renameField]
      split <;> rfl
    · intro x
      show MethodSymbol.withName _ "" = MethodSymbol.withName (t.renameMethod x) ""
      rw [Rules.renameMethod]
      split <;> rfl

theorem map_contract_ofMappings (ms : List Mappings) :
    (ms.map Layer.ofMappings).map Layer.contract = ms.map Mappings.contract := by
  rw [List.map_map]
  rfl

theorem typed_of_mem_map {ms : List Mappings} (h : ∀ m ∈ ms, m.contract.checkTypes = .ok ()) :
    ∀ r ∈ ms.map Mappings.contract, fieldKind.Typed r ∧ methodKind.Typed r := by
  intro r hr
  obtain ⟨m, hm, rfl⟩ := List.mem_map.1 hr
  exact typed_of_checkTypes (h m hm)

/-! ### The end of a run -/

/-- The tables that a composition of layers ends with. -/
def finalTables (layers : List Renaming) : SymbolTables := close layers (stateAfter layers)

theorem get?_close_classes (layers : List Renaming) (s : SymbolTables) (c : ClassName) :
    (close layers s).classes.get? c
      = ((s.classes.get? c).or
          (if c ∈ referencedClasses s then some (renameClassThrough layers c) else none)).filter
        fun v => c ≠ v := by
  show (Table.dropFixed _).get? c = _
  rw [Table.get?_dropFixed, Table.get?_foldl_insertNew]

theorem renameClass_close (layers : List Renaming) (s : SymbolTables) (c : ClassName) :
    (close layers s).contract.renameClass c
      = ((s.classes.get? c).or
          (if c ∈ referencedClasses s then some (renameClassThrough layers c)
            else none)).getD c := by
  show ((close layers s).classes.get? c).getD c = _
  rw [get?_close_classes, getD_filter_ne]

theorem renameClass_close_of_get? {layers : List Renaming} {s : SymbolTables} {c v : ClassName}
    (h : s.classes.get? c = some v) : (close layers s).contract.renameClass c = v := by
  rw [renameClass_close, h, Option.some_or, Option.getD_some]

theorem renameClass_close_of_mem {layers : List Renaming} {s : SymbolTables} {c : ClassName}
    (h : s.classes.get? c = none) (hm : c ∈ referencedClasses s) :
    (close layers s).contract.renameClass c = renameClassThrough layers c := by
  rw [renameClass_close, h, if_pos hm, Option.none_or, Option.getD_some]

/-- The final class table has the classes of the state and those that occur
inside members only, as far as they end under another name. -/
theorem get?_classes_finalTables_eq_some_iff {layers : List Renaming} {c v : ClassName} :
    (finalTables layers).classes.get? c = some v ↔ v ≠ c ∧
      ((stateAfter layers).classes.get? c = some v ∨
        (stateAfter layers).classes.get? c = none ∧
          c ∈ referencedClasses (stateAfter layers) ∧ v = renameClassThrough layers c) := by
  rw [finalTables, get?_close_classes, Option.filter_eq_some_iff]
  simp only [decide_eq_true_eq]
  rw [and_comm, ne_comm]
  refine and_congr_right fun _ => ?_
  rcases (stateAfter layers).classes.get? c with - | w
  · by_cases hc : c ∈ referencedClasses (stateAfter layers)
    · simp only [Option.none_or, hc, if_true, Option.some.injEq, reduceCtorEq, true_and, false_or]
      exact eq_comm
    · simp [hc]
  · simp

/-- The final table of members has the members of the state that end as another
member. -/
theorem MemberKind.get?_finalTables_eq_some_iff {α : Type} [DecidableEq α] (K : MemberKind α)
    {layers : List Renaming} {x v : α} :
    (K.table (finalTables layers)).get? x = some v ↔
      v ≠ x ∧ (K.table (stateAfter layers)).get? x = some v := by
  rw [finalTables, K.table_close, Table.get?_dropFixed, Option.filter_eq_some_iff]
  simp only [decide_eq_true_eq]
  rw [and_comm, ne_comm]

theorem dropFixedClasses_finalTables (layers : List Renaming) :
    (finalTables layers).dropFixedClasses = finalTables layers := by
  have h : ∀ t : Table ClassName ClassName, t.dropFixed.dropFixed = t.dropFixed := by
    intro t
    refine Table.ext ?_
    show List.filter _ (List.filter _ _) = List.filter _ _
    rw [List.filter_filter]
    simp
  show ({ finalTables layers with classes := (finalTables layers).classes.dropFixed } :
    SymbolTables) = _
  rw [finalTables, close, h]

/-- A composition succeeds exactly when its final tables are consistent, and
these are then what it gives. -/
theorem value_compose_eq_ok_iff {layers : List Layer} {r : Frozen} :
    (compose layers).value = .ok r ↔
      (finalTables (layers.map Layer.contract)).contract.Consistent ∧
      r = .ofTables (finalTables (layers.map Layer.contract)) := by
  have hpairs : (compose layers).value
      = Frozen.ofPairs (finalTables (layers.map Layer.contract)).classes.entries
          (finalTables (layers.map Layer.contract)).methods.entries
          (finalTables (layers.map Layer.contract)).fields.entries := value_compose layers
  have hcontract : (Frozen.ofTables (finalTables (layers.map Layer.contract))).contract
      = (finalTables (layers.map Layer.contract)).contract := by
    rw [Frozen.contract, Frozen.tables_ofTables, dropFixedClasses_finalTables]
  rw [hpairs, Frozen.ofPairs, ← Renaming.checkTypes_eq_ok_iff]
  simp only [Table.ofList_entries, hcontract]
  rcases e : (finalTables (layers.map Layer.contract)).contract.checkTypes with err | ⟨⟩
  · simp
  · simp [eq_comm]

theorem contract_of_value_compose {layers : List Layer} {r : Frozen}
    (h : (compose layers).value = .ok r) :
    r.contract = (finalTables (layers.map Layer.contract)).contract := by
  obtain ⟨-, rfl⟩ := value_compose_eq_ok_iff.1 h
  rw [Frozen.contract, Frozen.tables_ofTables, dropFixedClasses_finalTables]

end Composition

end SymbolRenaming
