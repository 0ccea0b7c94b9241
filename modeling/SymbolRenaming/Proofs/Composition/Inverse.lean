/-
SymbolRenaming/Proofs/Composition/Inverse.lean

Composing tables with their inverse.

Design.  A table that is applied to nothing gives its own entries back
(`get?_stateAfter_singleton`).  Behind it, every key of the opposite table is the
present name of some symbol: none is new, and each of them leads its symbol back to
the first name (`get?_stateAfter_opposite`).  So nothing is left of the symbols that
entered.  At the end the classes inside members are led through both tables as well,
and they come back if the members are reversible.  The three kinds of symbols differ
in nothing that is needed for this (`SymbolKind.IsTabular`).

The inverse alone composes under a weaker condition than the one under which it is
consistent: members that keep both name and types are dropped before the final
tables are judged (`isOk_compose_singleton_iff`).

Main result: `compose_invert`.
-/
import SymbolRenaming.Proofs.Mappings.Inverse

namespace SymbolRenaming

/-- A table in which nothing is found is empty. -/
theorem Table.eq_empty_of_get? {α β : Type} [DecidableEq α] {t : Table α β}
    (h : ∀ k, t.get? k = none) : t = .empty := by
  refine Table.ext (List.eq_nil_iff_forall_not_mem.2 fun e he => ?_)
  have hsome : t.get? e.1 = some e.2 := Table.get?_eq_some_iff.2 he
  rw [h] at hsome
  cases hsome

/-- The tables without the members that stay as they are. -/
def SymbolTables.dropFixedMembers (t : SymbolTables) : SymbolTables :=
  { t with methods := t.methods.dropFixed, fields := t.fields.dropFixed }

namespace Composition

/-! ### Tables as first and second layer -/

namespace SymbolKind

variable {α : Type} [DecidableEq α]

/-- What the kinds have in common where the layers are tables. -/
structure IsTabular (K : SymbolKind α) : Prop where
  standing_empty : ∀ x, K.standing {} x = .fresh x
  keys_contract : ∀ t : SymbolTables, K.keys t.contract = (K.table t).keys
  rename_contract : ∀ {t : SymbolTables} {x v : α}, (K.table t).get? x = some v →
    K.rename t.contract x = v

variable {K : SymbolKind α} {s t : SymbolTables} {x v : α}

/-- The keys of a table are those for which something is found. -/
theorem IsTabular.mem_keys_iff (hK : K.IsTabular) :
    x ∈ K.keys t.contract ↔ ∃ v, (K.table t).get? x = some v := by
  rw [hK.keys_contract, ← Table.contains_iff, Table.contains, Option.isSome_iff_exists]

/-- A single table keeps its entries. -/
theorem get?_stateAfter_singleton (hK : K.IsTabular) (t : SymbolTables) (x : α) :
    (K.table (stateAfter [t.contract])).get? x = (K.table t).get? x := by
  refine Option.ext fun v => ?_
  have hstate : stateAfter [t.contract] = applyLayer {} t.contract := rfl
  rw [hstate, K.get?_applyLayer_eq_some_iff, K.table_empty]
  constructor
  · rintro (⟨w, hw, -⟩ | ⟨key, hkey, hfresh, rfl⟩)
    · cases hw
    · rw [hK.standing_empty] at hfresh
      obtain rfl : key = x := Standing.fresh.inj hfresh
      obtain ⟨v, hv⟩ := hK.mem_keys_iff.1 hkey
      rw [hv, hK.rename_contract hv]
  · intro hv
    exact Or.inr ⟨x, hK.mem_keys_iff.2 ⟨v, hv⟩, hK.standing_empty x, (hK.rename_contract hv).symm⟩

/-- Behind a table, the opposite table leads every symbol back, and no symbol
enters. -/
theorem get?_stateAfter_opposite (hK : K.IsTabular) (h : (K.table s).Opposite (K.table t)) :
    (K.table (stateAfter [s.contract, t.contract])).get? x = some v ↔
      v = x ∧ ∃ w, (K.table s).get? x = some w := by
  have hstate : stateAfter [s.contract, t.contract]
      = applyLayer (stateAfter [s.contract]) t.contract := rfl
  have hsingle := K.get?_stateAfter_singleton hK s
  rw [hstate, K.get?_applyLayer_eq_some_iff, hsingle]
  constructor
  · rintro (⟨w, hw, rfl⟩ | ⟨key, hkey, hfresh, -⟩)
    · exact ⟨hK.rename_contract (h.get?_iff.1 hw), w, hw⟩
    · -- a key of the opposite table is a present name, so it is not new
      obtain ⟨u, hu⟩ := hK.mem_keys_iff.1 hkey
      have hvalue : (K.table (stateAfter [s.contract])).hasValue key = true := by
        refine Table.hasValue_iff.2 ⟨u, ?_⟩
        rw [hsingle]
        exact h.get?_iff.2 hu
      rw [K.hasValue_of_fresh hfresh] at hvalue
      cases hvalue
  · rintro ⟨rfl, w, hw⟩
    exact Or.inl ⟨w, hw, (hK.rename_contract (h.get?_iff.1 hw)).symm⟩

end SymbolKind

theorem firstClass_empty (c : ClassName) : firstClass {} c = c := rfl

theorem isLost_empty (c : ClassName) : isLost {} c = false := rfl

theorem isTabular_classKind : classKind.IsTabular where
  standing_empty _ := rfl
  keys_contract _ := rfl
  rename_contract := by
    intro t c d h
    show (t.classes.get? c).getD c = d
    have h' : t.classes.get? c = some d := h
    rw [h', Option.getD_some]

theorem MemberKind.isTabular {α : Type} [DecidableEq α] (K : MemberKind α) :
    K.toSymbolKind.IsTabular where
  standing_empty := by
    intro x
    rw [K.standing_eq, Member.standing_eq_fresh_iff, K.table_empty]
    refine ⟨rfl, fun c _ => isLost_empty c, rfl, ?_⟩
    exact (K.mapClasses_eq_self_iff.2 fun c _ => firstClass_empty c).symm
  keys_contract := K.keys_contract
  rename_contract := K.rename_contract_of_get?

/-! ### A single table -/

section Single

variable (t : SymbolTables)

/-- A single table renames the classes as it did before. -/
theorem renameClass_finalTables_singleton :
    (finalTables [t.contract]).contract.renameClass = t.contract.renameClass := by
  funext c
  have hclass := classKind.get?_stateAfter_singleton isTabular_classKind t c
  have hclass' : (stateAfter [t.contract]).classes.get? c = t.classes.get? c := hclass
  rw [finalTables, renameClass_close, hclass']
  show _ = (t.classes.get? c).getD c
  rcases e : t.classes.get? c with - | d
  · -- a class that occurs inside members only keeps its name
    have hself : renameClassThrough [t.contract] c = c := by
      show (t.classes.get? c).getD c = c
      rw [e, Option.getD_none]
    rw [hself]
    split <;> rfl
  · rfl

/-- A single table is judged by the members that change. -/
theorem MemberKind.consistent_finalTables_singleton_iff {α : Type} [DecidableEq α]
    (K : MemberKind α) :
    K.Consistent (finalTables [t.contract]).contract ↔
      ∀ x v, (K.table t).get? x = some v → v ≠ x →
        K.SameTypes (K.mapClasses t.contract.renameClass x) v := by
  rw [K.consistent_contract_iff, renameClass_finalTables_singleton]
  refine forall₂_congr fun x v => ?_
  rw [K.get?_finalTables_eq_some_iff, K.get?_stateAfter_singleton K.isTabular, and_comm, and_imp]

end Single

section Opposite

variable {s t : SymbolTables}

/-- A single table that is opposite to a consistent one is judged by the members that
change, and they have to be reversible. -/
theorem MemberKind.consistent_finalTables_opposite_iff {α : Type} [DecidableEq α]
    (K : MemberKind α) (hclasses : s.classes.Opposite t.classes)
    (h : (K.table s).Opposite (K.table t)) (hs : K.Consistent s.contract) :
    K.Consistent (finalTables [t.contract]).contract ↔
      ∀ x ∈ (K.table s).dropFixed.keys, ∀ c ∈ K.classes x, ¬ s.IsTaken c := by
  have hback := K.forall_sameTypes_back_iff (p := fun x y => x ≠ y) hclasses h hs
  rw [K.consistent_finalTables_singleton_iff, hback, Table.forall_mem_keys_iff]
  refine forall₂_congr fun x y => ?_
  rw [Table.get?_dropFixed, Option.filter_eq_some_iff, decide_eq_true_eq, and_imp]

/-- The inverse of consistent tables composes alone exactly if the members that
change are reversible. -/
theorem isOk_compose_singleton_iff (h : s.Opposite t) (hs : s.contract.Consistent)
    {layer : Layer} (hlayer : layer.contract = t.contract) :
    (∃ r, (compose [layer]).value = .ok r) ↔ s.dropFixedMembers.Reversible := by
  obtain ⟨hfields, hmethods⟩ := consistent_iff.1 hs
  have hok : (∃ r, (compose [layer]).value = .ok r) ↔
      (finalTables [t.contract]).contract.Consistent := by
    have hlayers : [layer].map Layer.contract = [t.contract] := by
      rw [List.map_singleton, hlayer]
    rw [← hlayers]
    constructor
    · rintro ⟨r, hr⟩
      exact (value_compose_eq_ok_iff.1 hr).1
    · intro hc
      exact ⟨_, value_compose_eq_ok_iff.2 ⟨hc, rfl⟩⟩
  rw [hok, consistent_iff,
    fieldKind.consistent_finalTables_opposite_iff h.classes h.fields hfields,
    methodKind.consistent_finalTables_opposite_iff h.classes h.methods hmethods]
  exact ⟨fun hr => ⟨hr.1, hr.2⟩, fun hr => ⟨hr.fields, hr.methods⟩⟩

/-! ### Opposite tables -/

/-- No member is left behind opposite tables. -/
theorem MemberKind.get?_finalTables_opposite {α : Type} [DecidableEq α] (K : MemberKind α)
    (h : (K.table s).Opposite (K.table t)) (x : α) :
    (K.table (finalTables [s.contract, t.contract])).get? x = none := by
  refine Option.eq_none_iff_forall_ne_some.2 fun v hv => ?_
  obtain ⟨hne, hv⟩ := K.get?_finalTables_eq_some_iff.1 hv
  exact hne ((K.get?_stateAfter_opposite K.isTabular h).1 hv).1

/-- No class is left behind opposite tables, as long as the members are reversible. -/
theorem get?_classes_finalTables_opposite (h : s.Opposite t) (hr : s.Reversible)
    (c : ClassName) : (finalTables [s.contract, t.contract]).classes.get? c = none := by
  have hmember : ∀ {α : Type} [DecidableEq α] (K : MemberKind α),
      (K.table s).Opposite (K.table t) → K.Reversible s →
      ∀ x ∈ (K.table (stateAfter [s.contract, t.contract])).keys, c ∈ K.classes x →
        ¬ s.IsTaken c := by
    intro α _ K hK hrK x hx hc
    obtain ⟨v, hv⟩ := K.mem_keys_iff.1 hx
    have hkey := ((K.get?_stateAfter_opposite K.isTabular hK).1 hv).2
    exact hrK x (K.mem_keys_iff.2 hkey) c hc
  refine Option.eq_none_iff_forall_ne_some.2 fun v hv => ?_
  obtain ⟨hne, hv | ⟨-, hmem, rfl⟩⟩ := get?_classes_finalTables_eq_some_iff.1 hv
  · have hback : v = c :=
      ((classKind.get?_stateAfter_opposite isTabular_classKind h.classes).1 hv).1
    exact hne hback
  · -- a class inside a member has been led through both tables
    have hfree : ¬ s.IsTaken c := by
      rcases (mem_referencedClasses_iff.1 hmem).2 with ⟨x, hx, hc⟩ | ⟨x, hx, hc⟩
      · exact hmember methodKind h.methods hr.methods x hx hc
      · exact hmember fieldKind h.fields hr.fields x hx hc
    exact hne ((renameClass_renameClass_iff h.classes).2 hfree)

/-- Behind opposite tables nothing is left. -/
theorem finalTables_opposite (h : s.Opposite t) (hr : s.Reversible) :
    finalTables [s.contract, t.contract] = {} := by
  have hclasses := Table.eq_empty_of_get? (get?_classes_finalTables_opposite h hr)
  have hmethods := Table.eq_empty_of_get? (methodKind.get?_finalTables_opposite h.methods)
  have hfields := Table.eq_empty_of_get? (fieldKind.get?_finalTables_opposite h.fields)
  calc finalTables [s.contract, t.contract]
      = ⟨(finalTables [s.contract, t.contract]).classes,
          (finalTables [s.contract, t.contract]).methods,
          (finalTables [s.contract, t.contract]).fields⟩ := rfl
    _ = ⟨.empty, .empty, .empty⟩ := by
        rw [hclasses]
        exact congrArg₂ (SymbolTables.mk .empty) hmethods hfields

/-- Layers whose tables are opposite compose to nothing. -/
theorem compose_opposite (h : s.Opposite t) (hr : s.Reversible) {first second : Layer}
    (hfirst : first.contract = s.contract) (hsecond : second.contract = t.contract) :
    ∃ r, (compose [first, second]).value = .ok r ∧ r.tables = {} := by
  have hlayers : [first, second].map Layer.contract = [s.contract, t.contract] := by
    rw [List.map_cons, List.map_singleton, hfirst, hsecond]
  refine ⟨.ofTables {}, ?_, rfl⟩
  rw [value_compose_eq_ok_iff, hlayers, finalTables_opposite h hr]
  refine ⟨⟨?_, ?_⟩, rfl⟩
  · intro x hx
    cases hx
  · intro x hx
    cases hx

end Opposite

/-! ### Mappings and their inverse -/

/-- **Inverses cancel.**  Consistent mappings that are read as they were built, whose
values are not shared, and whose members carry no taken class, compose with their
inverse to nothing, in both orders. -/
theorem compose_invert {m : Frozen} (hforward : m.inverted = false)
    (hcheck : m.contract.checkTypes = .ok ()) (hinj : m.tables.Injective)
    (hr : m.tables.Reversible) :
    (∃ r, (compose [.ofMappings (.frozen m), .ofMappings (.frozen m.invert)]).value = .ok r ∧
      r.tables = {}) ∧
    ∃ r, (compose [.ofMappings (.frozen m.invert), .ofMappings (.frozen m)]).value = .ok r ∧
      r.tables = {} := by
  have h := Frozen.opposite_invert hforward hinj
  obtain ⟨hfields, hmethods⟩ := consistent_iff.1 ((Renaming.checkTypes_eq_ok_iff _).1 hcheck)
  -- on the way back the members carry what their classes became
  have hback : m.invert.tables.Reversible := by
    have hf : fieldKind.Reversible m.tables := hr.fields
    have hm : methodKind.Reversible m.tables := hr.methods
    exact ⟨hf.back h.classes h.fields hfields, hm.back h.classes h.methods hmethods⟩
  exact ⟨compose_opposite h hr rfl rfl, compose_opposite h.symm hback rfl rfl⟩

/-- A class that takes the name of another renamed class, with a method that carries
both, and a field of a class that is not renamed. -/
def handedOn : Frozen :=
  .ofNames [(⟨"a"⟩, ⟨"b"⟩), (⟨"c"⟩, ⟨"a"⟩)]
    [(⟨⟨"c"⟩, "m", ⟨[.reference ⟨"a"⟩], .array (.reference ⟨"d"⟩)⟩⟩, "n")] [(⟨⟨"d"⟩, "f"⟩, "g")]

theorem compose_invert_handedOn :
    (handedOn.inverted = false ∧ handedOn.contract.checkTypes = .ok () ∧
      handedOn.tables.Injective ∧ handedOn.tables.Reversible) ∧
    (∃ r, (compose [.ofMappings (.frozen handedOn),
        .ofMappings (.frozen handedOn.invert)]).value = .ok r ∧ r.tables = {}) ∧
    ∃ r, (compose [.ofMappings (.frozen handedOn.invert),
        .ofMappings (.frozen handedOn)]).value = .ok r ∧ r.tables = {} := by
  have hinj : handedOn.tables.Injective := ⟨by decide, by decide, by decide⟩
  have hr : handedOn.tables.Reversible := ⟨by decide, by decide⟩
  exact ⟨⟨rfl, rfl, hinj, hr⟩, compose_invert rfl rfl hinj hr⟩

end Composition

end SymbolRenaming
