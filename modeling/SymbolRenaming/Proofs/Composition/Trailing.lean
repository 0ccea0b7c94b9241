/-
SymbolRenaming/Proofs/Composition/Trailing.lean

Rules behind the last table.

Design.  Rules list nothing, so they bring in no symbol: behind them the state
has the symbols that it had, each led on (`SymbolKind.get?_foldl_of_nil`).  The classes
that the end of a run adds are the same as before, and they are led through the
rules as well, so that every class which the tables know is renamed by the
longer composition as by the shorter one and then the rules
(`renameClass_finalTables_append`).

A member may come back to its own name behind the rules, and is then dropped.
What the longer composition says of it is read off its classes.  They come back
too: the shorter composition is consistent, and the rules rename the types of a
member as they rename the classes in it.

Main result: `rename_compose_append_rules`.
-/
import SymbolRenaming.Proofs.Composition.Run

namespace SymbolRenaming

namespace Composition

/-! ### Layers that list nothing -/

/-- A layer that lists no symbol of any kind. -/
structure Silent (layer : Renaming) : Prop where
  classes : layer.classes = []
  methods : layer.methods = []
  fields : layer.fields = []

theorem silent_contract (m : Rules) : Silent m.contract := ⟨rfl, rfl, rfl⟩

theorem typed_contract (m : Rules) :
    fieldKind.Typed m.contract ∧ methodKind.Typed m.contract :=
  typed_of_checkTypes (m := .rules m) rfl

namespace SymbolKind

variable {α : Type} [DecidableEq α] (K : SymbolKind α) {s : SymbolTables}

/-- A layer without keys of a kind leads the symbols of this kind on. -/
theorem table_applyLayer_of_nil {layer : Renaming} (h : K.keys layer = []) :
    K.table (applyLayer s layer) = (K.table s).mapValues (K.rename layer) := by
  rw [K.table_applyLayer, h]
  rfl

/-- Behind layers without keys of a kind, the state has the symbols of this kind
that it had, each led through the layers. -/
theorem get?_foldl_of_nil {layers : List Renaming} (h : ∀ r ∈ layers, K.keys r = []) (x : α) :
    (K.table (layers.foldl applyLayer s)).get? x
      = ((K.table s).get? x).map (K.through layers) := by
  induction layers generalizing s with
  | nil => exact (congrFun Option.map_id _).symm
  | cons layer rest ih =>
    have hlayer := h layer (List.mem_cons_self ..)
    rw [List.foldl_cons, ih fun r hr => h r (List.mem_cons_of_mem _ hr),
      K.table_applyLayer_of_nil hlayer, Table.get?_mapValues, Option.map_map]
    rfl

end SymbolKind

/-! ### The classes that are known at the end -/

section Append

variable {xs ys : List Renaming}

/-- What a state knows of a class: it is a symbol, or it occurs inside a member. -/
def Knows (s : SymbolTables) (c : ClassName) : Prop :=
  (∃ v, s.classes.get? c = some v) ∨ c ∈ referencedClasses s

theorem MemberKind.knows_of_mem {α : Type} [DecidableEq α] (K : MemberKind α)
    {s : SymbolTables} {x : α} {c : ClassName} (hx : x ∈ (K.table s).keys)
    (hc : c ∈ K.classes x) : Knows s c := by
  rcases e : s.classes.get? c with - | v
  · exact Or.inr (K.mem_referencedClasses hx hc e)
  · exact Or.inl ⟨v, e⟩

theorem get?_stateAfter_append (h : ∀ r ∈ ys, Silent r) {α : Type} [DecidableEq α]
    (K : SymbolKind α) (hK : ∀ r, Silent r → K.keys r = []) (x : α) :
    (K.table (stateAfter (xs ++ ys))).get? x
      = ((K.table (stateAfter xs)).get? x).map (K.through ys) := by
  rw [stateAfter_append]
  exact K.get?_foldl_of_nil (fun r hr => hK r (h r hr)) x

/-- Silent layers leave the classes that occur inside members only. -/
theorem mem_referencedClasses_append (h : ∀ r ∈ ys, Silent r) {c : ClassName} :
    c ∈ referencedClasses (stateAfter (xs ++ ys)) ↔ c ∈ referencedClasses (stateAfter xs) := by
  have hkeys : ∀ {α : Type} [DecidableEq α] (K : MemberKind α),
      (∀ r, Silent r → K.keys r = []) → ∀ x,
        x ∈ (K.table (stateAfter (xs ++ ys))).keys ↔ x ∈ (K.table (stateAfter xs)).keys := by
    intro α _ K hK x
    rw [← Table.contains_iff, ← Table.contains_iff, Table.contains, Table.contains,
      get?_stateAfter_append h K.toSymbolKind hK, Option.isSome_map]
  have hmethods : ∀ x, x ∈ (stateAfter (xs ++ ys)).methods.keys ↔
      x ∈ (stateAfter xs).methods.keys := hkeys methodKind fun _ hr => hr.methods
  have hfields : ∀ x, x ∈ (stateAfter (xs ++ ys)).fields.keys ↔
      x ∈ (stateAfter xs).fields.keys := hkeys fieldKind fun _ hr => hr.fields
  have hclasses : (stateAfter (xs ++ ys)).classes.get? c
      = ((stateAfter xs).classes.get? c).map (renameClassThrough ys) :=
    get?_stateAfter_append h classKind (fun _ hr => hr.classes) c
  simp only [mem_referencedClasses_iff, hclasses, Option.map_eq_none_iff, hmethods, hfields]

/-- The longer composition renames a known class as the shorter one and then the
silent layers do. -/
theorem renameClass_finalTables_append (h : ∀ r ∈ ys, Silent r) {c : ClassName}
    (hc : Knows (stateAfter xs) c) :
    (finalTables (xs ++ ys)).contract.renameClass c
      = renameClassThrough ys ((finalTables xs).contract.renameClass c) := by
  have hclasses : (stateAfter (xs ++ ys)).classes.get? c
      = ((stateAfter xs).classes.get? c).map (renameClassThrough ys) :=
    get?_stateAfter_append h classKind (fun _ hr => hr.classes) c
  rcases e : (stateAfter xs).classes.get? c with - | v
  · -- the class occurs inside members only, and is led through all layers
    rw [e] at hclasses
    obtain ⟨v, hv⟩ | hmem := hc
    · rw [e] at hv
      cases hv
    · rw [finalTables, finalTables, renameClass_close_of_mem e hmem,
        renameClass_close_of_mem hclasses ((mem_referencedClasses_append h).2 hmem)]
      exact classKind.through_append xs ys c
  · rw [e] at hclasses
    rw [finalTables, finalTables, renameClass_close_of_get? e, renameClass_close_of_get? hclasses]

/-! ### Entries behind rules -/

/-- An entry of the shorter composition is led on by the layers behind it. -/
theorem renameClass_append_of_mem (h : ∀ r ∈ ys, Silent r) {c : ClassName}
    (hc : c ∈ (finalTables xs).contract.classes) :
    (finalTables (xs ++ ys)).contract.renameClass c
      = renameClassThrough ys ((finalTables xs).contract.renameClass c) := by
  refine renameClass_finalTables_append h ?_
  have hsome : ((finalTables xs).classes.get? c).isSome = true := Table.contains_iff.2 hc
  obtain ⟨v, hv⟩ := Option.isSome_iff_exists.1 hsome
  obtain ⟨-, hv | ⟨-, hmem, -⟩⟩ := get?_classes_finalTables_eq_some_iff.1 hv
  · exact Or.inl ⟨v, hv⟩
  · exact Or.inr hmem

theorem MemberKind.rename_append_of_mem {α : Type} [DecidableEq α] (K : MemberKind α)
    (hK : ∀ r, Silent r → K.keys r = []) (h : ∀ r ∈ ys, Silent r)
    (htyped : ∀ r ∈ ys, K.Typed r) (hconsistent : K.Consistent (finalTables xs).contract)
    {x : α} (hx : x ∈ K.keys (finalTables xs).contract) :
    K.rename (finalTables (xs ++ ys)).contract x
      = K.through ys (K.rename (finalTables xs).contract x) := by
  rw [K.keys_contract, K.mem_keys_iff] at hx
  obtain ⟨v, hv⟩ := hx
  have hstate := (K.get?_finalTables_eq_some_iff.1 hv).2
  have hlater : (K.table (stateAfter (xs ++ ys))).get? x = some (K.through ys v) := by
    rw [get?_stateAfter_append h K.toSymbolKind hK, hstate, Option.map_some]
  rw [K.rename_contract_of_get? hv]
  by_cases hback : K.through ys v = x
  · -- the member comes back and is dropped, and its classes come back with it
    have hnone : (K.table (finalTables (xs ++ ys))).get? x = none := by
      refine Option.eq_none_iff_forall_ne_some.2 fun w hw => ?_
      obtain ⟨hne, hw⟩ := K.get?_finalTables_eq_some_iff.1 hw
      rw [hlater] at hw
      exact hne ((Option.some.inj hw).symm.trans hback)
    have htypes : K.SameTypes
        (K.mapClasses (renameClassThrough ys ∘ (finalTables xs).contract.renameClass) x)
        (K.mapClasses id x) := by
      have hfirst := K.consistent_contract_iff.1 hconsistent x v hv
      have hlast := K.sameTypes_through htyped v
      rw [hback] at hlast
      rw [K.mapClasses_id, ← K.mapClasses_mapClasses]
      exact (K.sameTypes_mapClasses hfirst _).trans hlast
    rw [K.rename_contract, hnone, Option.getD_none, hback, K.mapClasses_eq_self_iff]
    intro c hc
    rw [renameClass_finalTables_append h (K.knows_of_mem (K.mem_keys_iff.2 ⟨v, hstate⟩) hc)]
    exact K.sameTypes_mapClasses_iff.1 htypes c hc
  · exact K.rename_contract_of_get? (K.get?_finalTables_eq_some_iff.2 ⟨hback, hlater⟩)

end Append

/-! ### Rules behind the last table -/

/-- **Rules at the end act behind the composition.**  If layers of any kinds
compose, with rules behind them and without, then the longer composition takes
each entry of the shorter one where the rules take its value, one after the
other. -/
theorem rename_compose_append_rules {xs : List Layer} {rs : List Rules} {r r' : Frozen}
    (h : (compose xs).value = .ok r)
    (h' : (compose (xs ++ rs.map fun m => .ofMappings (.rules m))).value = .ok r') :
    (∀ c ∈ r.contract.classes, r'.contract.renameClass c
      = renameClassThrough (rs.map Rules.contract) (r.contract.renameClass c)) ∧
    (∀ x ∈ r.contract.fields, r'.contract.renameField x
      = renameFieldThrough (rs.map Rules.contract) (r.contract.renameField x)) ∧
    ∀ x ∈ r.contract.methods, r'.contract.renameMethod x
      = renameMethodThrough (rs.map Rules.contract) (r.contract.renameMethod x) := by
  have hlayers : (xs ++ rs.map fun m => Layer.ofMappings (.rules m)).map Layer.contract
      = xs.map Layer.contract ++ rs.map Rules.contract := by
    rw [List.map_append, List.map_map]
    rfl
  have hsilent : ∀ layer ∈ rs.map Rules.contract, Silent layer := by
    rintro layer hlayer
    obtain ⟨m, -, rfl⟩ := List.mem_map.1 hlayer
    exact silent_contract m
  have htyped : ∀ layer ∈ rs.map Rules.contract,
      fieldKind.Typed layer ∧ methodKind.Typed layer := by
    rintro layer hlayer
    obtain ⟨m, -, rfl⟩ := List.mem_map.1 hlayer
    exact typed_contract m
  obtain ⟨hfields, hmethods⟩ := consistent_iff.1 (value_compose_eq_ok_iff.1 h).1
  rw [contract_of_value_compose h, contract_of_value_compose h', hlayers]
  refine ⟨?_, ?_, ?_⟩
  · intro c hc
    exact renameClass_append_of_mem hsilent hc
  · intro x hx
    exact fieldKind.rename_append_of_mem (fun _ hr => hr.fields) hsilent
      (fun layer hlayer => (htyped layer hlayer).1) hfields hx
  · intro x hx
    exact methodKind.rename_append_of_mem (fun _ hr => hr.methods) hsilent
      (fun layer hlayer => (htyped layer hlayer).2) hmethods hx

/-- A class leaves its package, and a field of it gets another name. -/
def leaves : Mappings :=
  .frozen (.ofNames [(⟨"p/A"⟩, ⟨"q/A"⟩)] [] [(⟨⟨"p/A"⟩, "f"⟩, "g")])

/-- The package moves back, and then the field gets its name back. -/
def returns : List Rules :=
  [.packages [("q", "p")], { fieldRule := some fun x => if x.name = "g" then some "f" else none }]

/-- Behind the rules nothing is left of class and field, and they are renamed to
themselves. -/
theorem rename_compose_returning :
    ∃ r r', (compose [.ofMappings leaves]).value = .ok r ∧
      (compose ([.ofMappings leaves] ++ returns.map fun m => .ofMappings (.rules m))).value
        = .ok r' ∧
      r'.isEmpty = true ∧
      (⟨"p/A"⟩ ∈ r.contract.classes ∧ r'.contract.renameClass ⟨"p/A"⟩ = ⟨"p/A"⟩) ∧
      ⟨⟨"p/A"⟩, "f"⟩ ∈ r.contract.fields ∧
        r'.contract.renameField ⟨⟨"p/A"⟩, "f"⟩ = ⟨⟨"p/A"⟩, "f"⟩ := by
  have h : (compose [.ofMappings leaves]).value
      = .ok (.ofTables (finalTables [leaves.contract])) := rfl
  have h' : (compose ([.ofMappings leaves]
        ++ returns.map fun m => .ofMappings (.rules m))).value
      = .ok (.ofTables (finalTables ([leaves.contract] ++ returns.map Rules.contract))) := rfl
  obtain ⟨hclasses, hfields, -⟩ := rename_compose_append_rules h h'
  have hclass : ⟨"p/A"⟩ ∈ (Frozen.ofTables (finalTables [leaves.contract])).contract.classes := by
    decide
  have hfield : ⟨⟨"p/A"⟩, "f"⟩ ∈
      (Frozen.ofTables (finalTables [leaves.contract])).contract.fields := by decide
  refine ⟨_, _, h, h', rfl, ⟨hclass, ?_⟩, hfield, ?_⟩
  · exact (hclasses _ hclass).trans rfl
  · exact (hfields _ hfield).trans rfl

end Composition

end SymbolRenaming
