/-
SymbolRenaming/Proofs/Composition/Law.lean

The law of composition: the composed mappings do what the layers do one after
the other.

Design.  The law is about the symbols of a *scope*: classes, fields and methods
such that the members carry classes of the scope only.  A layer fits a scope
behind other layers if those do not make two symbols of the scope alike, and if
every key of the layer is what they make of a symbol of the scope.  The layers
have to be tables, which leave a symbol alone unless they list it.

The invariant of a run (`Tracks`) says of each kind of symbol: what is in the
state is in the scope and has the name that the layers give it, and what is in
the scope but not in the state was changed by no layer, except that a member
has had its types renamed.  It is kept by a layer because a key of the scope
that is no present name is always new, under the very symbol it comes from
(`firstClass_through`, `Tracks.applyLayer`).

Main result: `rename_compose_of_fits`.
-/
import Mathlib.Data.Set.Function
import SymbolRenaming.Proofs.Composition.Run

namespace SymbolRenaming

namespace Composition

/-! ### Scopes -/

/-- Symbols of the first layer's names. -/
structure Scope where
  classes : Set ClassName
  fields : Set FieldSymbol
  methods : Set MethodSymbol

namespace Scope

/-- The members of the scope carry classes of the scope. -/
structure Closed (N : Scope) : Prop where
  of_field : ∀ x ∈ N.fields, ∀ c ∈ x.classes, c ∈ N.classes
  of_method : ∀ x ∈ N.methods, ∀ c ∈ x.classes, c ∈ N.classes

/-- The layers behind keep the symbols of the scope apart, and all keys of the
layer are what they make of such symbols. -/
structure Fits (N : Scope) (behind : List Renaming) (layer : Renaming) : Prop where
  injOn_classes : Set.InjOn (renameClassThrough behind) N.classes
  injOn_fields : Set.InjOn (renameFieldThrough behind) N.fields
  injOn_methods : Set.InjOn (renameMethodThrough behind) N.methods
  classes_subset : ∀ c ∈ layer.classes, c ∈ renameClassThrough behind '' N.classes
  fields_subset : ∀ x ∈ layer.fields, x ∈ renameFieldThrough behind '' N.fields
  methods_subset : ∀ x ∈ layer.methods, x ∈ renameMethodThrough behind '' N.methods

end Scope

/-! ### Tables as layers -/

/-- A layer that leaves a symbol alone unless it lists it; an unlisted member
has its types renamed. -/
structure Tabular (r : Renaming) : Prop where
  renameClass : ∀ c ∉ r.classes, r.renameClass c = c
  renameField : ∀ x ∉ r.fields, r.renameField x = x.mapClasses r.renameClass
  renameMethod : ∀ x ∉ r.methods, r.renameMethod x = x.mapClasses r.renameClass

theorem tabular_of_isTable {m : Mappings} (h : m.isTable = true) : Tabular m.contract := by
  cases m with
  | rules t => cases h
  | frozen t =>
    constructor
    · intro c hc
      show (t.tables.classes.get? c).getD c = c
      rw [Table.get?_eq_none_iff.2 hc, Option.getD_none]
    · intro x hx
      show (t.tables.fields.get? x).getD _ = _
      rw [Table.get?_eq_none_iff.2 hx, Option.getD_none]
      rfl
    · intro x hx
      show (t.tables.methods.get? x).getD _ = _
      rw [Table.get?_eq_none_iff.2 hx, Option.getD_none]
      rfl
  | editable t =>
    constructor
    · intro c hc
      show (t.classes.get? c).getD c = c
      rw [Table.get?_eq_none_iff.2 hc, Option.getD_none]
    · intro x hx
      show t.renameField x = _
      rw [Editable.renameField, Table.get?_eq_none_iff.2 hx]
      rfl
    · intro x hx
      show t.renameMethod x = _
      rw [Editable.renameMethod, Table.get?_eq_none_iff.2 hx]
      rfl

/-! ### The invariant of a kind -/

/-- The state has symbols of `X` only, each with the name that the layers give
it, and the layers do no more than `plain` to the other symbols of `X`. -/
structure Tracks {α : Type} [DecidableEq α] (K : SymbolKind α) (plain : α → α)
    (layers : List Renaming) (X : Set α) (s : SymbolTables) : Prop where
  tracked : ∀ {first v}, (K.table s).get? first = some v →
    first ∈ X ∧ v = K.through layers first
  untracked : ∀ {x}, x ∈ X → (K.table s).get? x = none → K.through layers x = plain x

namespace Tracks

variable {α : Type} [DecidableEq α] {K : SymbolKind α} {plain plain' : α → α}
  {layers : List Renaming} {layer : Renaming} {X : Set α} {s : SymbolTables}

theorem nil (hplain : ∀ x, plain x = x) : Tracks K plain [] X {} where
  tracked h := by
    rw [K.table_empty, Table.get?_empty] at h
    cases h
  untracked _ _ := (hplain _).symm

/-- Where the layers keep symbols apart, no symbol of the state has the name
that they give to one outside the state. -/
theorem hasValue_eq_false (h : Tracks K plain layers X s)
    (hinj : Set.InjOn (K.through layers) X) {x : α} (hx : x ∈ X)
    (hn : (K.table s).get? x = none) : (K.table s).hasValue (K.through layers x) = false := by
  rw [Bool.eq_false_iff]
  intro hv
  obtain ⟨y, hy⟩ := Table.hasValue_iff.1 hv
  obtain ⟨hyX, heq⟩ := h.tracked hy
  obtain rfl : x = y := hinj hx hyX heq
  rw [hn] at hy
  cases hy

/-- A layer keeps the invariant if each key that comes from a symbol outside
the state is new under that symbol. -/
theorem applyLayer (h : Tracks K plain layers X s)
    (hkeys : ∀ key ∈ K.keys layer, key ∈ K.through layers '' X)
    (hnew : ∀ x ∈ X, (K.table s).get? x = none → K.through layers x ∈ K.keys layer →
      K.standing s (K.through layers x) = .fresh x)
    (hrest : ∀ x ∈ X, (K.table s).get? x = none → K.through layers x ∉ K.keys layer →
      K.rename layer (K.through layers x) = plain' x) :
    Tracks K plain' (layers ++ [layer]) X (applyLayer s layer) where
  tracked := by
    intro first v hv
    rw [K.through_concat]
    rcases K.get?_applyLayer_eq_some_iff.1 hv with ⟨w, hw, rfl⟩ | ⟨key, hkey, hfresh, rfl⟩
    · obtain ⟨hX, rfl⟩ := h.tracked hw
      exact ⟨hX, rfl⟩
    · obtain ⟨x, hx, rfl⟩ := hkeys key hkey
      -- a new key is no present name, so the symbol behind it is not in the state
      have hn : (K.table s).get? x = none := by
        rcases e : (K.table s).get? x with - | w
        · rfl
        · obtain ⟨-, rfl⟩ := h.tracked e
          have hv : (K.table s).hasValue (K.through layers x) = true :=
            Table.hasValue_iff.2 ⟨x, e⟩
          rw [K.hasValue_of_fresh hfresh] at hv
          cases hv
      have hfresh' := hnew x hx hn hkey
      rw [hfresh] at hfresh'
      obtain rfl : first = x := Standing.fresh.inj hfresh'
      exact ⟨hx, rfl⟩
  untracked := by
    intro x hx hn
    have hs : (K.table s).get? x = none := by
      rcases e : (K.table s).get? x with - | w
      · rfl
      · rw [K.get?_applyLayer_of_some e] at hn
        cases hn
    rw [K.through_concat]
    refine hrest x hx hs ?_
    intro hkey
    have hsome := K.get?_applyLayer_eq_some_iff.2
      (Or.inr ⟨_, hkey, hnew x hx hs hkey, rfl⟩)
    rw [hn] at hsome
    cases hsome

end Tracks

/-! ### Classes of the scope -/

section Classes

variable {layers : List Renaming} {layer : Renaming} {U : Set ClassName} {s : SymbolTables}

/-- The name that the layers give a class of the scope is read back to it. -/
theorem firstClass_through (h : Tracks classKind id layers U s)
    (hinj : Set.InjOn (renameClassThrough layers) U) {c : ClassName} (hc : c ∈ U) :
    firstClass s (renameClassThrough layers c) = c := by
  rcases hv : s.classes.hasValue (renameClassThrough layers c) with - | -
  · rw [firstClass_eq_self hv]
    rcases e : s.classes.get? c with - | w
    · exact h.untracked hc e
    · obtain ⟨-, rfl⟩ := h.tracked e
      have hv' : s.classes.hasValue (renameClassThrough layers c) = true :=
        Table.hasValue_iff.2 ⟨c, e⟩
      rw [hv] at hv'
      cases hv'
  · obtain ⟨hU, heq⟩ := h.tracked (get?_firstClass hv)
    exact (hinj hc hU heq).symm

/-- The name that the layers give a class of the scope is never lost. -/
theorem isLost_through (h : Tracks classKind id layers U s) {c : ClassName} (hc : c ∈ U) :
    isLost s (renameClassThrough layers c) = false := by
  rcases hv : s.classes.hasValue (renameClassThrough layers c) with - | -
  · rcases e : s.classes.get? c with - | w
    · have hself : renameClassThrough layers c = c := h.untracked hc e
      simp [isLost, hself, Table.contains, e]
    · obtain ⟨-, rfl⟩ := h.tracked e
      have hv' : s.classes.hasValue (renameClassThrough layers c) = true :=
        Table.hasValue_iff.2 ⟨c, e⟩
      rw [hv] at hv'
      cases hv'
  · simp [isLost, hv]

theorem tracks_classes (h : Tracks classKind id layers U s) (htab : Tabular layer)
    (hinj : Set.InjOn (renameClassThrough layers) U)
    (hkeys : ∀ c ∈ layer.classes, c ∈ renameClassThrough layers '' U) :
    Tracks classKind id (layers ++ [layer]) U (applyLayer s layer) := by
  refine h.applyLayer hkeys ?_ ?_
  · -- a class outside the state has kept its name, and enters under it
    intro c hc hn _
    have hself : classKind.through layers c = c := h.untracked hc hn
    have hv := h.hasValue_eq_false hinj hc hn
    rw [hself] at hv ⊢
    exact classStanding_eq_fresh_iff.2 ⟨hv, hn, rfl⟩
  · intro c hc hn hkey
    have hself : classKind.through layers c = c := h.untracked hc hn
    rw [hself] at hkey ⊢
    exact htab.renameClass c hkey

end Classes

/-! ### Members of the scope -/

section Members

variable {α : Type} [DecidableEq α] (K : MemberKind α)
variable {layers : List Renaming} {layer : Renaming} {U : Set ClassName} {X : Set α}
  {s : SymbolTables}

/-- What the layers make of a member outside the state: its types are renamed,
its name is kept. -/
def MemberKind.plain (layers : List Renaming) : α → α :=
  K.mapClasses (renameClassThrough layers)

theorem tracks_members (hU : Tracks classKind id layers U s)
    (h : Tracks K.toSymbolKind (K.plain layers) layers X s)
    (hclosed : ∀ x ∈ X, ∀ c ∈ K.classes x, c ∈ U)
    (hinjU : Set.InjOn (renameClassThrough layers) U)
    (hinj : Set.InjOn (K.through layers) X)
    (hkeys : ∀ key ∈ K.keys layer, key ∈ K.through layers '' X)
    (htab : ∀ x ∉ K.keys layer, K.rename layer x = K.mapClasses layer.renameClass x) :
    Tracks K.toSymbolKind (K.plain (layers ++ [layer])) (layers ++ [layer]) X
      (applyLayer s layer) := by
  refine h.applyLayer hkeys ?_ ?_
  · -- no class in the key is lost, and reading them backwards undoes the layers
    intro x hx hn _
    have hself : K.through layers x = K.plain layers x := h.untracked hx hn
    have hv := h.hasValue_eq_false hinj hx hn
    rw [K.standing_eq, Member.standing_eq_fresh_iff]
    refine ⟨hv, ?_, hn, ?_⟩
    · intro c hc
      rw [hself, MemberKind.plain, K.classes_mapClasses, List.mem_map] at hc
      obtain ⟨u, hu, rfl⟩ := hc
      exact isLost_through hU (hclosed x hx u hu)
    · rw [hself, MemberKind.plain, K.mapClasses_mapClasses]
      refine (K.mapClasses_eq_self_iff.2 ?_).symm
      intro u hu
      exact firstClass_through hU hinjU (hclosed x hx u hu)
  · -- an unlisted member has its types renamed once more
    intro x hx hn hkey
    have hself : K.through layers x = K.plain layers x := h.untracked hx hn
    rw [htab _ hkey, hself, MemberKind.plain, MemberKind.plain, K.mapClasses_mapClasses,
      K.mapClasses_eq_iff]
    intro c _
    exact (classKind.through_concat layers layer c).symm

end Members

/-! ### The invariant of a run -/

/-- The invariant of all three kinds. -/
structure Scope.Tracked (N : Scope) (layers : List Renaming) (s : SymbolTables) : Prop where
  classes : Tracks classKind id layers N.classes s
  fields : Tracks fieldKind.toSymbolKind (fieldKind.plain layers) layers N.fields s
  methods : Tracks methodKind.toSymbolKind (methodKind.plain layers) layers N.methods s

theorem Scope.Tracked.applyLayer {N : Scope} {layers : List Renaming} {layer : Renaming}
    {s : SymbolTables} (h : N.Tracked layers s) (hclosed : N.Closed) (hfit : N.Fits layers layer)
    (htab : Tabular layer) : N.Tracked (layers ++ [layer]) (applyLayer s layer) where
  classes := tracks_classes h.classes htab hfit.injOn_classes hfit.classes_subset
  fields := tracks_members fieldKind h.classes h.fields hclosed.of_field hfit.injOn_classes
    hfit.injOn_fields hfit.fields_subset htab.renameField
  methods := tracks_members methodKind h.classes h.methods hclosed.of_method hfit.injOn_classes
    hfit.injOn_methods hfit.methods_subset htab.renameMethod

theorem Scope.tracked_stateAfter {N : Scope} {layers : List Renaming} (hclosed : N.Closed)
    (htab : ∀ r ∈ layers, Tabular r)
    (hfit : ∀ behind layer ahead, layers = behind ++ layer :: ahead → N.Fits behind layer) :
    N.Tracked layers (stateAfter layers) := by
  induction layers using List.reverseRecOn with
  | nil =>
    refine ⟨Tracks.nil fun _ => rfl, Tracks.nil fun x => ?_, Tracks.nil fun x => ?_⟩
    · exact fieldKind.mapClasses_id x
    · exact methodKind.mapClasses_id x
  | append_singleton layers last ih =>
    rw [stateAfter_concat]
    refine Scope.Tracked.applyLayer (ih ?_ ?_) hclosed (hfit layers last [] rfl) (htab last ?_)
    · intro r hr
      exact htab r (List.mem_append_left _ hr)
    · rintro behind layer ahead rfl
      exact hfit behind layer (ahead ++ [last]) (by simp)
    · simp

/-! ### The end of the run -/

section End

variable {layers : List Renaming} {U : Set ClassName}

/-- The final class table, with its silence taken for the identity, is right on
the scope. -/
theorem renameClass_finalTables (h : Tracks classKind id layers U (stateAfter layers))
    {c : ClassName} (hc : c ∈ U) :
    (finalTables layers).contract.renameClass c = renameClassThrough layers c := by
  rcases e : (stateAfter layers).classes.get? c with - | v
  · have hself : renameClassThrough layers c = c := h.untracked hc e
    rw [finalTables, renameClass_close, e]
    split
    · rfl
    · exact hself.symm
  · obtain ⟨-, rfl⟩ := h.tracked e
    exact renameClass_close_of_get? e

variable {α : Type} [DecidableEq α] (K : MemberKind α) {X : Set α}

/-- The final class table renames the types of a member of the scope as the
layers do. -/
theorem mapClasses_finalTables (hU : Tracks classKind id layers U (stateAfter layers))
    (hclosed : ∀ x ∈ X, ∀ c ∈ K.classes x, c ∈ U) {x : α} (hx : x ∈ X) :
    K.mapClasses (finalTables layers).contract.renameClass x = K.plain layers x := by
  rw [MemberKind.plain, K.mapClasses_eq_iff]
  intro c hc
  exact renameClass_finalTables hU (hclosed x hx c hc)

theorem rename_finalTables (hU : Tracks classKind id layers U (stateAfter layers))
    (h : Tracks K.toSymbolKind (K.plain layers) layers X (stateAfter layers))
    (hclosed : ∀ x ∈ X, ∀ c ∈ K.classes x, c ∈ U) (htyped : ∀ r ∈ layers, K.Typed r)
    {x : α} (hx : x ∈ X) : K.rename (finalTables layers).contract x = K.through layers x := by
  have hplain := mapClasses_finalTables K hU hclosed hx
  rcases e : (K.table (finalTables layers)).get? x with - | v
  · rw [K.rename_contract, e, Option.getD_none, hplain]
    rcases e' : (K.table (stateAfter layers)).get? x with - | w
    · exact (h.untracked hx e').symm
    · -- a member that comes back has been dropped, and its types come back too
      obtain ⟨-, rfl⟩ := h.tracked e'
      have hself : K.through layers x = x := by
        refine Decidable.byContradiction fun hne => ?_
        rw [K.get?_finalTables_eq_some_iff.2 ⟨hne, e'⟩] at e
        cases e
      have hid : K.SameTypes (K.mapClasses (renameClassThrough layers) x)
          (K.mapClasses id x) := by
        rw [K.mapClasses_id]
        exact (K.sameTypes_through htyped x).trans (congrArg (K.withName · "") hself)
      rw [hself]
      exact K.mapClasses_eq_self_iff.2 (K.sameTypes_mapClasses_iff.1 hid)
  · rw [K.rename_contract_of_get? e]
    exact (h.tracked (K.get?_finalTables_eq_some_iff.1 e).2).2

theorem consistent_finalTables (hU : Tracks classKind id layers U (stateAfter layers))
    (h : Tracks K.toSymbolKind (K.plain layers) layers X (stateAfter layers))
    (hclosed : ∀ x ∈ X, ∀ c ∈ K.classes x, c ∈ U) (htyped : ∀ r ∈ layers, K.Typed r) :
    K.Consistent (finalTables layers).contract := by
  rw [K.consistent_contract_iff]
  intro x v hv
  obtain ⟨hxX, rfl⟩ := h.tracked (K.get?_finalTables_eq_some_iff.1 hv).2
  rw [mapClasses_finalTables K hU hclosed hxX]
  exact K.sameTypes_through htyped x

end End

/-! ### The law -/

/-- **Composition of tables.**  Consistent tables that fit a closed scope, each
behind the tables before it, compose, and every symbol of the scope, listed or
not, becomes what the tables make of it one after the other. -/
theorem rename_compose_of_fits {ms : List Mappings} {N : Scope}
    (htable : ∀ m ∈ ms, m.isTable = true)
    (hcheck : ∀ m ∈ ms, m.contract.checkTypes = .ok ())
    (hclosed : N.Closed)
    (hfit : ∀ behind m ahead, ms = behind ++ m :: ahead →
      N.Fits (behind.map Mappings.contract) m.contract) :
    ∃ r, (compose (ms.map Layer.ofMappings)).value = .ok r ∧
      (∀ c ∈ N.classes, r.contract.renameClass c
        = renameClassThrough (ms.map Mappings.contract) c) ∧
      (∀ x ∈ N.fields, r.contract.renameField x
        = renameFieldThrough (ms.map Mappings.contract) x) ∧
      ∀ x ∈ N.methods, r.contract.renameMethod x
        = renameMethodThrough (ms.map Mappings.contract) x := by
  have htab : ∀ r ∈ ms.map Mappings.contract, Tabular r := by
    rintro r hr
    obtain ⟨m, hm, rfl⟩ := List.mem_map.1 hr
    exact tabular_of_isTable (htable m hm)
  -- a cut of the layers' contracts is a cut of the layers
  have hfit' : ∀ behind layer ahead, ms.map Mappings.contract = behind ++ layer :: ahead →
      N.Fits behind layer := by
    intro behind layer ahead hsplit
    obtain ⟨xs, ys, rfl, rfl, hys⟩ := List.map_eq_append_iff.1 hsplit
    obtain ⟨m, zs, rfl, rfl, rfl⟩ := List.map_eq_cons_iff.1 hys
    exact hfit xs m zs rfl
  have h := Scope.tracked_stateAfter hclosed htab hfit'
  have hfields := fun r hr => (typed_of_mem_map hcheck r hr).1
  have hmethods := fun r hr => (typed_of_mem_map hcheck r hr).2
  -- the final tables are consistent, so that nothing is refused at the end
  have hok : (compose (ms.map Layer.ofMappings)).value
      = .ok (.ofTables (finalTables (ms.map Mappings.contract))) := by
    rw [value_compose_eq_ok_iff, map_contract_ofMappings, consistent_iff]
    exact ⟨⟨consistent_finalTables fieldKind h.classes h.fields hclosed.of_field hfields,
      consistent_finalTables methodKind h.classes h.methods hclosed.of_method hmethods⟩, rfl⟩
  refine ⟨_, hok, ?_⟩
  rw [contract_of_value_compose hok, map_contract_ofMappings]
  refine ⟨?_, ?_, ?_⟩
  · intro c hc
    exact renameClass_finalTables h.classes hc
  · intro x hx
    exact rename_finalTables fieldKind h.classes h.fields hclosed.of_field hfields hx
  · intro x hx
    exact rename_finalTables methodKind h.classes h.methods hclosed.of_method hmethods hx

/-- Two classes exchange their names. -/
def exchange : Mappings := .frozen (.ofNames [(⟨"a"⟩, ⟨"b"⟩), (⟨"b"⟩, ⟨"a"⟩)] [] [])

/-- A class and a field in the names that `exchange` gives. -/
def details : Mappings :=
  .editable { classes := .ofList [(⟨"a"⟩, ⟨"c"⟩)], fieldNames := .ofList [(⟨⟨"b"⟩, "f"⟩, "g")] }

/-- The two classes, with a field each. -/
def pair : Scope where
  classes := {c | c ∈ ([⟨"a"⟩, ⟨"b"⟩] : List ClassName)}
  fields := {x | x ∈ ([⟨⟨"a"⟩, "f"⟩, ⟨⟨"b"⟩, "f"⟩] : List FieldSymbol)}
  methods := {x | x ∈ ([] : List MethodSymbol)}

/-- The key `b/f` of the second layer is the field `a/f` of the first one's
names, and what was class `b` ends as `c`. -/
theorem rename_compose_exchange :
    pair.Closed ∧ ∃ r, (compose ([exchange, details].map Layer.ofMappings)).value = .ok r ∧
      r.contract.renameClass ⟨"b"⟩ = ⟨"c"⟩ ∧
      r.contract.renameField ⟨⟨"a"⟩, "f"⟩ = ⟨⟨"b"⟩, "g"⟩ ∧
      r.contract.renameField ⟨⟨"b"⟩, "f"⟩ = ⟨⟨"c"⟩, "f"⟩ := by
  have hclosed : pair.Closed := ⟨by simp [pair, FieldSymbol.classes], by simp [pair]⟩
  have hfirst : pair.Fits [] exchange.contract := by
    constructor
    · intro c _ d _ h
      exact h
    · intro x _ y _ h
      exact h
    · intro x _ y _ h
      exact h
    · intro c hc
      exact ⟨c, hc, rfl⟩
    · intro x hx
      cases hx
    · intro x hx
      cases hx
  have hsecond : pair.Fits [exchange.contract] details.contract := by
    constructor
    · have h : ∀ c ∈ ([⟨"a"⟩, ⟨"b"⟩] : List ClassName), ∀ d ∈ ([⟨"a"⟩, ⟨"b"⟩] : List ClassName),
          renameClassThrough [exchange.contract] c = renameClassThrough [exchange.contract] d →
            c = d := by decide
      intro c hc d hd
      exact h c hc d hd
    · have h : ∀ x ∈ ([⟨⟨"a"⟩, "f"⟩, ⟨⟨"b"⟩, "f"⟩] : List FieldSymbol),
          ∀ y ∈ ([⟨⟨"a"⟩, "f"⟩, ⟨⟨"b"⟩, "f"⟩] : List FieldSymbol),
          renameFieldThrough [exchange.contract] x = renameFieldThrough [exchange.contract] y →
            x = y := by decide
      intro x hx y hy
      exact h x hx y hy
    · intro x hx
      cases hx
    · have h : ∀ c ∈ details.contract.classes, ∃ u ∈ ([⟨"a"⟩, ⟨"b"⟩] : List ClassName),
          renameClassThrough [exchange.contract] u = c := by decide
      exact h
    · have h : ∀ x ∈ details.contract.fields,
          ∃ y ∈ ([⟨⟨"a"⟩, "f"⟩, ⟨⟨"b"⟩, "f"⟩] : List FieldSymbol),
          renameFieldThrough [exchange.contract] y = x := by decide
      exact h
    · intro x hx
      cases hx
  obtain ⟨r, hr, hclasses, hfields, -⟩ := @rename_compose_of_fits [exchange, details]
    pair (by decide) (by simp; exact ⟨rfl, rfl⟩) hclosed (by
      intro behind m ahead h
      rcases behind with - | ⟨x, - | ⟨y, zs⟩⟩
      · rw [← (List.cons.inj h).1]
        exact hfirst
      · obtain ⟨hx, h⟩ := List.cons.inj h
        rw [← hx, ← (List.cons.inj h).1]
        exact hsecond
      · simp at h)
  refine ⟨hclosed, r, hr, ?_, ?_, ?_⟩
  · exact (hclasses _ (by simp [pair])).trans rfl
  · exact (hfields _ (by simp [pair])).trans rfl
  · exact (hfields _ (by simp [pair])).trans rfl

end Composition

end SymbolRenaming
