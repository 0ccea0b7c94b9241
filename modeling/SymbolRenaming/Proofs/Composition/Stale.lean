/-
SymbolRenaming/Proofs/Composition/Stale.lean

Entries for names that are gone.

Design.  A class name is lost in a state if a class started out with it and no
class has it any more.  A later table may still say something about it: rename
the class of this name, or list members that carry it.  None of this is felt
(`value_compose_without`).

The reason is one fact about one step: a table never leads a name that is not
lost to a name that is (`isLost_applyLayer`).  For either the name is that of
some class, and this class is led along with it, or it is no class's name and
none started out with it, and then the table renames it only if it brings it in
as a class itself.  So no name inside a tracked member is ever lost
(`MemberKind.spared_stateAfter`), nor is the name to which any class is led
through the tables one after the other (`isLost_renameClassThrough`).  A layer
is asked about such names only, and its answers do not depend on what it says
about a lost one (`Renaming.Without`).
-/
import Mathlib.Data.List.Basic
import SymbolRenaming.Proofs.Composition.Law

namespace SymbolRenaming

/-! ### Leaving a class out -/

namespace Table

variable {α β : Type}

/-- Keeps the entries whose keys satisfy `p`. -/
def keep (p : α → Bool) (t : Table α β) : Table α β := t.filter fun e => p e.1

theorem keys_keep (p : α → Bool) (t : Table α β) : (t.keep p).keys = t.keys.filter p := by
  rw [keep, keys, filter, keys, List.filter_map]
  rfl

theorem get?_keep [DecidableEq α] {p : α → Bool} (t : Table α β) {k : α} (h : p k = true) :
    (t.keep p).get? k = t.get? k := by
  rw [keep, get?_filter]
  rcases t.get? k with - | v
  · rfl
  · exact Option.filter_some_pos h

end Table

/-- The tables without the entry of a class and without the members that carry
it. -/
def SymbolTables.without (t : SymbolTables) (c : ClassName) : SymbolTables where
  classes := t.classes.keep fun d => d ≠ c
  methods := t.methods.keep fun x => c ∉ x.classes
  fields := t.fields.keep fun x => c ∉ x.classes

/-- Frozen mappings without what they list about a class. -/
def Frozen.without (m : Frozen) (c : ClassName) : Frozen where
  forward := m.tables.without c
  ne_of_mem e he := m.ne_of_mem_tables e (List.mem_filter.1 he).1

/-- Editable mappings without what they list about a class. -/
def Editable.without (m : Editable) (c : ClassName) : Editable where
  classes := m.classes.keep fun d => d ≠ c
  methodNames := m.methodNames.keep fun x => c ∉ x.classes
  fieldNames := m.fieldNames.keep fun x => c ∉ x.classes

/-- Mappings without what they list about a class; rules list nothing. -/
def Mappings.without : Mappings → ClassName → Mappings
  | frozen m, c => frozen (m.without c)
  | editable m, c => editable (m.without c)
  | rules m, _ => rules m

/-- A renaming that lists nothing about a class, and is the same otherwise. -/
structure Renaming.Without (c : ClassName) (r r' : Renaming) : Prop where
  classes : r'.classes = r.classes.filter fun d => d ≠ c
  methods : r'.methods = r.methods.filter fun x => c ∉ x.classes
  fields : r'.fields = r.fields.filter fun x => c ∉ x.classes
  renameClass : ∀ d, d ≠ c → r'.renameClass d = r.renameClass d
  renameMethod : ∀ x, c ∉ x.classes → r'.renameMethod x = r.renameMethod x
  renameField : ∀ x, c ∉ x.classes → r'.renameField x = r.renameField x

section Without

variable {f g : ClassName → ClassName} {c : ClassName}

theorem FieldSymbol.mapClasses_congr_of_not_mem (h : ∀ d, d ≠ c → f d = g d) {x : FieldSymbol}
    (hx : c ∉ x.classes) : x.mapClasses f = x.mapClasses g := by
  refine FieldSymbol.mapClasses_eq_mapClasses_iff.2 fun d hd => h d ?_
  rintro rfl
  exact hx hd

theorem MethodSymbol.mapClasses_congr_of_not_mem (h : ∀ d, d ≠ c → f d = g d) {x : MethodSymbol}
    (hx : c ∉ x.classes) : x.mapClasses f = x.mapClasses g := by
  refine MethodSymbol.mapClasses_eq_mapClasses_iff.2 fun d hd => h d ?_
  rintro rfl
  exact hx hd

theorem SymbolTables.without_contract (t : SymbolTables) (c : ClassName) :
    Renaming.Without c t.contract (t.without c).contract := by
  have hclass : ∀ d, d ≠ c → (t.without c).contract.renameClass d = t.contract.renameClass d := by
    intro d hd
    show ((t.classes.keep _).get? d).getD d = (t.classes.get? d).getD d
    rw [t.classes.get?_keep (decide_eq_true hd)]
  refine ⟨Table.keys_keep _ _, Table.keys_keep _ _, Table.keys_keep _ _, hclass, ?_, ?_⟩
  · intro x hx
    show ((t.methods.keep _).get? x).getD (x.mapClasses (t.without c).contract.renameClass)
      = (t.methods.get? x).getD (x.mapClasses t.contract.renameClass)
    rw [t.methods.get?_keep (decide_eq_true hx), x.mapClasses_congr_of_not_mem hclass hx]
  · intro x hx
    show ((t.fields.keep _).get? x).getD (x.mapClasses (t.without c).contract.renameClass)
      = (t.fields.get? x).getD (x.mapClasses t.contract.renameClass)
    rw [t.fields.get?_keep (decide_eq_true hx), x.mapClasses_congr_of_not_mem hclass hx]

theorem Editable.without_contract (m : Editable) (c : ClassName) :
    Renaming.Without c m.contract (m.without c).contract := by
  have hclass : ∀ d, d ≠ c → (m.without c).renameClass d = m.renameClass d := by
    intro d hd
    show ((m.classes.keep _).get? d).getD d = (m.classes.get? d).getD d
    rw [m.classes.get?_keep (decide_eq_true hd)]
  refine ⟨Table.keys_keep _ _, Table.keys_keep _ _, Table.keys_keep _ _, hclass, ?_, ?_⟩
  · intro x hx
    have hname : (m.without c).methodNames.get? x = m.methodNames.get? x :=
      m.methodNames.get?_keep (decide_eq_true hx)
    show (m.without c).renameMethod x = m.renameMethod x
    rw [renameMethod, renameMethod, hname, x.mapClasses_congr_of_not_mem hclass hx]
  · intro x hx
    have hname : (m.without c).fieldNames.get? x = m.fieldNames.get? x :=
      m.fieldNames.get?_keep (decide_eq_true hx)
    show (m.without c).renameField x = m.renameField x
    rw [renameField, renameField, hname, x.mapClasses_congr_of_not_mem hclass hx]

theorem Mappings.without_contract (m : Mappings) (c : ClassName) :
    Renaming.Without c m.contract (m.without c).contract := by
  cases m with
  | frozen t => exact t.tables.without_contract c
  | editable t => exact t.without_contract c
  | rules t => exact ⟨rfl, rfl, rfl, fun _ _ => rfl, fun _ _ => rfl, fun _ _ => rfl⟩

end Without

namespace Composition

/-! ### Names that are not lost -/

section Lost

variable {s : SymbolTables} {layer : Renaming}

theorem isLost_eq_false_of_get? {u c : ClassName} (h : s.classes.get? u = some c) :
    isLost s c = false := by
  have hv : s.classes.hasValue c = true := Table.hasValue_iff.2 ⟨u, h⟩
  rw [isLost, hv]
  rfl

theorem isLost_eq_false_of_none {c : ClassName} (h : s.classes.get? c = none) :
    isLost s c = false := by
  rw [isLost, Table.contains, h]
  exact Bool.and_false _

theorem isLost_eq_true_iff {c : ClassName} :
    isLost s c = true ↔ c ∈ s.classes.keys ∧ c ∉ s.classes.values := by
  have hvalue : s.classes.hasValue c = true ↔ c ∈ s.classes.values := by
    simp [Table.hasValue, Table.values]
  rw [isLost, Bool.and_eq_true, Table.contains_iff, ← hvalue, Bool.not_eq_true', and_comm,
    Bool.not_eq_true]

/-- A table leads a name that is not lost to a name that is not lost. -/
theorem isLost_applyLayer (htab : ∀ c ∉ layer.classes, layer.renameClass c = c) {d : ClassName}
    (h : isLost s d = false) : isLost (applyLayer s layer) (layer.renameClass d) = false := by
  rcases hv : s.classes.hasValue d with - | -
  · have hnone := contains_eq_false_of_not_isLost h hv
    by_cases hkey : d ∈ layer.classes
    · -- the name comes in as a class of its own
      have hfresh : classStanding s d = .fresh d := classStanding_eq_fresh_iff.2 ⟨hv, hnone, rfl⟩
      exact isLost_eq_false_of_get?
        (classKind.get?_applyLayer_eq_some_iff.2 (Or.inr ⟨d, hkey, hfresh, rfl⟩))
    · rw [htab d hkey]
      refine isLost_eq_false_of_none (Option.eq_none_iff_forall_ne_some.2 fun v hget => ?_)
      rcases classKind.get?_applyLayer_eq_some_iff.1 hget with
        ⟨w, hw, -⟩ | ⟨key, hkey', hfresh, -⟩
      · have hw' : s.classes.get? d = some w := hw
        rw [hnone] at hw'
        cases hw'
      · obtain rfl : d = key := (classStanding_eq_fresh_iff.1 hfresh).2.2
        exact hkey hkey'
  · -- the class of this name is led along
    obtain ⟨u, hu⟩ := Table.hasValue_iff.1 hv
    exact isLost_eq_false_of_get? (classKind.get?_applyLayer_of_some hu)

end Lost

/-- No class is led to a lost name by tables that are read one after the other. -/
theorem isLost_renameClassThrough {layers : List Renaming} (htab : ∀ r ∈ layers, Tabular r)
    (c : ClassName) : isLost (stateAfter layers) (renameClassThrough layers c) = false := by
  induction layers using List.reverseRecOn with
  | nil => rfl
  | append_singleton layers last ih =>
    have hlast : renameClassThrough (layers ++ [last]) c
        = last.renameClass (renameClassThrough layers c) := classKind.through_concat layers last c
    rw [stateAfter_concat, hlast]
    refine isLost_applyLayer (htab last (by simp)).renameClass (ih fun r hr => ?_)
    exact htab r (List.mem_append_left _ hr)

namespace MemberKind

variable {α : Type} [DecidableEq α] (K : MemberKind α)

theorem classes_eq_of_sameTypes {x y : α} (h : K.SameTypes x y) : K.classes x = K.classes y := by
  rw [← K.classes_withName x "", ← K.classes_withName y "", h]

theorem classes_rename {r : Renaming} (h : K.Typed r) (x : α) :
    K.classes (K.rename r x) = (K.classes x).map r.renameClass := by
  rw [← K.classes_eq_of_sameTypes (h x), K.classes_mapClasses]

/-- No member of the state carries a lost name. -/
def Spared (s : SymbolTables) : Prop :=
  ∀ first v, (K.table s).get? first = some v → ∀ d ∈ K.classes v, isLost s d = false

variable {K}

theorem Spared.applyLayer {s : SymbolTables} {layer : Renaming} (h : K.Spared s)
    (htab : ∀ c ∉ layer.classes, layer.renameClass c = c) (htyped : K.Typed layer) :
    K.Spared (applyLayer s layer) := by
  intro first v hv d hd
  -- a member had its classes before the layer, or came in by a key that has none lost
  obtain ⟨w, hw, rfl⟩ : ∃ w, (∀ d ∈ K.classes w, isLost s d = false) ∧ v = K.rename layer w := by
    rcases K.get?_applyLayer_eq_some_iff.1 hv with ⟨w, hw, rfl⟩ | ⟨key, -, hfresh, rfl⟩
    · exact ⟨w, h first w hw, rfl⟩
    · rw [K.standing_eq, Member.standing_eq_fresh_iff] at hfresh
      exact ⟨key, hfresh.2.1, rfl⟩
  rw [K.classes_rename htyped, List.mem_map] at hd
  obtain ⟨e, he, rfl⟩ := hd
  exact isLost_applyLayer htab (hw e he)

theorem spared_stateAfter {layers : List Renaming} (htab : ∀ r ∈ layers, Tabular r)
    (htyped : ∀ r ∈ layers, K.Typed r) : K.Spared (stateAfter layers) := by
  induction layers using List.reverseRecOn with
  | nil =>
    intro first v hv
    have hempty : (K.table (stateAfter [])).get? first = none := by
      show (K.table {}).get? first = none
      rw [K.table_empty, Table.get?_empty]
    rw [hempty] at hv
    cases hv
  | append_singleton layers last ih =>
    rw [stateAfter_concat]
    refine Spared.applyLayer (ih ?_ ?_) (htab last (by simp)).renameClass (htyped last (by simp))
    · intro r hr
      exact htab r (List.mem_append_left _ hr)
    · intro r hr
      exact htyped r (List.mem_append_left _ hr)

end MemberKind

/-! ### A layer with and without a lost class -/

theorem freshKeys_filter {α : Type} {standing : α → Standing α} {p : α → Bool} (keys : List α)
    (h : ∀ key first, standing key = .fresh first → p key = true) :
    freshKeys standing (keys.filter p) = freshKeys standing keys := by
  rw [freshKeys, List.filterMap_filter, freshKeys]
  refine List.filterMap_congr fun key _ => ?_
  rcases e : standing key with - | - | first
  · exact ite_self _
  · exact ite_self _
  · rw [if_pos (h key first e)]

/-- A layer leaves the same state as another one that lists what it lists of `p`,
and that does the same there, if all that is tracked or comes in is in `p`. -/
theorem SymbolKind.table_applyLayer_congr {α : Type} [DecidableEq α] (K : SymbolKind α)
    {s : SymbolTables} {r r' : Renaming} {p : α → Bool}
    (hkeys : K.keys r' = (K.keys r).filter p)
    (hrename : ∀ x, p x = true → K.rename r' x = K.rename r x)
    (htracked : ∀ first v, (K.table s).get? first = some v → p v = true)
    (hfresh : ∀ key first, K.standing s key = .fresh first → p key = true) :
    K.table (applyLayer s r') = K.table (applyLayer s r) := by
  have hmoved : (K.table s).mapValues (K.rename r') = (K.table s).mapValues (K.rename r) := by
    refine Table.ext (List.map_congr_left fun e he => ?_)
    rw [hrename e.2 (htracked e.1 e.2 (Table.get?_eq_some_iff.2 he))]
  rw [K.table_applyLayer, K.table_applyLayer, hkeys, freshKeys_filter _ hfresh, hmoved]
  refine List.foldl_ext _ _ _ fun t e he => ?_
  rw [hrename e.2 (hfresh e.2 e.1 (mem_freshKeys.1 he).2)]

section Layer

variable {s : SymbolTables} {r r' : Renaming} {c : ClassName}

theorem MemberKind.table_applyLayer_without {α : Type} [DecidableEq α] (K : MemberKind α)
    (hlost : isLost s c = true) (hspared : K.Spared s)
    (hkeys : K.keys r' = (K.keys r).filter fun x => c ∉ K.classes x)
    (hrename : ∀ x, c ∉ K.classes x → K.rename r' x = K.rename r x) :
    K.table (applyLayer s r') = K.table (applyLayer s r) := by
  have hfree : ∀ x, (∀ d ∈ K.classes x, isLost s d = false) →
      decide (c ∉ K.classes x) = true := by
    intro x hx
    refine decide_eq_true fun hc => ?_
    rw [hx c hc] at hlost
    cases hlost
  refine K.table_applyLayer_congr hkeys (fun x hx => hrename x (of_decide_eq_true hx)) ?_ ?_
  · intro first v hv
    exact hfree v (hspared first v hv)
  · intro key first hfresh
    rw [K.standing_eq, Member.standing_eq_fresh_iff] at hfresh
    exact hfree key hfresh.2.1

/-- What a layer lists about a lost class changes nothing in the state. -/
theorem applyLayer_without (hlost : isLost s c = true) (hfields : fieldKind.Spared s)
    (hmethods : methodKind.Spared s) (h : Renaming.Without c r r') :
    applyLayer s r' = applyLayer s r := by
  obtain ⟨hkey, hvalue⟩ := isLost_eq_true_iff.1 hlost
  have hclasses : classKind.table (applyLayer s r') = classKind.table (applyLayer s r) := by
    refine classKind.table_applyLayer_congr h.classes
      (fun d hd => h.renameClass d (of_decide_eq_true hd)) ?_ ?_
    · intro first d hd
      refine decide_eq_true ?_
      rintro rfl
      exact hvalue (List.mem_map.2 ⟨_, Table.get?_eq_some_iff.1 hd, rfl⟩)
    · intro d first hfresh
      refine decide_eq_true ?_
      rintro rfl
      obtain ⟨-, hnone, rfl⟩ := classStanding_eq_fresh_iff.1 hfresh
      exact Table.get?_eq_none_iff.1 hnone hkey
  have hmethods' := methodKind.table_applyLayer_without hlost hmethods h.methods h.renameMethod
  have hfields' := fieldKind.table_applyLayer_without hlost hfields h.fields h.renameField
  calc applyLayer s r'
      = ⟨(applyLayer s r').classes, (applyLayer s r').methods, (applyLayer s r').fields⟩ := rfl
    _ = ⟨(applyLayer s r).classes, (applyLayer s r).methods, (applyLayer s r).fields⟩ :=
        congr (congrArg₂ SymbolTables.mk hclasses hmethods') hfields'

end Layer

/-! ### Runs with and without a lost class -/

section Run

variable {behind ahead : List Renaming} {r r' : Renaming} {c : ClassName}

/-- What a table says about a lost class is not felt when all layers are read one
after the other. -/
theorem renameClassThrough_without (htab : ∀ r ∈ behind, Tabular r)
    (hlost : isLost (stateAfter behind) c = true) (h : Renaming.Without c r r') :
    renameClassThrough (behind ++ r' :: ahead) = renameClassThrough (behind ++ r :: ahead) := by
  funext u
  have hne : renameClassThrough behind u ≠ c := by
    rintro rfl
    rw [isLost_renameClassThrough htab] at hlost
    cases hlost
  calc renameClassThrough (behind ++ r' :: ahead) u
      = renameClassThrough ahead (r'.renameClass (renameClassThrough behind u)) :=
        classKind.through_append behind (r' :: ahead) u
    _ = renameClassThrough ahead (r.renameClass (renameClassThrough behind u)) := by
        rw [h.renameClass _ hne]
    _ = renameClassThrough (behind ++ r :: ahead) u :=
        (classKind.through_append behind (r :: ahead) u).symm

theorem finalTables_without (htab : ∀ r ∈ behind, Tabular r)
    (htyped : ∀ r ∈ behind, fieldKind.Typed r ∧ methodKind.Typed r)
    (hlost : isLost (stateAfter behind) c = true) (h : Renaming.Without c r r') :
    finalTables (behind ++ r' :: ahead) = finalTables (behind ++ r :: ahead) := by
  have hfields : fieldKind.Spared (stateAfter behind) :=
    MemberKind.spared_stateAfter htab fun r hr => (htyped r hr).1
  have hmethods : methodKind.Spared (stateAfter behind) :=
    MemberKind.spared_stateAfter htab fun r hr => (htyped r hr).2
  have hstate : stateAfter (behind ++ r' :: ahead) = stateAfter (behind ++ r :: ahead) := by
    rw [stateAfter_append, stateAfter_append, List.foldl_cons, List.foldl_cons,
      applyLayer_without hlost hfields hmethods h]
  rw [finalTables, finalTables, hstate, close, close, renameClassThrough_without htab hlost h]

end Run

/-! ### Stale entries -/

theorem value_compose_congr {layers layers' : List Layer}
    (h : finalTables (layers.map Layer.contract) = finalTables (layers'.map Layer.contract)) :
    (compose layers).value = (compose layers').value := by
  have hpairs : ∀ ls : List Layer, (compose ls).value
      = Frozen.ofPairs (finalTables (ls.map Layer.contract)).classes.entries
          (finalTables (ls.map Layer.contract)).methods.entries
          (finalTables (ls.map Layer.contract)).fields.entries := value_compose
  rw [hpairs, hpairs, h]

/-- **Entries for names that are gone are inert.**  If a class started out with a
name, and behind consistent tables no class has it any more, then what the next
layer lists about this name does not matter: without it the composition comes to
the same tables, or to the same error. -/
theorem value_compose_without {behind ahead : List Mappings} {m : Mappings} {c : ClassName}
    (htable : ∀ m ∈ behind, m.isTable = true)
    (hcheck : ∀ m ∈ behind, m.contract.checkTypes = .ok ())
    (hkey : c ∈ (stateAfter (behind.map Mappings.contract)).classes.keys)
    (hvalue : c ∉ (stateAfter (behind.map Mappings.contract)).classes.values) :
    (compose ((behind ++ m.without c :: ahead).map Layer.ofMappings)).value
      = (compose ((behind ++ m :: ahead).map Layer.ofMappings)).value := by
  have htab : ∀ r ∈ behind.map Mappings.contract, Tabular r := by
    intro r hr
    obtain ⟨m, hm, rfl⟩ := List.mem_map.1 hr
    exact tabular_of_isTable (htable m hm)
  have hlost := isLost_eq_true_iff.2 ⟨hkey, hvalue⟩
  have hfinal : finalTables (behind.map Mappings.contract ++ (m.without c).contract
        :: ahead.map Mappings.contract)
      = finalTables (behind.map Mappings.contract ++ m.contract :: ahead.map Mappings.contract) :=
    finalTables_without htab (typed_of_mem_map hcheck) hlost (m.without_contract c)
  refine value_compose_congr ?_
  rw [map_contract_ofMappings, map_contract_ofMappings, List.map_append, List.map_append,
    List.map_cons, List.map_cons, hfinal]

/-- A class leaves its name. -/
def departs : Mappings := .frozen (.ofNames [(⟨"a"⟩, ⟨"b"⟩)] [] [])

/-- Entries for the class that left, under both names. -/
def addressed : Mappings :=
  .frozen (.ofNames [(⟨"a"⟩, ⟨"z"⟩), (⟨"b"⟩, ⟨"c"⟩)]
    [(⟨⟨"b"⟩, "m", ⟨[.reference ⟨"a"⟩], .reference ⟨"b"⟩⟩⟩, "n")]
    [(⟨⟨"a"⟩, "f"⟩, "g"), (⟨⟨"b"⟩, "f"⟩, "h")])

/-- Only the entries under the present name count. -/
theorem value_compose_addressed :
    (∀ m ∈ [departs], m.isTable = true) ∧
      (∀ m ∈ [departs], m.contract.checkTypes = .ok ()) ∧
      ⟨"a"⟩ ∈ (stateAfter ([departs].map Mappings.contract)).classes.keys ∧
      ⟨"a"⟩ ∉ (stateAfter ([departs].map Mappings.contract)).classes.values ∧
      ((addressed.without ⟨"a"⟩).contract.classes = [⟨"b"⟩] ∧
        (addressed.without ⟨"a"⟩).contract.methods = [] ∧
        (addressed.without ⟨"a"⟩).contract.fields = [⟨⟨"b"⟩, "f"⟩]) ∧
      (compose (([departs] ++ addressed.without ⟨"a"⟩ :: [exchange]).map Layer.ofMappings)).value
        = (compose (([departs] ++ addressed :: [exchange]).map Layer.ofMappings)).value := by
  have htable : ∀ m ∈ [departs], m.isTable = true := by decide
  have hcheck : ∀ m ∈ [departs], m.contract.checkTypes = .ok () := by
    simp only [List.mem_singleton, forall_eq]
    rfl
  have hkey : ⟨"a"⟩ ∈ (stateAfter ([departs].map Mappings.contract)).classes.keys := by decide
  have hvalue : ⟨"a"⟩ ∉ (stateAfter ([departs].map Mappings.contract)).classes.values := by decide
  exact ⟨htable, hcheck, hkey, hvalue, ⟨rfl, rfl, rfl⟩,
    value_compose_without htable hcheck hkey hvalue⟩

end Composition

end SymbolRenaming
