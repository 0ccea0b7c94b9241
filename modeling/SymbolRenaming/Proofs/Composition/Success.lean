/-
SymbolRenaming/Proofs/Composition/Success.lean

When a composition of consistent layers succeeds.

Design.  A member enters the state by a key of some layer, and its types are
from then on renamed as the layers from there on rename the classes in the key.
The final class table renames the classes in its first name.  For a class in
the key that some symbol has as its present name the two agree, because that
symbol is led through the same layers.  A class that no symbol has at that time
is *loose*: the key takes its name for a first name.  The composition leads a
loose class through the layers from the one at which it enters as a class
itself, or through all layers if it never does (`classPath`), and only if this
ends at the same name is the member consistent with the final class table.

So the composition succeeds exactly when the loose classes of all members that
change are settled in this sense (`value_compose_isOk_iff`).  It is not enough that
every layer is consistent: a layer may use a name that a rule before it has
taken away, and then the name is taken for a class of its own
(`value_compose_moved`).
-/
import SymbolRenaming.Proofs.Composition.Law

namespace SymbolRenaming

namespace Composition

/-! ### The path of a class -/

/-- The layers from the one at which a class enters. -/
def classPath? (s : SymbolTables) (c : ClassName) : List Renaming → Option (List Renaming)
  | [] => none
  | layer :: rest =>
    if c ∈ layer.classes ∧ classStanding s c = .fresh c then some (layer :: rest)
    else classPath? (applyLayer s layer) c rest

/-- The layers that the composition leads a class through: those from the one
at which it enters, or all of them if it never enters. -/
def classPath (layers : List Renaming) (c : ClassName) : List Renaming :=
  (classPath? {} c layers).getD layers

/-- A class that is not in the state comes to have the name to which its path
leads. -/
theorem get?_foldl_applyLayer_classes {s : SymbolTables} {c : ClassName}
    (hn : s.classes.get? c = none) (layers : List Renaming) :
    (layers.foldl applyLayer s).classes.get? c
      = (classPath? s c layers).map fun path => renameClassThrough path c := by
  induction layers generalizing s with
  | nil => exact hn
  | cons layer rest ih =>
    rw [List.foldl_cons, classPath?]
    split
    · rename_i h
      have hin : (classKind.table (applyLayer s layer)).get? c = some (layer.renameClass c) :=
        classKind.get?_applyLayer_eq_some_iff.2 (Or.inr ⟨c, h.1, h.2, rfl⟩)
      exact classKind.get?_foldl_applyLayer hin rest
    · -- a class that does not enter here is still not in the state
      rename_i h
      refine ih ?_
      rcases e : (applyLayer s layer).classes.get? c with - | v
      · rfl
      · rcases classKind.get?_applyLayer_eq_some_iff.1 e with ⟨w, hw, -⟩ | ⟨key, hkey, hfresh, -⟩
        · have hw' : s.classes.get? c = some w := hw
          rw [hn] at hw'
          cases hw'
        · obtain rfl : c = key := (classStanding_eq_fresh_iff.1 hfresh).2.2
          exact absurd ⟨hkey, hfresh⟩ h

theorem get?_stateAfter_classes (layers : List Renaming) (c : ClassName) :
    (stateAfter layers).classes.get? c
      = (classPath? {} c layers).map fun path => renameClassThrough path c :=
  get?_foldl_applyLayer_classes (Table.get?_empty c) layers

section Members

variable {α : Type} [DecidableEq α] (K : MemberKind α) {layers : List Renaming}

/-- A class inside a member of the state ends where its path leads. -/
theorem renameClass_finalTables_of_mem {first v : α} {c : ClassName}
    (h : (K.table (stateAfter layers)).get? first = some v) (hc : c ∈ K.classes first) :
    (finalTables layers).contract.renameClass c
      = renameClassThrough (classPath layers c) c := by
  have hpath := get?_stateAfter_classes layers c
  rw [classPath]
  rcases e : classPath? {} c layers with - | path
  · rw [e] at hpath
    have hkey : first ∈ (K.table (stateAfter layers)).keys := K.mem_keys_iff.2 ⟨_, h⟩
    exact renameClass_close_of_mem hpath (K.mem_referencedClasses hkey hc hpath)
  · rw [e] at hpath
    exact renameClass_close_of_get? hpath

/-- A name that some class has is led through the layers to come, whatever the
first name of the class is. -/
theorem renameClass_finalTables_firstClass {behind ahead : List Renaming} {c : ClassName}
    (hv : (stateAfter behind).classes.hasValue c = true) :
    (finalTables (behind ++ ahead)).contract.renameClass (firstClass (stateAfter behind) c)
      = renameClassThrough ahead c := by
  have hc : (classKind.table (stateAfter behind)).get? (firstClass (stateAfter behind) c)
      = some c := get?_firstClass hv
  have hend := classKind.get?_foldl_applyLayer hc ahead
  rw [← stateAfter_append] at hend
  exact renameClass_close_of_get? hend

/-! ### Settled members -/

/-- The loose classes of the members that enter, and that end under another
name than their first one, are taken by the layers to come to where their own
path leads. -/
def MemberKind.Settled (layers : List Renaming) : Prop :=
  ∀ behind layer ahead key first, layers = behind ++ layer :: ahead →
    K.Enters behind layer key first → K.through (layer :: ahead) key ≠ first →
    ∀ c ∈ K.classes key, (stateAfter behind).classes.hasValue c = false →
      renameClassThrough (layer :: ahead) c = renameClassThrough (classPath layers c) c

/-- One member agrees with the final class table exactly if its loose classes
are settled. -/
theorem sameTypes_finalTables_iff {behind ahead : List Renaming} {layer : Renaming}
    {key first : α} (htyped : ∀ r ∈ behind ++ layer :: ahead, K.Typed r)
    (henter : K.Enters behind layer key first) :
    K.SameTypes (K.mapClasses (finalTables (behind ++ layer :: ahead)).contract.renameClass first)
        (K.through (layer :: ahead) key) ↔
      ∀ c ∈ K.classes key, (stateAfter behind).classes.hasValue c = false →
        renameClassThrough (layer :: ahead) c
          = renameClassThrough (classPath (behind ++ layer :: ahead) c) c := by
  have hfresh := henter.fresh
  rw [K.standing_eq, Member.standing_eq_fresh_iff] at hfresh
  have hfirst := hfresh.2.2.2
  have htypes : K.SameTypes (K.mapClasses (renameClassThrough (layer :: ahead)) key)
      (K.through (layer :: ahead) key) :=
    K.sameTypes_through (fun r hr => htyped r (List.mem_append_right _ hr)) key
  have hentry : (K.table (stateAfter (behind ++ layer :: ahead))).get? first
      = some (K.through (layer :: ahead) key) :=
    K.get?_stateAfter_eq_some_iff.2 ⟨behind, layer, ahead, key, rfl, henter, rfl⟩
  -- the first name has the first names of the key's classes
  have hkey : K.SameTypes
        (K.mapClasses (finalTables (behind ++ layer :: ahead)).contract.renameClass first)
        (K.through (layer :: ahead) key) ↔
      ∀ c ∈ K.classes key, (finalTables (behind ++ layer :: ahead)).contract.renameClass
        (firstClass (stateAfter behind) c) = renameClassThrough (layer :: ahead) c := by
    rw [hfirst, K.mapClasses_mapClasses, Member.SameTypes, ← htypes]
    exact K.sameTypes_mapClasses_iff
  rw [hkey]
  refine forall₂_congr fun c hc => ?_
  rcases hv : (stateAfter behind).classes.hasValue c with - | -
  · -- a loose class has taken its own name for its first name
    have hself := firstClass_eq_self hv
    have hmem : c ∈ K.classes first := by
      rw [hfirst, K.classes_mapClasses, List.mem_map]
      exact ⟨c, hc, hself⟩
    rw [hself, renameClass_finalTables_of_mem K hentry hmem]
    simp [eq_comm]
  · -- the class behind a present name is led through the same layers
    simp [renameClass_finalTables_firstClass hv]

theorem consistent_finalTables_iff (htyped : ∀ r ∈ layers, K.Typed r) :
    K.Consistent (finalTables layers).contract ↔ K.Settled layers := by
  rw [K.consistent_contract_iff]
  constructor
  · rintro h behind layer ahead key first rfl henter hne
    rw [← sameTypes_finalTables_iff K htyped henter]
    refine h first _ (K.get?_finalTables_eq_some_iff.2 ⟨hne, ?_⟩)
    exact K.get?_stateAfter_eq_some_iff.2 ⟨behind, layer, ahead, key, rfl, henter, rfl⟩
  · intro h first v hv
    obtain ⟨hne, hv⟩ := K.get?_finalTables_eq_some_iff.1 hv
    obtain ⟨behind, layer, ahead, key, rfl, henter, rfl⟩ := K.get?_stateAfter_eq_some_iff.1 hv
    rw [sameTypes_finalTables_iff K htyped henter]
    exact h behind layer ahead key first rfl henter hne

end Members

/-! ### Success -/

/-- **When a composition succeeds.**  Consistent layers of any kinds compose
exactly if the members that enter have settled classes. -/
theorem value_compose_isOk_iff {ms : List Mappings}
    (hcheck : ∀ m ∈ ms, m.contract.checkTypes = .ok ()) :
    (∃ r, (compose (ms.map Layer.ofMappings)).value = .ok r) ↔
      fieldKind.Settled (ms.map Mappings.contract) ∧
      methodKind.Settled (ms.map Mappings.contract) := by
  have htyped := typed_of_mem_map hcheck
  rw [← consistent_finalTables_iff fieldKind fun r hr => (htyped r hr).1,
    ← consistent_finalTables_iff methodKind fun r hr => (htyped r hr).2, ← consistent_iff,
    ← map_contract_ofMappings]
  constructor
  · rintro ⟨r, hr⟩
    exact (value_compose_eq_ok_iff.1 hr).1
  · intro h
    exact ⟨_, value_compose_eq_ok_iff.2 ⟨h, rfl⟩⟩

/-- An exchange of names leaves what is renamed in its names settled. -/
theorem settled_exchange :
    (∀ m ∈ [exchange, details], m.contract.checkTypes = .ok ()) ∧
      fieldKind.Settled ([exchange, details].map Mappings.contract) ∧
      methodKind.Settled ([exchange, details].map Mappings.contract) := by
  have hcheck : ∀ m ∈ [exchange, details], m.contract.checkTypes = .ok () := by
    simp only [List.mem_cons, List.not_mem_nil, or_false, forall_eq_or_imp, forall_eq]
    exact ⟨rfl, rfl⟩
  exact ⟨hcheck, (value_compose_isOk_iff hcheck).1 ⟨_, rfl⟩⟩

/-- The classes of package `p` move to package `q`. -/
def movesPackage : Mappings := .rules (.packages [("p", "q")])

/-- A field of a class in package `p`. -/
def lateField : Mappings := .frozen (.ofNames [] [] [(⟨⟨"p/A"⟩, "f"⟩, "g")])

/-- The second layer still uses the name that the first one has taken away.  Both
are consistent, and the composition fails: the field is not moved to the other
package, and its class is. -/
theorem value_compose_moved :
    (∀ m ∈ [movesPackage, lateField], m.contract.checkTypes = .ok ()) ∧
      ¬ ∃ r, (compose ([movesPackage, lateField].map Layer.ofMappings)).value = .ok r := by
  have herror : (compose ([movesPackage, lateField].map Layer.ofMappings)).value
      = .error (.inconsistent .field "p/A/f" "p/A/g") := rfl
  refine ⟨?_, ?_⟩
  · simp only [List.mem_cons, List.not_mem_nil, or_false, forall_eq_or_imp, forall_eq]
    exact ⟨rfl, rfl⟩
  · rintro ⟨r, hr⟩
    rw [herror] at hr
    cases hr

end Composition

end SymbolRenaming
