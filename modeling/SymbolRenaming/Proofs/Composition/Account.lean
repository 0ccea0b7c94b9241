/-
SymbolRenaming/Proofs/Composition/Account.lean

What becomes of the keys of a layer.

Design.  A layer is judged in the state before it.  Each of its keys is the
present name of a symbol, or it is brought in under a first name, or it is
passed over and reported, and only one of these.  What is brought in stands in
the state afterwards, in order, behind everything that was there before: no
first name is taken already, and no two keys share one
(`SymbolKind.Accounts`).  Two keys can share a first name only if they are
read backwards to the same classes, and as none of their classes is lost, the
class table leads the first name to both of them again.

The notices of a run name the layer that they are about, so that those of one
layer can be picked out of the notices of a whole composition
(`filterMap_notices_runLayers`).

Main result: `accounts_for_every_key`.
-/
import Mathlib.Data.List.Nodup
import SymbolRenaming.Proofs.Composition.Run

namespace SymbolRenaming

/-- Mappings of no kind list a symbol twice. -/
theorem Mappings.nodup_keys (m : Mappings) :
    m.contract.classes.Nodup ∧ m.contract.methods.Nodup ∧ m.contract.fields.Nodup := by
  cases m with
  | frozen t =>
    exact ⟨t.tables.classes.nodup_keys, t.tables.methods.nodup_keys, t.tables.fields.nodup_keys⟩
  | editable t => exact ⟨t.classes.nodup_keys, t.methodNames.nodup_keys, t.fieldNames.nodup_keys⟩
  | rules t => exact ⟨List.nodup_nil, List.nodup_nil, List.nodup_nil⟩

namespace Composition

/-! ### New entries -/

/-- New symbols with new first names stand behind those that were there. -/
theorem entries_introduce {α : Type} [DecidableEq α] {t : Table α α} {fresh : List (α × α)}
    (resolve : α → α) (h : (t.keys ++ fresh.map Prod.fst).Nodup) :
    (introduce t fresh resolve).entries
      = t.entries ++ fresh.map fun e => (e.1, resolve e.2) := by
  induction fresh generalizing t with
  | nil => simp [introduce]
  | cons e es ih =>
    have hnew : e.1 ∉ t.keys := by
      intro hm
      exact (List.nodup_append.1 h).2.2 e.1 hm e.1 (by simp) rfl
    have hinsert : t.insertNew e.1 (resolve e.2) = t.insert e.1 (resolve e.2) := by
      rw [Table.insertNew, if_neg]
      rwa [Table.contains_iff]
    have hkeys : (t.insert e.1 (resolve e.2)).keys = t.keys ++ [e.1] := by
      rw [Table.keys_insert, if_neg hnew]
    have hcons : introduce t (e :: es) resolve
        = introduce (t.insert e.1 (resolve e.2)) es resolve := by
      rw [← hinsert]
      rfl
    rw [hcons, ih (by simpa [hkeys] using h), Table.entries_insert_of_not_mem hnew]
    simp

theorem mem_staleKeys {α : Type} {standing : α → Standing α} {keys : List α} {key : α} :
    key ∈ staleKeys standing keys ↔ key ∈ keys ∧ standing key = .stale := by
  rw [staleKeys, List.mem_filter]
  rcases standing key with - | - | first <;> simp

/-- The first names of new keys repeat nothing if each belongs to one key. -/
theorem nodup_freshKeys {α : Type} {standing : α → Standing α} {keys : List α}
    (hkeys : keys.Nodup)
    (hone : ∀ {x y first}, standing x = .fresh first → standing y = .fresh first → x = y) :
    ((freshKeys standing keys).map Prod.fst).Nodup := by
  induction keys with
  | nil => exact List.nodup_nil
  | cons key keys ih =>
    obtain ⟨hnot, hkeys⟩ := List.nodup_cons.1 hkeys
    rcases e : standing key with - | - | first
    · simpa [freshKeys, e] using ih hkeys
    · simpa [freshKeys, e] using ih hkeys
    · have hcons : freshKeys standing (key :: keys) = (first, key) :: freshKeys standing keys := by
        simp [freshKeys, e]
      rw [hcons, List.map_cons, List.nodup_cons]
      refine ⟨fun hmem => ?_, ih hkeys⟩
      obtain ⟨⟨f, key'⟩, hmem', rfl⟩ := List.mem_map.1 hmem
      obtain ⟨hkey', hfresh⟩ := mem_freshKeys.1 hmem'
      obtain rfl := hone e hfresh
      exact hnot hkey'

/-! ### The account of a kind -/

/-- One of three statements holds, and only one. -/
def ExactlyOne (p q r : Prop) : Prop := (p ∧ ¬q ∧ ¬r) ∨ (¬p ∧ q ∧ ¬r) ∨ (¬p ∧ ¬q ∧ r)

namespace SymbolKind

variable {α : Type} [DecidableEq α] (K : SymbolKind α) (s : SymbolTables) (layer : Renaming)

/-- The keys that a layer brings in, each behind its first name. -/
def introduced : List (α × α) := freshKeys (K.standing s) (K.keys layer)

/-- The keys of a layer that are passed over. -/
def skipped : List α := staleKeys (K.standing s) (K.keys layer)

/-- What becomes of the keys of a layer, and what the state is afterwards. -/
structure Accounts : Prop where
  /-- A key is a present name, or it is brought in, or it is passed over. -/
  exactly_one : ∀ key ∈ K.keys layer,
    ExactlyOne (∃ first, (K.table s).get? first = some key)
      (∃ first, (first, key) ∈ K.introduced s layer) (key ∈ K.skipped s layer)
  /-- Nothing but keys is passed over, and each once. -/
  skipped_sublist : (K.skipped s layer).Sublist (K.keys layer)
  nodup_skipped : (K.skipped s layer).Nodup
  /-- No two keys share a first name, and no symbol has it already. -/
  nodup_first : ((K.introduced s layer).map Prod.fst).Nodup
  get?_first : ∀ e ∈ K.introduced s layer, (K.table s).get? e.1 = none
  /-- Every symbol moves on, and every new one enters. -/
  entries_applyLayer : (K.table (applyLayer s layer)).entries
    = (K.table s).entries.map (fun e => (e.1, K.rename layer e.2))
      ++ (K.introduced s layer).map fun e => (e.1, K.rename layer e.2)

variable {K s layer}

theorem mem_introduced {first key : α} :
    (first, key) ∈ K.introduced s layer ↔
      key ∈ K.keys layer ∧ K.standing s key = .fresh first :=
  mem_freshKeys

theorem mem_skipped {key : α} :
    key ∈ K.skipped s layer ↔ key ∈ K.keys layer ∧ K.standing s key = .stale :=
  mem_staleKeys

/-- The account follows from the standings, if a key stands as current exactly
when some symbol has it. -/
theorem accounts_of_nodup
    (hcurrent : ∀ key, K.standing s key = .current ↔ (K.table s).hasValue key = true)
    (hkeys : (K.keys layer).Nodup) : K.Accounts s layer := by
  have hfirst : ((K.introduced s layer).map Prod.fst).Nodup :=
    nodup_freshKeys hkeys fun hx hy => K.eq_of_fresh hx hy
  have hnone : ∀ e ∈ K.introduced s layer, (K.table s).get? e.1 = none :=
    fun e he => K.get?_of_fresh (mem_introduced.1 he).2
  refine ⟨?_, List.filter_sublist, hkeys.filter _, hfirst, hnone, ?_⟩
  · intro key hkey
    rw [← Table.hasValue_iff, ← hcurrent, mem_skipped]
    simp only [mem_introduced, hkey, true_and, ExactlyOne]
    rcases K.standing s key with - | - | first <;> simp
  · rw [K.table_applyLayer]
    refine entries_introduce _ (List.nodup_append.2 ⟨?_, hfirst, ?_⟩)
    · exact ((K.table s).mapValues (K.rename layer)).nodup_keys
    · rintro x hx y hy rfl
      obtain ⟨e, he, rfl⟩ := List.mem_map.1 hy
      rw [Table.keys_mapValues] at hx
      exact Table.get?_eq_none_iff.1 (hnone e he) hx

end SymbolKind

/-! ### The account of a layer -/

theorem classStanding_eq_current_iff {s : SymbolTables} {key : ClassName} :
    classStanding s key = .current ↔ s.classes.hasValue key = true := by
  rw [classStanding]
  split
  · rename_i hv
    simp [hv]
  · rename_i hv
    split <;> simp [hv]

theorem Member.standing_eq_current_iff {α : Type} [DecidableEq α] {M : Member α} {t : Table α α}
    {s : SymbolTables} {key : α} :
    M.standing t s key = .current ↔ t.hasValue key = true := by
  rw [Member.standing]
  split
  · rename_i hv
    simp [hv]
  · rename_i hv
    simp only [hv]
    split <;> simp

theorem MemberKind.accounts_of_nodup {α : Type} [DecidableEq α] (K : MemberKind α)
    {s : SymbolTables} {layer : Renaming} (hkeys : (K.keys layer).Nodup) :
    K.toSymbolKind.Accounts s layer := by
  refine SymbolKind.accounts_of_nodup (fun key => ?_) hkeys
  rw [K.standing_eq, Member.standing_eq_current_iff]

/-- The account of all three kinds.  Classes enter under their own name; the
class table, with its silence taken for the identity, leads the first name of a
member to the key by which it enters. -/
structure Account (s : SymbolTables) (layer : Renaming) : Prop where
  classes : classKind.Accounts s layer
  methods : methodKind.Accounts s layer
  fields : fieldKind.Accounts s layer
  class_key : ∀ e ∈ classKind.introduced s layer, e.1 = e.2
  method_key : ∀ e ∈ methodKind.introduced s layer, e.1.mapClasses (presentClass s) = e.2
  field_key : ∀ e ∈ fieldKind.introduced s layer, e.1.mapClasses (presentClass s) = e.2

theorem Account.of_mappings (s : SymbolTables) (m : Mappings) : Account s m.contract where
  classes := SymbolKind.accounts_of_nodup (fun _ => classStanding_eq_current_iff) m.nodup_keys.1
  methods := methodKind.accounts_of_nodup m.nodup_keys.2.1
  fields := fieldKind.accounts_of_nodup m.nodup_keys.2.2
  class_key _ he := (classStanding_eq_fresh_iff.1 (SymbolKind.mem_introduced.1 he).2).2.2
  method_key _ he :=
    Member.mapClasses_presentClass (M := methodMember) (SymbolKind.mem_introduced.1 he).2
  field_key _ he :=
    Member.mapClasses_presentClass (M := fieldMember) (SymbolKind.mem_introduced.1 he).2

/-! ### What is reported -/

/-- The text of the entry that a notice reports as passed over at a layer. -/
def skippedAt? (index : Nat) : Notice → Option String
  | .layerEntrySkipped i key => if i = index then some key else none
  | _ => none

/-- The texts of the keys that are passed over, kind by kind. -/
def skippedTexts (s : SymbolTables) (layer : Renaming) : List String :=
  (classKind.skipped s layer).map ClassName.text
    ++ (methodKind.skipped s layer).map MethodSymbol.text
    ++ (fieldKind.skipped s layer).map FieldSymbol.internalName

theorem filterMap_layerNotices (index i : Nat) (s : SymbolTables) (layer : Renaming) :
    (layerNotices i s layer).filterMap (skippedAt? index)
      = if i = index then skippedTexts s layer else [] := by
  have hmap : ∀ {α : Type} (xs : List α) (text : α → String),
      (xs.map fun x => Notice.layerEntrySkipped i (text x)).filterMap (skippedAt? index)
        = if i = index then xs.map text else [] := by
    intro α xs text
    rw [List.filterMap_map]
    split
    · rename_i h
      simp [skippedAt?, h]
    · rename_i h
      simp [skippedAt?, h]
  simp only [layerNotices, List.filterMap_append, hmap]
  split <;> simp [skippedAt?, skippedTexts, SymbolKind.skipped, classKind, methodKind, fieldKind]

theorem filterMap_openingNotices (index : Nat) (m : Mappings) :
    m.openingNotices.filterMap (skippedAt? index) = [] := by
  cases m with
  | frozen t =>
    show t.openingNotices.filterMap (skippedAt? index) = []
    rw [Frozen.openingNotices]
    split <;> rfl
  | editable t => rfl
  | rules t => rfl

/-- Layers that come later are reported under later places. -/
theorem filterMap_notices_of_lt {index i : Nat} (h : index < i) (s : SymbolTables)
    (ms : List Mappings) :
    (runLayers i s (ms.map Layer.ofMappings)).notices.filterMap (skippedAt? index) = [] := by
  induction ms generalizing i s with
  | nil => rfl
  | cons m ms ih =>
    have hopening : (Layer.ofMappings m).openingNotices.filterMap (skippedAt? index) = [] :=
      filterMap_openingNotices index m
    simp only [List.map_cons, runLayers, List.filterMap_append, hopening, filterMap_layerNotices,
      if_neg (Nat.ne_of_gt h), ih (Nat.lt_succ_of_lt h), List.append_nil]

/-- The notices of a run about one layer are the ones that are given when it is
applied. -/
theorem filterMap_notices_runLayers (i : Nat) (s : SymbolTables) (behind ahead : List Mappings)
    (m : Mappings) :
    (runLayers i s ((behind ++ m :: ahead).map Layer.ofMappings)).notices.filterMap
        (skippedAt? (i + behind.length))
      = skippedTexts ((behind.map Mappings.contract).foldl applyLayer s) m.contract := by
  induction behind generalizing i s with
  | nil =>
    have hopening : (Layer.ofMappings m).openingNotices.filterMap (skippedAt? i) = [] :=
      filterMap_openingNotices i m
    have hlater := filterMap_notices_of_lt (Nat.lt_succ_self i) (applyLayer s m.contract) ahead
    simp only [List.nil_append, List.map_cons, runLayers, List.length_nil, Nat.add_zero,
      List.filterMap_append, hopening, filterMap_layerNotices, if_true]
    exact (congrArg (skippedTexts s m.contract ++ ·) hlater).trans (List.append_nil _)
  | cons first behind ih =>
    have hopening : (Layer.ofMappings first).openingNotices.filterMap
        (skippedAt? (i + 1 + behind.length)) = [] := filterMap_openingNotices _ first
    have hlength : i + (first :: behind).length = i + 1 + behind.length := by
      simp only [List.length_cons]
      omega
    have hne : i ≠ i + 1 + behind.length := by omega
    rw [hlength]
    simp only [List.cons_append, List.map_cons, runLayers, List.filterMap_append, hopening,
      filterMap_layerNotices, if_neg hne, List.nil_append]
    exact ih (i + 1) (applyLayer s first.contract)

/-! ### Every key -/

/-- **No key is lost, and none is merged with another.**  Wherever a layer stands
among layers of any kinds, each of its keys is the present name of a symbol, or
is brought in, or is passed over, and the notices of the composition report just
those that are passed over. -/
theorem accounts_for_every_key (behind ahead : List Mappings) (m : Mappings) :
    Account (stateAfter (behind.map Mappings.contract)) m.contract ∧
    (compose ((behind ++ m :: ahead).map Layer.ofMappings)).notices.filterMap
        (skippedAt? behind.length)
      = skippedTexts (stateAfter (behind.map Mappings.contract)) m.contract := by
  refine ⟨.of_mappings _ m, ?_⟩
  have hrun := filterMap_notices_runLayers 0 {} behind ahead m
  rw [Nat.zero_add] at hrun
  rw [compose, List.filterMap_append, hrun]
  exact List.append_nil _

end Composition

end SymbolRenaming
