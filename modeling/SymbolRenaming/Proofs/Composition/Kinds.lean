/-
SymbolRenaming/Proofs/Composition/Kinds.lean

The three kinds of symbols, seen alike.

Design.  Composition treats classes, methods and fields in three parallel
strands: a table of the state, a standing for each key, the keys that a layer
lists, and what the layer makes of a symbol.  A `SymbolKind` is such a strand,
with the facts that every strand shares.  Methods and fields share more, since
both have a name and carry classes: a `MemberKind` adds that.  Whatever is
proved of a kind holds of all three strands, and a theorem about members is
proved once.

The facts to be supplied for a member are about its classes alone.  Where a key
is new, no class in it is lost, so the reading of the class table backwards can
be undone on it (`presentClass_firstClass`), and a first name belongs to one key
only (`Member.eq_of_fresh`).

Main results: what a layer does to the table of a kind
(`SymbolKind.get?_applyLayer_eq_some_iff`), and the three kinds themselves
(`classKind`, `fieldKind`, `methodKind`).
-/
import SymbolRenaming.Composition

namespace SymbolRenaming

namespace Composition

/-! ### New keys -/

theorem mem_freshKeys {α : Type} {standing : α → Standing α} {keys : List α} {first key : α} :
    (first, key) ∈ freshKeys standing keys ↔ key ∈ keys ∧ standing key = .fresh first := by
  simp only [freshKeys, List.mem_filterMap]
  constructor
  · rintro ⟨x, hx, he⟩
    split at he
    · rename_i f hf
      obtain ⟨rfl, rfl⟩ := Prod.mk.injEq .. ▸ Option.some.inj he
      exact ⟨hx, hf⟩
    · cases he
  · rintro ⟨hx, hf⟩
    exact ⟨key, hx, by rw [hf]⟩

theorem get?_introduce {α : Type} [DecidableEq α] (t : Table α α) (fresh : List (α × α))
    (resolve : α → α) (k : α) :
    (introduce t fresh resolve).get? k
      = (t.get? k).or ((fresh.find? fun e => e.1 = k).map fun e => resolve e.2) := by
  induction fresh generalizing t with
  | nil => simp [introduce]
  | cons e es ih =>
    have hcons : introduce t (e :: es) resolve
        = introduce (t.insertNew e.1 (resolve e.2)) es resolve := rfl
    rw [hcons, ih, Table.get?_insertNew, Option.or_assoc]
    by_cases h : e.1 = k <;> simp [h]

/-! ### Kinds of symbols -/

/-- A strand of the composition: where the state has the symbols of a kind, how
a key is judged, which keys a layer lists and what it makes of a symbol. -/
structure SymbolKind (α : Type) [DecidableEq α] where
  table : SymbolTables → Table α α
  standing : SymbolTables → α → Standing α
  keys : Renaming → List α
  rename : Renaming → α → α
  table_empty : table {} = .empty
  table_applyLayer : ∀ s layer, table (applyLayer s layer)
    = introduce ((table s).mapValues (rename layer)) (freshKeys (standing s) (keys layer))
        (rename layer)
  /-- A new key is no symbol's present name. -/
  hasValue_of_fresh : ∀ {s key first}, standing s key = .fresh first →
    (table s).hasValue key = false
  /-- A first name is not in the state yet. -/
  get?_of_fresh : ∀ {s key first}, standing s key = .fresh first → (table s).get? first = none
  /-- A first name belongs to one key. -/
  eq_of_fresh : ∀ {s x y first}, standing s x = .fresh first → standing s y = .fresh first → x = y

namespace SymbolKind

variable {α : Type} [DecidableEq α]

/-- What a symbol becomes when the layers are read one after the other. -/
def through (K : SymbolKind α) (layers : List Renaming) (x : α) : α :=
  layers.foldl (fun current layer => K.rename layer current) x

variable (K : SymbolKind α)

theorem through_append (xs ys : List Renaming) (x : α) :
    K.through (xs ++ ys) x = K.through ys (K.through xs x) :=
  List.foldl_append

@[simp] theorem through_concat (xs : List Renaming) (layer : Renaming) (x : α) :
    K.through (xs ++ [layer]) x = K.rename layer (K.through xs x) :=
  List.foldl_append

/-- After a layer, the state has what it had, moved on, and the new keys. -/
theorem get?_applyLayer_eq_some_iff {s : SymbolTables} {layer : Renaming} {first v : α} :
    (K.table (applyLayer s layer)).get? first = some v ↔
      (∃ w, (K.table s).get? first = some w ∧ v = K.rename layer w) ∨
      ∃ key ∈ K.keys layer, K.standing s key = .fresh first ∧ v = K.rename layer key := by
  rw [K.table_applyLayer, get?_introduce, Table.get?_mapValues]
  rcases e : (K.table s).get? first with - | w
  · simp only [Option.map_none, Option.none_or, reduceCtorEq, false_and, exists_false, false_or,
      Option.map_eq_some_iff]
    constructor
    · rintro ⟨⟨f, key⟩, hfind, rfl⟩
      have hf : f = first := by simpa using List.find?_some hfind
      subst hf
      obtain ⟨hkey, hfresh⟩ := mem_freshKeys.1 (List.mem_of_find?_eq_some hfind)
      exact ⟨key, hkey, hfresh, rfl⟩
    · rintro ⟨key, hkey, hfresh, rfl⟩
      have hmem : (first, key) ∈ freshKeys (K.standing s) (K.keys layer) :=
        mem_freshKeys.2 ⟨hkey, hfresh⟩
      rcases hfind : (freshKeys (K.standing s) (K.keys layer)).find? fun e => e.1 = first
        with - | ⟨f, key'⟩
      · have hne : ¬ first = first := by simpa using List.find?_eq_none.1 hfind _ hmem
        exact absurd rfl hne
      · -- the first hit may be another occurrence, but it has the same key
        have hf : f = first := by simpa using List.find?_some hfind
        subst hf
        have hfresh' := (mem_freshKeys.1 (List.mem_of_find?_eq_some hfind)).2
        exact ⟨(f, key'), hfind, by rw [K.eq_of_fresh hfresh' hfresh]⟩
  · simp only [Option.map_some, Option.some_or, Option.some.injEq, exists_eq_left']
    refine ⟨fun h => ?_, ?_⟩
    · exact Or.inl h.symm
    · rintro (h | ⟨key, -, hfresh, -⟩)
      · exact h.symm
      · rw [K.get?_of_fresh hfresh] at e
        cases e

theorem get?_applyLayer_of_some {s : SymbolTables} {layer : Renaming} {first w : α}
    (h : (K.table s).get? first = some w) :
    (K.table (applyLayer s layer)).get? first = some (K.rename layer w) :=
  K.get?_applyLayer_eq_some_iff.2 (Or.inl ⟨w, h, rfl⟩)

/-- A symbol in the state is led through all layers that follow. -/
theorem get?_foldl_applyLayer {s : SymbolTables} {first w : α}
    (h : (K.table s).get? first = some w) (layers : List Renaming) :
    (K.table (layers.foldl applyLayer s)).get? first = some (K.through layers w) := by
  induction layers generalizing s w with
  | nil => exact h
  | cons layer rest ih => exact ih (K.get?_applyLayer_of_some h)

end SymbolKind

/-! ### Names and the class table of a state -/

/-- The present name of a class, given its first name. -/
def presentClass (s : SymbolTables) (c : ClassName) : ClassName := (s.classes.get? c).getD c

theorem hasValue_eq_false_of_keyOf? {s : SymbolTables} {c : ClassName}
    (h : s.classes.keyOf? c = none) : s.classes.hasValue c = false := by
  rw [Table.keyOf?, Option.map_eq_none_iff, List.find?_eq_none] at h
  simpa [Table.hasValue] using h

theorem firstClass_eq_self {s : SymbolTables} {c : ClassName}
    (h : s.classes.hasValue c = false) : firstClass s c = c := by
  rcases e : s.classes.keyOf? c with - | u
  · simp [firstClass, e]
  · have hv : s.classes.hasValue c = true :=
      Table.hasValue_iff.2 ⟨u, Table.get?_of_keyOf? e⟩
    rw [h] at hv
    cases hv

/-- A name that some class has leads back to such a class. -/
theorem get?_firstClass {s : SymbolTables} {c : ClassName} (h : s.classes.hasValue c = true) :
    s.classes.get? (firstClass s c) = some c := by
  rcases e : s.classes.keyOf? c with - | u
  · rw [hasValue_eq_false_of_keyOf? e] at h
    cases h
  · simpa [firstClass, e] using Table.get?_of_keyOf? e

theorem contains_eq_false_of_not_isLost {s : SymbolTables} {c : ClassName}
    (hl : isLost s c = false) (hv : s.classes.hasValue c = false) : s.classes.get? c = none := by
  simpa [isLost, hv, Table.contains] using hl

/-- Reading a name backwards is undone unless the name is lost. -/
theorem presentClass_firstClass {s : SymbolTables} {c : ClassName} (h : isLost s c = false) :
    presentClass s (firstClass s c) = c := by
  rcases hv : s.classes.hasValue c with - | -
  · simp [presentClass, firstClass_eq_self hv, contains_eq_false_of_not_isLost h hv]
  · simp [presentClass, get?_firstClass hv]

/-! ### Members -/

/-- What fields and methods have in common: a name, and classes that a renaming
of types reaches. -/
structure Member (α : Type) where
  withName : α → String → α
  classes : α → List ClassName
  mapClasses : (ClassName → ClassName) → α → α
  classes_mapClasses : ∀ f x, classes (mapClasses f x) = (classes x).map f
  mapClasses_mapClasses : ∀ f g x, mapClasses g (mapClasses f x) = mapClasses (g ∘ f) x
  mapClasses_id : ∀ x, mapClasses id x = x
  mapClasses_eq_iff : ∀ {f g x}, mapClasses f x = mapClasses g x ↔ ∀ c ∈ classes x, f c = g c
  classes_withName : ∀ x n, classes (withName x n) = classes x
  withName_mapClasses : ∀ f x n, withName (mapClasses f x) n = mapClasses f (withName x n)

namespace Member

variable {α : Type} (M : Member α)

/-- Whether two members differ in their names at most. -/
def SameTypes (x y : α) : Prop := M.withName x "" = M.withName y ""

theorem mapClasses_eq_self_iff {f : ClassName → ClassName} {x : α} :
    M.mapClasses f x = x ↔ ∀ c ∈ M.classes x, f c = c := by
  have h := M.mapClasses_eq_iff (f := f) (g := id) (x := x)
  rwa [M.mapClasses_id] at h

theorem sameTypes_mapClasses_iff {f g : ClassName → ClassName} {x : α} :
    M.SameTypes (M.mapClasses f x) (M.mapClasses g x) ↔ ∀ c ∈ M.classes x, f c = g c := by
  rw [SameTypes, M.withName_mapClasses, M.withName_mapClasses, M.mapClasses_eq_iff,
    M.classes_withName]

theorem sameTypes_mapClasses {x y : α} (h : M.SameTypes x y) (f : ClassName → ClassName) :
    M.SameTypes (M.mapClasses f x) (M.mapClasses f y) := by
  have h' : M.withName x "" = M.withName y "" := h
  rw [SameTypes, M.withName_mapClasses, M.withName_mapClasses, h']

variable [DecidableEq α]

/-- The standing of a member key, judged by the table of its kind. -/
def standing (t : Table α α) (s : SymbolTables) (key : α) : Standing α :=
  if t.hasValue key then .current
  else
    let first := M.mapClasses (firstClass s) key
    if (M.classes key).any (isLost s) || t.contains first then .stale
    else .fresh first

variable {M} {t : Table α α} {s : SymbolTables} {key first : α}

/-- A key is new when no symbol has it, no class in it is lost, and its first
name is not taken. -/
theorem standing_eq_fresh_iff :
    M.standing t s key = .fresh first ↔ t.hasValue key = false ∧
      (∀ c ∈ M.classes key, isLost s c = false) ∧ t.get? first = none ∧
      first = M.mapClasses (firstClass s) key := by
  rw [standing]
  split
  · rename_i hv
    simp [hv]
  · rename_i hv
    simp only [Bool.not_eq_true] at hv
    simp only [hv, true_and]
    split
    · rename_i hs
      rw [Bool.or_eq_true] at hs
      refine ⟨fun h => ?_, ?_⟩
      · cases h
      · rintro ⟨hc, hg, rfl⟩
        rcases hs with hs | hs
        · obtain ⟨c, hm, hl⟩ := List.any_eq_true.1 hs
          rw [hc c hm] at hl
          cases hl
        · simp [Table.contains, hg] at hs
    · rename_i hs
      simp only [Bool.or_eq_true, not_or, Bool.not_eq_true, List.any_eq_false, Table.contains,
        Option.isSome_eq_false_iff, Option.isNone_iff_eq_none] at hs
      simp only [Standing.fresh.injEq]
      constructor
      · rintro rfl
        exact ⟨hs.1, hs.2, rfl⟩
      · rintro ⟨-, -, rfl⟩
        rfl

theorem hasValue_of_fresh (h : M.standing t s key = .fresh first) : t.hasValue key = false :=
  (standing_eq_fresh_iff.1 h).1

theorem get?_of_fresh (h : M.standing t s key = .fresh first) : t.get? first = none :=
  (standing_eq_fresh_iff.1 h).2.2.1

/-- The first name of a new key leads to the key again. -/
theorem mapClasses_presentClass (h : M.standing t s key = .fresh first) :
    M.mapClasses (presentClass s) first = key := by
  obtain ⟨-, hlost, -, rfl⟩ := standing_eq_fresh_iff.1 h
  rw [M.mapClasses_mapClasses, M.mapClasses_eq_self_iff]
  intro c hc
  exact presentClass_firstClass (hlost c hc)

theorem eq_of_fresh {x y : α} (hx : M.standing t s x = .fresh first)
    (hy : M.standing t s y = .fresh first) : x = y :=
  (mapClasses_presentClass hx).symm.trans (mapClasses_presentClass hy)

end Member

/-- Methods as members. -/
def methodMember : Member MethodSymbol where
  withName := MethodSymbol.withName
  classes := MethodSymbol.classes
  mapClasses := MethodSymbol.mapClasses
  classes_mapClasses := MethodSymbol.classes_mapClasses
  mapClasses_mapClasses := MethodSymbol.mapClasses_mapClasses
  mapClasses_id x := by simp [MethodSymbol.mapClasses]
  mapClasses_eq_iff := MethodSymbol.mapClasses_eq_mapClasses_iff
  classes_withName _ _ := rfl
  withName_mapClasses _ _ _ := rfl

/-- Fields as members. -/
def fieldMember : Member FieldSymbol where
  withName := FieldSymbol.withName
  classes := FieldSymbol.classes
  mapClasses := FieldSymbol.mapClasses
  classes_mapClasses := FieldSymbol.classes_mapClasses
  mapClasses_mapClasses := FieldSymbol.mapClasses_mapClasses
  mapClasses_id _ := rfl
  mapClasses_eq_iff := FieldSymbol.mapClasses_eq_mapClasses_iff
  classes_withName _ _ := rfl
  withName_mapClasses _ _ _ := rfl

/-! ### The three kinds -/

/-- A kind of members: what all kinds have, with the way in which a member key
is judged and the final tables treat it. -/
structure MemberKind (α : Type) [DecidableEq α] extends SymbolKind α, Member α where
  standing_eq : ∀ s key, standing s key = toMember.standing (table s) s key
  table_close : ∀ layers s, table (close layers s) = (table s).dropFixed
  /-- A class inside a member is followed, unless the state has it as a class. -/
  mem_referencedClasses : ∀ {s x c}, x ∈ (table s).keys → c ∈ classes x →
    s.classes.get? c = none → c ∈ referencedClasses s
  keys_contract : ∀ t : SymbolTables, keys t.contract = (table t).keys
  rename_contract : ∀ (t : SymbolTables) (x : α), rename t.contract x
    = ((table t).get? x).getD (mapClasses t.contract.renameClass x)

theorem mem_referencedClasses_iff {s : SymbolTables} {c : ClassName} :
    c ∈ referencedClasses s ↔ s.classes.get? c = none ∧
      ((∃ x ∈ s.methods.keys, c ∈ x.classes) ∨ ∃ x ∈ s.fields.keys, c ∈ x.classes) := by
  simp only [referencedClasses, List.mem_filter, List.mem_append, List.mem_flatMap,
    Table.contains, Bool.not_eq_true', Option.isSome_eq_false_iff, Option.isNone_iff_eq_none]
  exact And.comm

theorem classStanding_eq_fresh_iff {s : SymbolTables} {key first : ClassName} :
    classStanding s key = .fresh first ↔
      s.classes.hasValue key = false ∧ s.classes.get? first = none ∧ first = key := by
  rw [classStanding]
  split
  · rename_i hv
    simp [hv]
  · rename_i hv
    simp only [Bool.not_eq_true] at hv
    simp only [hv, true_and]
    split
    · rename_i hc
      rw [Table.contains] at hc
      refine ⟨fun h => ?_, ?_⟩
      · cases h
      · rintro ⟨hg, rfl⟩
        simp [hg] at hc
    · rename_i hc
      simp only [Table.contains, Bool.not_eq_true, Option.isSome_eq_false_iff,
        Option.isNone_iff_eq_none] at hc
      simp only [Standing.fresh.injEq]
      constructor
      · rintro rfl
        exact ⟨hc, rfl⟩
      · rintro ⟨-, rfl⟩
        rfl

/-- The strand of the classes. -/
def classKind : SymbolKind ClassName where
  table := SymbolTables.classes
  standing := classStanding
  keys := Renaming.classes
  rename := Renaming.renameClass
  table_empty := rfl
  table_applyLayer _ _ := rfl
  hasValue_of_fresh h := (classStanding_eq_fresh_iff.1 h).1
  get?_of_fresh h := (classStanding_eq_fresh_iff.1 h).2.1
  eq_of_fresh hx hy :=
    (classStanding_eq_fresh_iff.1 hx).2.2.symm.trans (classStanding_eq_fresh_iff.1 hy).2.2

/-- The strand of the methods. -/
def methodKind : MemberKind MethodSymbol where
  table := SymbolTables.methods
  standing := methodStanding
  keys := Renaming.methods
  rename := Renaming.renameMethod
  table_empty := rfl
  table_applyLayer _ _ := rfl
  hasValue_of_fresh := Member.hasValue_of_fresh (M := methodMember)
  get?_of_fresh := Member.get?_of_fresh (M := methodMember)
  eq_of_fresh := Member.eq_of_fresh (M := methodMember)
  toMember := methodMember
  standing_eq _ _ := rfl
  table_close _ _ := rfl
  mem_referencedClasses hx hc hn :=
    mem_referencedClasses_iff.2 ⟨hn, Or.inl ⟨_, hx, hc⟩⟩
  keys_contract _ := rfl
  rename_contract _ _ := rfl

/-- The strand of the fields. -/
def fieldKind : MemberKind FieldSymbol where
  table := SymbolTables.fields
  standing := fieldStanding
  keys := Renaming.fields
  rename := Renaming.renameField
  table_empty := rfl
  table_applyLayer _ _ := rfl
  hasValue_of_fresh := Member.hasValue_of_fresh (M := fieldMember)
  get?_of_fresh := Member.get?_of_fresh (M := fieldMember)
  eq_of_fresh := Member.eq_of_fresh (M := fieldMember)
  toMember := fieldMember
  standing_eq _ _ := rfl
  table_close _ _ := rfl
  mem_referencedClasses hx hc hn :=
    mem_referencedClasses_iff.2 ⟨hn, Or.inr ⟨_, hx, hc⟩⟩
  keys_contract _ := rfl
  rename_contract _ _ := rfl

end Composition

end SymbolRenaming
