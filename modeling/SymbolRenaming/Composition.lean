/-
SymbolRenaming/Composition.lean

Composition: one frozen mapping that does what a list of layers does one after
the other.

Design.  Every layer is written in the names that the layers before it produce,
and the result is written in the names that the first layer reads.  The state
between two layers says, for each symbol met so far, which name it started with
and which name it has now.  A key of the next layer then has one of three
standings:

* it is the current name of a symbol in the state, which the layer moves on;
* it is stale: the name it uses is one that an earlier layer took away;
* it is new, and enters the state under its first name, found by reading the
  class table of the state backwards.

After the last layer, classes that only occur inside members are followed
through all layers as well, and entries that end where they started are
dropped.

Main result: `value_runLayers` (the run is a fold over the layers, whatever is
reported on the way).
-/
import SymbolRenaming.Mappings

namespace SymbolRenaming

/-! ### Reading a table backwards -/

namespace Table

variable {α : Type} [DecidableEq α]

/-- The first key with a given value. -/
def keyOf? (t : Table α α) (v : α) : Option α := (t.entries.find? fun e => e.2 = v).map Prod.fst

/-- Whether some key has a given value. -/
def hasValue (t : Table α α) (v : α) : Bool := t.entries.any fun e => e.2 = v

/-- Drops the keys that have themselves as value. -/
def dropFixed (t : Table α α) : Table α α := t.filter fun e => e.1 ≠ e.2

theorem hasValue_iff {t : Table α α} {v : α} : t.hasValue v = true ↔ ∃ k, t.get? k = some v := by
  simp only [hasValue, List.any_eq_true, decide_eq_true_eq, get?_eq_some_iff]
  constructor
  · rintro ⟨e, he, rfl⟩
    exact ⟨e.1, he⟩
  · rintro ⟨k, hk⟩
    exact ⟨(k, v), hk, rfl⟩

theorem get?_of_keyOf? {t : Table α α} {k v : α} (h : t.keyOf? v = some k) :
    t.get? k = some v := by
  obtain ⟨e, he, rfl⟩ := Option.map_eq_some_iff.1 h
  have hv := List.find?_some he
  simp only [decide_eq_true_eq] at hv
  exact get?_eq_some_iff.2 (hv ▸ List.mem_of_find?_eq_some he)

theorem get?_dropFixed (t : Table α α) (k : α) :
    t.dropFixed.get? k = (t.get? k).filter fun v => k ≠ v := by
  simp [dropFixed, get?_filter]

end Table

namespace Composition

/-! ### Standings -/

/-- How a key of the next layer relates to the symbols met so far. -/
inductive Standing (α : Type) where
  /-- The key is the present name of a symbol. -/
  | current
  /-- The key uses a name that no symbol has any more. -/
  | stale
  /-- The key is new; `first` is its name before all layers. -/
  | fresh (first : α)
  deriving DecidableEq, Repr

/-- The first name of a class, given its present name. -/
def firstClass (s : SymbolTables) (c : ClassName) : ClassName := (s.classes.keyOf? c).getD c

/-- Whether a class started out with this name, and no class has it now. -/
def isLost (s : SymbolTables) (c : ClassName) : Bool :=
  !s.classes.hasValue c && s.classes.contains c

/-- The standing of a class key. -/
def classStanding (s : SymbolTables) (key : ClassName) : Standing ClassName :=
  if s.classes.hasValue key then .current
  else if s.classes.contains key then .stale
  else .fresh key

/-- The standing of a method key. -/
def methodStanding (s : SymbolTables) (key : MethodSymbol) : Standing MethodSymbol :=
  if s.methods.hasValue key then .current
  else
    let first := key.mapClasses (firstClass s)
    if key.classes.any (isLost s) || s.methods.contains first then .stale
    else .fresh first

/-- The standing of a field key. -/
def fieldStanding (s : SymbolTables) (key : FieldSymbol) : Standing FieldSymbol :=
  if s.fields.hasValue key then .current
  else
    let first := key.mapClasses (firstClass s)
    if key.classes.any (isLost s) || s.fields.contains first then .stale
    else .fresh first

/-- The new keys among `keys`, each behind its first name. -/
def freshKeys {α : Type} (standing : α → Standing α) (keys : List α) : List (α × α) :=
  keys.filterMap fun key =>
    match standing key with
    | .fresh first => some (first, key)
    | _ => none

/-- The stale keys among `keys`. -/
def staleKeys {α : Type} (standing : α → Standing α) (keys : List α) : List α :=
  keys.filter fun key =>
    match standing key with
    | .stale => true
    | _ => false

/-! ### One layer -/

/-- Moves every symbol in the state on to the name that the layer gives it. -/
def advance (s : SymbolTables) (layer : Renaming) : SymbolTables where
  classes := s.classes.mapValues layer.renameClass
  methods := s.methods.mapValues layer.renameMethod
  fields := s.fields.mapValues layer.renameField

/-- Adds new symbols with the names that the layer gives their keys. -/
def introduce {α : Type} [DecidableEq α] (t : Table α α) (fresh : List (α × α))
    (resolve : α → α) : Table α α :=
  fresh.foldl (fun t e => t.insertNew e.1 (resolve e.2)) t

/-- The state after a layer: known symbols move on, and new ones enter. -/
def applyLayer (s : SymbolTables) (layer : Renaming) : SymbolTables :=
  -- standings are judged in the state before the layer
  let moved := advance s layer
  { classes := introduce moved.classes (freshKeys (classStanding s) layer.classes)
      layer.renameClass
    methods := introduce moved.methods (freshKeys (methodStanding s) layer.methods)
      layer.renameMethod
    fields := introduce moved.fields (freshKeys (fieldStanding s) layer.fields)
      layer.renameField }

/-- What is told while a layer is applied: each stale key, then the numbers of
new symbols. -/
def layerNotices (index : Nat) (s : SymbolTables) (layer : Renaming) : List Notice :=
  ((staleKeys (classStanding s) layer.classes).map fun c => .layerEntrySkipped index c.text)
  ++ ((staleKeys (methodStanding s) layer.methods).map fun x => .layerEntrySkipped index x.text)
  ++ ((staleKeys (fieldStanding s) layer.fields).map fun x =>
    .layerEntrySkipped index x.internalName)
  ++ [.layerApplied index (freshKeys (classStanding s) layer.classes).length
    (freshKeys (methodStanding s) layer.methods).length
    (freshKeys (fieldStanding s) layer.fields).length]

/-! ### All layers -/

/-- A layer with what its first reader is told. -/
structure Layer where
  contract : Renaming
  openingNotices : List Notice := []

/-- Mappings of any kind as a layer. -/
def Layer.ofMappings (m : Mappings) : Layer := ⟨m.contract, m.openingNotices⟩

/-- Applies the layers in order; `index` is the place of the first of them. -/
def runLayers (index : Nat) (s : SymbolTables) : List Layer → Noted SymbolTables
  | [] => ⟨s, []⟩
  | layer :: rest =>
    let after := runLayers (index + 1) (applyLayer s layer.contract) rest
    ⟨after.value,
      layer.openingNotices ++ layerNotices index s layer.contract ++ after.notices⟩

/-- What a class becomes when the layers are read one after the other. -/
def renameClassThrough (layers : List Renaming) (c : ClassName) : ClassName :=
  layers.foldl (fun current layer => layer.renameClass current) c

/-- What a method becomes when the layers are read one after the other. -/
def renameMethodThrough (layers : List Renaming) (x : MethodSymbol) : MethodSymbol :=
  layers.foldl (fun current layer => layer.renameMethod current) x

/-- What a field becomes when the layers are read one after the other. -/
def renameFieldThrough (layers : List Renaming) (x : FieldSymbol) : FieldSymbol :=
  layers.foldl (fun current layer => layer.renameField current) x

/-- The classes inside the first names of members that are not in the state. -/
def referencedClasses (s : SymbolTables) : List ClassName :=
  (s.methods.keys.flatMap MethodSymbol.classes ++ s.fields.keys.flatMap FieldSymbol.classes).filter
    fun c => !s.classes.contains c

/-- The final tables: referenced classes are followed through all layers, and
symbols that end where they started are dropped. -/
def close (layers : List Renaming) (s : SymbolTables) : SymbolTables where
  classes := ((referencedClasses s).foldl
    (fun t c => t.insertNew c (renameClassThrough layers c)) s.classes).dropFixed
  methods := s.methods.dropFixed
  fields := s.fields.dropFixed

/-- Composes layers into one frozen mapping. -/
def compose (layers : List Layer) : Noted (Except RenamingError Frozen) :=
  -- all layers run before any consistency is judged
  let run := runLayers 0 {} layers
  let final := close (layers.map Layer.contract) run.value
  ⟨Frozen.ofPairs final.classes.entries final.methods.entries final.fields.entries,
    run.notices ++ [.layersComposed layers.length final.classes.size final.methods.size
      final.fields.size]⟩

/-! ### Small facts -/

theorem value_runLayers (index : Nat) (s : SymbolTables) (layers : List Layer) :
    (runLayers index s layers).value = (layers.map Layer.contract).foldl applyLayer s := by
  induction layers generalizing index s with
  | nil => rfl
  | cons layer rest ih => exact ih (index + 1) (applyLayer s layer.contract)

theorem value_compose (layers : List Layer) :
    (compose layers).value
      = let final := close (layers.map Layer.contract)
          ((layers.map Layer.contract).foldl applyLayer {})
        Frozen.ofPairs final.classes.entries final.methods.entries final.fields.entries := by
  simp only [compose, value_runLayers]

end Composition

end SymbolRenaming
