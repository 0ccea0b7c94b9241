/-
SymbolRenaming/Proofs/Program/Planning.lean

What a command comes to, said without a run.

Design.  A plan is made by a computation that reads files one after the other, stops
at the first failure and gives notices on the way.  Here the notices are left aside
(`Task.value`), and each part of the computation is turned into what it says about
the files: which bytes a path has, as which mappings they are read, which layers a
request asks for.  A list of files is read with success exactly if each of them is
(`Task.value_mapM_eq_ok_iff`), so no order of reading is left in these relations.

At the end stands one relation with a constructor for each command
(`Command.ComesTo`), and a plan is made exactly if it relates the command and the
plan.  It mentions nothing but the reader of files that planning is given: all of
them are read before anything is done.

Main result: `value_plan_eq_ok_iff`.
-/
import Mathlib.Data.List.Forall2
import SymbolRenaming.Plan
import SymbolRenaming.Proofs.Format.Reading

namespace SymbolRenaming

open SymbolRenaming.Composition

/-! ### Results of tasks -/

instance : LawfulMonad Noted := by
  refine LawfulMonad.mk' Noted ?_ ?_ ?_
  · intro α x
    show Noted.mk x.value (x.notices ++ []) = x
    rw [List.append_nil]
  · intro α β a f
    rfl
  · intro α β γ x f g
    show Noted.mk _ (x.notices ++ _ ++ _) = Noted.mk _ (x.notices ++ (_ ++ _))
    rw [List.append_assoc]
    rfl

namespace Task

variable {α β ε : Type}

/-- What a task comes to, without its notices. -/
def value (x : Task α) : Except Failure α := x.run.value

theorem value_pure (a : α) : value (pure a) = .ok a := rfl

theorem value_note (n : Notice) : value (note n) = .ok () := rfl

theorem value_throw (f : Failure) : value (throw f : Task α) = .error f := rfl

theorem value_bind (x : Task α) (f : α → Task β) :
    value (x >>= f) = value x >>= fun a => value (f a) := by
  show (ExceptT.bindCont f x.run.value).value = x.run.value >>= fun a => (f a).run.value
  rcases x.run.value with err | a
  · rfl
  · rfl

theorem value_bind_eq_ok_iff {x : Task α} {f : α → Task β} {b : β} :
    value (x >>= f) = .ok b ↔ ∃ a, value x = .ok a ∧ value (f a) = .ok b := by
  rw [value_bind, bind_eq_ok_iff]

theorem value_map_eq_ok_iff {f : α → β} {x : Task α} {b : β} :
    value (f <$> x) = .ok b ↔ ∃ a, value x = .ok a ∧ f a = b := by
  rw [← bind_pure_comp, value_bind_eq_ok_iff]
  simp only [value_pure, Except.ok.injEq]

theorem value_ofExcept_eq_ok_iff {fail : ε → Failure} {x : Except ε α} {a : α} :
    value (ofExcept fail x) = .ok a ↔ x = .ok a :=
  mapError_eq_ok_iff

theorem value_ofNoted_eq_ok_iff {fail : ε → Failure} {x : Noted (Except ε α)} {a : α} :
    value (ofNoted fail x) = .ok a ↔ x.value = .ok a :=
  mapError_eq_ok_iff

/-- A list of tasks succeeds exactly if each of them does. -/
theorem value_mapM_eq_ok_iff {f : α → Task β} {xs : List α} {ys : List β} :
    value (xs.mapM f) = .ok ys ↔ List.Forall₂ (fun x y => value (f x) = .ok y) xs ys := by
  induction xs generalizing ys with
  | nil =>
    rw [List.mapM_nil, value_pure, List.forall₂_nil_left_iff, Except.ok.injEq, eq_comm]
  | cons x xs ih =>
    simp only [List.mapM_cons, value_bind_eq_ok_iff, value_pure, Except.ok.injEq, ih,
      List.forall₂_cons_left_iff]
    constructor
    · rintro ⟨y, hy, ys, hys, rfl⟩
      exact ⟨y, ys, hy, hys, rfl⟩
    · rintro ⟨y, ys, hy, hys, rfl⟩
      exact ⟨y, hy, ys, hys, rfl⟩

end Task

/-! ### Reading mappings -/

section Reading

variable (read : FileReader)

/-- The bytes at a path are mappings in a format: in the one that is set, or in the
one that the path names. -/
def ReadsAs (path : String) (format : Option Format) (m : Frozen) : Prop :=
  ∃ f bytes, (format <|> Format.ofExtension? path) = some f ∧ read path = .ok bytes ∧
    (f.parseBytes bytes).value = .ok m

variable {read}

theorem value_readMappings_eq_ok_iff {path : String} {f : Format} {m : Frozen} :
    Task.value (readMappings read path f) = .ok m ↔
      ∃ bytes, read path = .ok bytes ∧ (f.parseBytes bytes).value = .ok m := by
  simp only [readMappings, Task.value_bind_eq_ok_iff, Task.value_ofExcept_eq_ok_iff,
    Task.value_ofNoted_eq_ok_iff, Task.value_note, Task.value_pure, Except.ok.injEq]
  constructor
  · rintro ⟨bytes, hread, m', hparse, -, -, rfl⟩
    exact ⟨bytes, hread, hparse⟩
  · rintro ⟨bytes, hread, hparse⟩
    exact ⟨bytes, hread, m, hparse, (), trivial, rfl⟩

theorem value_readInput_eq_ok_iff {input : Input} {m : Frozen} :
    Task.value (readInput read input) = .ok m ↔ ReadsAs read input.path input.format m := by
  rw [readInput, ReadsAs]
  rcases input.format <|> Format.ofExtension? input.path with - | f
  · simp [Task.value_throw]
  · simp [value_readMappings_eq_ok_iff]

end Reading

/-! ### Reading layers -/

section Layers

/-- What a layer of a chain file stands for. -/
inductive ChainLayer.ReadsAs (read : FileReader) : ChainLayer → Layer → Prop
  | file {path : String} {format : Option Format} {m : Frozen} (invert : Bool)
      (h : SymbolRenaming.ReadsAs read path format m) :
      ReadsAs read (.file path format invert) (fileLayer (if invert then m.invert else m))
  | packages (pairs : List (String × String)) :
      ReadsAs read (.packages pairs) ⟨(Rules.packages pairs).contract, []⟩

/-- The layer of the package rules of a request, if it has any. -/
def packageLayers (pairs : List (String × String)) : List Layer :=
  if pairs.isEmpty then [] else [⟨(Rules.packages pairs).contract, []⟩]

/-- The layers that a request asks for: those of its chain file, then its files, then
its package rules. -/
structure ChainRequest.HasLayers (read : FileReader) (c : ChainFile) (r : ChainRequest)
    (configured given : List Layer) : Prop where
  ofChainFile : List.Forall₂ (ChainLayer.ReadsAs read) c.layers configured
  ofFiles : List.Forall₂
    (fun path layer => ∃ m, ReadsAs read path r.inputFormat m ∧ fileLayer m = layer) r.files given

variable {read : FileReader}

theorem fileLayerFormat_eq_ok_iff {path : String} {format : Option Format} {f : Format} :
    fileLayerFormat path format = .ok f ↔ (format <|> Format.ofExtension? path) = some f := by
  rw [fileLayerFormat]
  rcases format <|> Format.ofExtension? path with - | g
  · simp
  · simp

theorem value_packageLayer (pairs : List (String × String)) :
    Task.value (packageLayer pairs) = .ok ⟨(Rules.packages pairs).contract, []⟩ := rfl

theorem value_readLayer_eq_ok_iff {l : ChainLayer} {layer : Layer} :
    Task.value (readLayer read l) = .ok layer ↔ l.ReadsAs read layer := by
  cases l with
  | file path format invert =>
    simp only [readLayer, Task.value_bind_eq_ok_iff, Task.value_ofExcept_eq_ok_iff,
      fileLayerFormat_eq_ok_iff, value_readMappings_eq_ok_iff, Task.value_pure, Except.ok.injEq]
    constructor
    · rintro ⟨f, hf, m, ⟨bytes, hread, hparse⟩, rfl⟩
      exact .file invert ⟨f, bytes, hf, hread, hparse⟩
    · rintro ⟨-, f, bytes, hf, hread, hparse⟩
      exact ⟨f, hf, _, ⟨bytes, hread, hparse⟩, rfl⟩
  | packages pairs =>
    rw [readLayer, value_packageLayer, Except.ok.injEq]
    constructor
    · rintro rfl
      exact .packages pairs
    · rintro ⟨⟩
      rfl

theorem value_requestedLayers_eq_ok_iff {c : ChainFile} {r : ChainRequest} {layers : List Layer} :
    Task.value (requestedLayers read c r) = .ok layers ↔
      ∃ configured given, r.HasLayers read c configured given ∧
        layers = configured ++ given ++ packageLayers r.packages := by
  have hmoved : ∀ front : List Layer,
      Task.value (if r.packages.isEmpty then do
          let moved ← pure []
          pure (front ++ moved)
        else do
          let moved ← List.singleton <$> packageLayer r.packages
          pure (front ++ moved)) = .ok (front ++ packageLayers r.packages) := by
    intro front
    rw [packageLayers]
    split
    · rfl
    · rfl
  simp only [requestedLayers, Task.value_bind_eq_ok_iff, Task.value_mapM_eq_ok_iff,
    value_readLayer_eq_ok_iff, Task.value_map_eq_ok_iff, value_readInput_eq_ok_iff, hmoved,
    Except.ok.injEq]
  constructor
  · rintro ⟨configured, hc, given, hg, rfl⟩
    exact ⟨configured, given, ⟨hc, hg⟩, rfl⟩
  · rintro ⟨configured, given, ⟨hc, hg⟩, rfl⟩
    exact ⟨configured, hc, given, hg, rfl⟩

end Layers

/-! ### Reading chain files -/

section ChainFiles

/-- A chain file at a path; its relative paths are taken to be below its directory. -/
def ChainFile.placed (c : ChainFile) (path : String) : ChainFile :=
  match FilePath.parent? path with
  | some base => c.below base
  | none => c

/-- The chain file of a request; a request without one has no layers and no settings
from there. -/
inductive ChainRequest.HasChainFile (read : FileReader) (r : ChainRequest) : ChainFile → Prop
  | absent (h : r.chainFile = none) : HasChainFile read r {}
  | read {path text : String} {bytes : List UInt8} {c : ChainFile}
      (hpath : r.chainFile = some path) (hread : read path = .ok bytes)
      (htext : decodeText bytes = .ok text) (hparse : ChainFile.parse text = .ok c) :
      HasChainFile read r (c.placed path)

variable {read : FileReader}

theorem value_readChainFile_eq_ok_iff {path : String} {c : ChainFile} :
    Task.value (readChainFile read path) = .ok c ↔
      ∃ bytes text parsed, read path = .ok bytes ∧ decodeText bytes = .ok text ∧
        ChainFile.parse text = .ok parsed ∧ parsed.placed path = c := by
  simp only [readChainFile, Task.value_bind_eq_ok_iff, Task.value_ofExcept_eq_ok_iff,
    Task.value_note, Task.value_pure, Except.ok.injEq]
  constructor
  · rintro ⟨bytes, hread, text, htext, parsed, hparse, -, -, hplaced⟩
    exact ⟨bytes, text, parsed, hread, htext, hparse, hplaced⟩
  · rintro ⟨bytes, text, parsed, hread, htext, hparse, hplaced⟩
    exact ⟨bytes, hread, text, htext, parsed, hparse, (), trivial, hplaced⟩

theorem value_requestedChainFile_eq_ok_iff {r : ChainRequest} {c : ChainFile} :
    Task.value (requestedChainFile read r) = .ok c ↔ r.HasChainFile read c := by
  rw [requestedChainFile]
  split
  · rename_i path hpath
    rw [value_readChainFile_eq_ok_iff]
    constructor
    · rintro ⟨bytes, text, parsed, hread, htext, hparse, rfl⟩
      exact .read hpath hread htext hparse
    · intro h
      cases h with
      | absent hnone =>
        rw [hpath] at hnone
        cases hnone
      | read hpath' hread htext hparse =>
        obtain rfl := Option.some.inj (hpath.symm.trans hpath')
        exact ⟨_, _, _, hread, htext, hparse, rfl⟩
  · rename_i hnone
    rw [Task.value_pure, Except.ok.injEq]
    constructor
    · rintro rfl
      exact .absent hnone
    · intro h
      cases h with
      | absent _ => rfl
      | read hpath _ _ _ =>
        rw [hnone] at hpath
        cases hpath

end ChainFiles

/-! ### Plans -/

/-- What a command comes to, given what its files hold. -/
inductive Command.ComesTo (read : FileReader) : Command → Plan → Prop
  | chain {r : ChainRequest} {c : ChainFile} {configured given : List Layer} {result : Frozen}
      (hchainFile : r.HasChainFile read c) (hlayers : r.HasLayers read c configured given)
      (hne : configured ++ given ++ packageLayers r.packages ≠ [])
      (hcompose : (compose (configured ++ given ++ packageLayers r.packages)).value
        = .ok result) :
      ComesTo read (.chain r) (.deliver result (r.output.orElse c.output))
  | invert {input : Input} {m : Frozen} (output : Destination)
      (hinput : ReadsAs read input.path input.format m) :
      ComesTo read (.invert input output) (.deliver m.invert output)
  | convert {input : Input} {m : Frozen} (target : Format) (output : Option String)
      (hinput : ReadsAs read input.path input.format m) :
      ComesTo read (.convert input target output) (.deliver m ⟨output, some target⟩)
  | lookup {input : Input} {m : Frozen} {symbol : Symbol} {found : Finding} (asData : Bool)
      (hinput : ReadsAs read input.path input.format m)
      (hfind : symbol.find m.contract = .ok found) :
      ComesTo read (.lookup input symbol asData) (.print (found.text asData) 0)
  | check {input : Input} {m : Frozen} (asData : Bool)
      (hinput : ReadsAs read input.path input.format m) :
      ComesTo read (.check input asData)
        (.print ((CheckResult.of m.contract).text asData) (CheckResult.of m.contract).exitCode)

variable {read : FileReader}

theorem value_composeLayers_eq_ok_iff {layers : List Layer} {result : Frozen} :
    Task.value (composeLayers layers) = .ok result ↔
      layers ≠ [] ∧ (compose layers).value = .ok result := by
  rw [composeLayers]
  rcases layers with - | ⟨layer, rest⟩
  · simp [Task.value_throw]
  · simp [Task.value_ofNoted_eq_ok_iff]

theorem ChainRequest.value_plan_eq_ok_iff {r : ChainRequest} {p : Plan} :
    Task.value (r.plan read) = .ok p ↔ (Command.chain r).ComesTo read p := by
  simp only [ChainRequest.plan, Task.value_bind_eq_ok_iff, value_requestedChainFile_eq_ok_iff,
    value_requestedLayers_eq_ok_iff, value_composeLayers_eq_ok_iff, Task.value_pure,
    Except.ok.injEq]
  constructor
  · rintro ⟨c, hchainFile, layers, ⟨configured, given, hlayers, rfl⟩, result, ⟨hne, hcompose⟩,
      rfl⟩
    exact .chain hchainFile hlayers hne hcompose
  · rintro ⟨hchainFile, hlayers, hne, hcompose⟩
    exact ⟨_, hchainFile, _, ⟨_, _, hlayers, rfl⟩, _, ⟨hne, hcompose⟩, rfl⟩

/-- A command is planned with success exactly if it comes to the plan. -/
theorem Command.value_plan_eq_ok_iff {command : Command} {p : Plan} :
    Task.value (command.plan read) = .ok p ↔ command.ComesTo read p := by
  cases command with
  | chain r => exact r.value_plan_eq_ok_iff
  | invert input output =>
    simp only [plan, Task.value_bind_eq_ok_iff, value_readInput_eq_ok_iff, Task.value_pure,
      Except.ok.injEq]
    constructor
    · rintro ⟨m, hinput, rfl⟩
      exact .invert output hinput
    · intro h
      cases h with
      | invert _ hinput => exact ⟨_, hinput, rfl⟩
  | convert input target output =>
    simp only [plan, Task.value_bind_eq_ok_iff, value_readInput_eq_ok_iff, Task.value_pure,
      Except.ok.injEq]
    constructor
    · rintro ⟨m, hinput, rfl⟩
      exact .convert target output hinput
    · intro h
      cases h with
      | convert _ _ hinput => exact ⟨_, hinput, rfl⟩
  | lookup input symbol asData =>
    simp only [plan, Task.value_bind_eq_ok_iff, value_readInput_eq_ok_iff,
      Task.value_ofExcept_eq_ok_iff, Task.value_pure, Except.ok.injEq]
    constructor
    · rintro ⟨m, hinput, found, hfind, rfl⟩
      exact .lookup asData hinput hfind
    · intro h
      cases h with
      | lookup _ hinput hfind => exact ⟨_, hinput, _, hfind, rfl⟩
  | check input asData =>
    simp only [plan, Task.value_bind_eq_ok_iff, value_readInput_eq_ok_iff, Task.value_pure,
      Except.ok.injEq]
    constructor
    · rintro ⟨m, hinput, rfl⟩
      exact .check asData hinput
    · intro h
      cases h with
      | check _ hinput => exact ⟨_, hinput, rfl⟩

end SymbolRenaming
