/-
SymbolRenaming/Proofs/Program/ChainRequest.lean

Two ways to ask for a composition: by a chain file, or by files and options.

Design.  A request for a chain file and a request for files, package pairs and a
destination are planned by different readers.  They come to the same plans if the
chain file lists the same files and pairs and has the same destination
(`comesTo_chainFile_iff`, `comesTo_files_iff`), and the same plan has the same
effects (`run_agrees`).  So the rest is about the two command lines: which request
their arguments are read as (`Asks.ofArguments_eq`, `ofArguments_chainFile`), and when
they are refused.  That is for an empty path only, and with such a path the chain file
fails as well (`run_chainFile_of_empty`).

Main result: `runArguments_chainFile_agrees`.
-/
import SymbolRenaming.Outcome
import SymbolRenaming.Proofs.Program.Arguments
import SymbolRenaming.Proofs.Program.PackagePairs
import SymbolRenaming.Proofs.Program.Planning

namespace SymbolRenaming

-- the full name, since `Composition` alone is also a name of Mathlib
open Arguments SymbolRenaming.Composition

/-! ### Effects -/

/-- Two outcomes with the same exit code, the same output and the same files. -/
structure Outcome.Agrees (o o' : Outcome) : Prop where
  exitCode : o.exitCode = o'.exitCode
  output : o.output = o'.output
  files : o.files = o'.files

section Effects

variable {i j : Invocation} {files : FileMap}

theorem Plan.agrees_carryOut (p : Plan) (files : FileMap) (notices notices' : List Notice) :
    (p.carryOut files notices).Agrees (p.carryOut files notices') := by
  cases p with
  | print text exitCode => exact ⟨rfl, rfl, rfl⟩
  | deliver m output =>
    rw [carryOut, carryOut]
    split
    · exact ⟨rfl, rfl, rfl⟩
    · split
      · exact ⟨rfl, rfl, rfl⟩
      · exact ⟨rfl, rfl, rfl⟩

/-- Commands that come to the same plans have the same effects. -/
theorem run_agrees
    (h : ∀ p, i.command.ComesTo files.read p ↔ j.command.ComesTo files.read p) :
    (i.run files).Agrees (j.run files) := by
  rcases hi : (i.command.plan files.read).run.value with f | p
  · rcases hj : (j.command.plan files.read).run.value with f' | p
    · obtain ⟨hfiles, hcode, houtput⟩ := run_of_failure hi
      obtain ⟨hfiles', hcode', houtput'⟩ := run_of_failure hj
      exact ⟨hcode.trans hcode'.symm, houtput.trans houtput'.symm, hfiles.trans hfiles'.symm⟩
    · have hcomes := Command.value_plan_eq_ok_iff.2 ((h p).2 (Command.value_plan_eq_ok_iff.1 hj))
      rw [Task.value, hi] at hcomes
      cases hcomes
  · have hj : (j.command.plan files.read).run.value = .ok p :=
      Command.value_plan_eq_ok_iff.2 ((h p).1 (Command.value_plan_eq_ok_iff.1 hi))
    simp only [Invocation.run, hi, hj]
    exact p.agrees_carryOut files _ _

/-- A command whose plans cannot be carried out has the effects of a usage error. -/
theorem run_agrees_ofUsage (h : ∀ p, i.command.ComesTo files.read p →
      ∀ notices, (p.carryOut files notices).Agrees (.ofUsage files .error)) :
    (i.run files).Agrees (.ofUsage files .error) := by
  rcases hi : (i.command.plan files.read).run.value with f | p
  · obtain ⟨hfiles, hcode, houtput⟩ := run_of_failure hi
    exact ⟨hcode, houtput, hfiles⟩
  · simp only [Invocation.run, hi]
    exact h p (Command.value_plan_eq_ok_iff.1 hi) _

end Effects

/-! ### Requests -/

/-- The layers of a chain file that lists files, as they are, and then package pairs,
if there are any. -/
def listedLayers (paths : List String) (pairs : List (String × String)) : List ChainLayer :=
  paths.map (.file · none false) ++ if pairs.isEmpty then [] else [.packages pairs]

section Requests

variable {read : FileReader} {p : Plan}

/-- A path without slashes is that of something in the working directory, or of the
working directory itself. -/
theorem FilePath.parent?_of_not_mem {name : String} (h : '/' ∉ name.toList) :
    parent? name = some "" ∨ parent? name = none := by
  have hhead : headLength name.toList = 0 ∨ name.toList = ['.'] := by
    unfold headLength
    split
    · rename_i e
      rw [e] at h
      simp at h
    · rename_i e
      exact Or.inr e
    · rename_i e
      rw [e] at h
      simp at h
    · exact Or.inl rfl
  rcases hhead with hhead | hdot
  · have hpieces : Text.pieces (· == '/') name.toList = [name.toList] := by
      refine Text.pieces_eq_singleton fun c hc => beq_eq_false_iff_ne.2 ?_
      rintro rfl
      exact h hc
    simp only [parent?, hhead, List.take_zero, List.drop_zero, hpieces, List.reverse_singleton,
      List.dropWhile_cons, List.dropWhile_nil]
    rcases isVoid name.toList with - | -
    · exact Or.inl rfl
    · exact Or.inr rfl
  · refine Or.inl ?_
    rw [parent?, hdot]
    rfl

/-- In the working directory, under this name, stands the chain file. -/
structure ChainFile.StandsAt (c : ChainFile) (read : FileReader) (name : String) : Prop where
  not_mem_name : '/' ∉ name.toList
  parses : ∃ bytes text, read name = .ok bytes ∧ decodeText bytes = .ok text ∧
    ChainFile.parse text = .ok c

/-- Next to its chain file a path is what it is. -/
theorem ChainFile.placed_of_not_mem (c : ChainFile) {name : String} (h : '/' ∉ name.toList) :
    c.placed name = c := by
  rw [placed]
  rcases FilePath.parent?_of_not_mem h with hp | hp
  · rw [hp]
    exact c.below_empty
  · rw [hp]

theorem ChainFile.StandsAt.hasChainFile_iff {c c' : ChainFile} {name : String}
    (h : c.StandsAt read name) :
    ChainRequest.HasChainFile read { chainFile := some name } c' ↔ c' = c := by
  obtain ⟨bytes, text, hread, htext, hparse⟩ := h.parses
  have hplaced := c.placed_of_not_mem h.not_mem_name
  constructor
  · intro hchainFile
    cases hchainFile with
    | absent h => cases h
    | read hpath hread' htext' hparse' =>
      obtain rfl := Option.some.inj hpath
      obtain rfl := Except.ok.inj (hread.symm.trans hread')
      obtain rfl := Except.ok.inj (htext.symm.trans htext')
      obtain rfl := Except.ok.inj (hparse.symm.trans hparse')
      exact hplaced
  · rintro rfl
    have hchainFile := ChainRequest.HasChainFile.read (r := { chainFile := some name }) rfl hread
      htext hparse
    rwa [hplaced] at hchainFile

/-- What the request for a chain file comes to. -/
theorem comesTo_chainFile_iff {c : ChainFile} {name : String} (h : c.StandsAt read name) :
    (Command.chain { chainFile := some name }).ComesTo read p ↔
      ∃ layers result, List.Forall₂ (ChainLayer.ReadsAs read) c.layers layers ∧ layers ≠ [] ∧
        (compose layers).value = .ok result ∧ p = .deliver result c.output := by
  have hnil : ∀ layers : List Layer, layers ++ [] ++ packageLayers [] = layers := by
    intro layers
    rw [List.append_nil]
    exact List.append_nil layers
  constructor
  · intro hcomes
    cases hcomes with
    | @chain _ c' configured given result hchainFile hlayers hne hcompose =>
      obtain rfl := h.hasChainFile_iff.1 hchainFile
      obtain rfl : given = [] := List.forall₂_nil_left_iff.1 hlayers.ofFiles
      rw [hnil] at hne hcompose
      exact ⟨configured, result, hlayers.ofChainFile, hne, hcompose, rfl⟩
  · rintro ⟨layers, result, hlayers, hne, hcompose, rfl⟩
    refine Command.ComesTo.chain (r := { chainFile := some name }) (h.hasChainFile_iff.2 rfl)
      ⟨hlayers, List.Forall₂.nil⟩ ?_ ?_
    · rw [hnil]
      exact hne
    · rw [hnil]
      exact hcompose

/-- What the request for files and pairs comes to. -/
theorem comesTo_files_iff {paths : List String} {pairs : List (String × String)}
    {output : Destination} :
    (Command.chain { files := paths, packages := pairs, output }).ComesTo read p ↔
      ∃ given result, List.Forall₂ (fun path layer => ∃ m, ReadsAs read path none m ∧
          fileLayer m = layer) paths given ∧ given ++ packageLayers pairs ≠ [] ∧
        (compose (given ++ packageLayers pairs)).value = .ok result ∧
        p = .deliver result output := by
  constructor
  · intro h
    cases h with
    | @chain _ c configured given result hchainFile hlayers hne hcompose =>
      obtain rfl : c = {} := by
        cases hchainFile with
        | absent _ => rfl
        | read hpath _ _ _ => cases hpath
      obtain rfl : configured = [] := List.forall₂_nil_left_iff.1 hlayers.ofChainFile
      exact ⟨given, result, hlayers.ofFiles, hne, hcompose, by rw [Destination.orElse_empty]⟩
  · rintro ⟨given, result, hgiven, hne, hcompose, rfl⟩
    have h := Command.ComesTo.chain (r := { files := paths, packages := pairs, output })
      (.absent rfl) ⟨List.Forall₂.nil, hgiven⟩ hne hcompose
    rwa [Destination.orElse_empty] at h

theorem readsAs_file_iff {path : String} {layer : Layer} :
    ChainLayer.ReadsAs read (.file path none false) layer ↔
      ∃ m, ReadsAs read path none m ∧ fileLayer m = layer := by
  constructor
  · intro h
    cases h with
    | file _ h => exact ⟨_, h, rfl⟩
  · rintro ⟨m, h, rfl⟩
    exact .file false h

theorem readsAs_packages_iff {pairs : List (String × String)} {layer : Layer} :
    ChainLayer.ReadsAs read (.packages pairs) layer ↔
      layer = ⟨(Rules.packages pairs).contract, []⟩ := by
  constructor
  · intro h
    cases h with
    | packages _ => rfl
  · rintro rfl
    exact .packages pairs

/-- The files are read as they are, and the pairs as one rule behind them. -/
theorem forall₂_listedLayers_iff {paths : List String} {pairs : List (String × String)}
    {layers : List Layer} :
    List.Forall₂ (ChainLayer.ReadsAs read) (listedLayers paths pairs) layers ↔
      ∃ given, List.Forall₂ (fun path layer => ∃ m, ReadsAs read path none m ∧
          fileLayer m = layer) paths given ∧ layers = given ++ packageLayers pairs := by
  induction paths generalizing layers with
  | nil =>
    simp only [List.forall₂_nil_left_iff, exists_eq_left, List.nil_append]
    rcases pairs with - | ⟨pair, rest⟩
    · exact List.forall₂_nil_left_iff
    · show List.Forall₂ _ [_] layers ↔ layers = [_]
      simp [List.forall₂_cons_left_iff, readsAs_packages_iff]
  | cons path paths ih =>
    show List.Forall₂ _ (_ :: listedLayers paths pairs) layers ↔ _
    simp only [List.forall₂_cons_left_iff, readsAs_file_iff, ih]
    constructor
    · rintro ⟨layer, rest, hlayer, ⟨given, hgiven, rfl⟩, rfl⟩
      exact ⟨layer :: given, ⟨layer, given, hlayer, hgiven, rfl⟩, rfl⟩
    · rintro ⟨_, ⟨layer, given, hlayer, hgiven, rfl⟩, rfl⟩
      exact ⟨layer, _, hlayer, ⟨given, hgiven, rfl⟩, rfl⟩

end Requests

/-! ### Arguments -/

/-- The invocation of a composition that was read. -/
def chainInvocation (s : State) : Invocation where
  command := .chain
    { chainFile := s.value? "config"
      files := s.positionals
      inputFormat := Invocation.formatOf s "input-format"
      packages := (s.values "package").filterMap Invocation.packageRule?
      output := Invocation.destinationOf s }
  logLevel := s.value? "log-level"

section Arguments

variable {items : List Item} {arguments : List String}

theorem ofArguments_chain (arguments : List String) :
    Invocation.ofArguments ("chain" :: arguments)
      = (Invocation.chainGrammar.readAll arguments).map chainInvocation := by
  have hscan : Invocation.rootGrammar.scan {} ("chain" :: arguments)
      = .ok ({}, some ("chain", arguments)) := rfl
  rw [Invocation.ofArguments, hscan]
  show Except.bind (Invocation.readCommand "chain" arguments) _ = _
  rw [Invocation.readCommand]
  rcases Invocation.chainGrammar.readAll arguments with u | s
  · rfl
  · have hlevel : (s.value? "log-level" <|> none) = s.value? "log-level" := by
      rcases s.value? "log-level" with - | level
      · rfl
      · rfl
    show Except.ok (Invocation.mk _ (s.value? "log-level" <|> none)) = _
    rw [hlevel]
    rfl

/-- The options of a composition, with their values. -/
def chainSwitches : List Switch :=
  [Invocation.chainFileSwitch, Invocation.packageSwitch, Invocation.outputSwitch,
    Invocation.formatSwitch "format"]

theorem offers_of_mem {w : Switch} (h : w ∈ chainSwitches) : Invocation.chainGrammar.Offers w := by
  simp only [chainSwitches, List.mem_cons, List.not_mem_nil, or_false] at h
  rcases h with rfl | rfl | rfl | rfl
  · exact ⟨rfl, by rintro c ⟨⟩, by decide, by decide, ⟨_, _, rfl⟩⟩
  · exact ⟨rfl, by rintro c ⟨⟩, by decide, by decide, ⟨_, _, rfl⟩⟩
  · refine ⟨rfl, ?_, by decide, by decide, ⟨_, _, rfl⟩⟩
    rintro c ⟨⟩
    exact ⟨by decide, rfl⟩
  · exact ⟨rfl, by rintro c ⟨⟩, by decide, by decide, ⟨_, _, rfl⟩⟩

theorem isPath_of_ne {text : String} (h : text ≠ "") : Invocation.isPath text = true := by
  simpa [Invocation.isPath, String.isEmpty_iff] using h

/-- Items that a composition takes make its invocation, however they are written. -/
theorem ofArguments_of_admits (hknown : ∀ w text, .option w text ∈ items → w ∈ chainSwitches)
    (h : Spells items arguments) (hadmits : Invocation.chainGrammar.Admits items) :
    Invocation.ofArguments ("chain" :: arguments) = .ok (chainInvocation (.saying items)) := by
  have hread := Grammar.readAll_of_spells (g := Invocation.chainGrammar) rfl
    (fun w text hmem => offers_of_mem (hknown w text hmem)) h
  rw [Grammar.foldlM_judge_of_admits hadmits] at hread
  rw [ofArguments_chain]
  rcases e : Invocation.chainGrammar.readAll arguments with u | s
  · rw [e] at hread
    cases hread
  · rw [e] at hread
    obtain ⟨hgiven, hpositionals⟩ := Prod.mk.inj (Except.ok.inj hread)
    -- nothing else in the state is looked at
    have hsame : chainInvocation s
        = chainInvocation ⟨s.given, s.positionals, .nothing, false⟩ := rfl
    rw [hgiven, hpositionals] at hsame
    exact congrArg Except.ok hsame

/-- An item that is not taken makes the arguments those of no command. -/
theorem ofArguments_of_refused (hknown : ∀ w text, .option w text ∈ items → w ∈ chainSwitches)
    (h : Spells items arguments) {item : Item} (hmem : item ∈ items)
    (hrefused : ∀ s, Invocation.chainGrammar.judge s item = .error .error) :
    Invocation.ofArguments ("chain" :: arguments) = .error .error := by
  have hoffers := fun w text hmem => offers_of_mem (hknown w text hmem)
  have hread := Grammar.readAll_of_spells (g := Invocation.chainGrammar) rfl hoffers h
  rw [Grammar.foldlM_judge_of_refused hmem (fun w text hmem => (hoffers w text hmem).hasValue)
    hrefused] at hread
  rw [ofArguments_chain]
  rcases e : Invocation.chainGrammar.readAll arguments with u | s
  · rw [e] at hread
    cases hread
    rfl
  · rw [e] at hread
    cases hread

/-- Items that ask for files, package pairs and a destination, in any order. -/
structure Asks (items : List Item) (paths : List String) (pairs : List (String × String))
    (output : Destination) : Prop where
  known : ∀ w text, .option w text ∈ items → w ∈ chainSwitches.tail
  files : (State.saying items).positionals = paths
  packages : (State.saying items).values "package" = pairs.map pairText
  path : (State.saying items).values "output" = output.path.toList
  format : ((State.saying items).values "format").map Format.ofName?
    = output.format.toList.map some

namespace Asks

variable {paths : List String} {pairs : List (String × String)} {output : Destination}
  (h : Asks items paths pairs output)
include h

theorem mem_chainSwitches {w : Switch} {text : String} (hmem : .option w text ∈ items) :
    w ∈ chainSwitches :=
  List.mem_of_mem_tail (h.known w text hmem)

theorem cases_known {w : Switch} {text : String} (hmem : .option w text ∈ items) :
    w = Invocation.packageSwitch ∨ w = Invocation.outputSwitch ∨
      w = Invocation.formatSwitch "format" := by
  simpa [chainSwitches] using h.known w text hmem

/-- Nothing else is asked for. -/
theorem value?_eq_none (name : String) (hname : name ∉ chainSwitches.tail.map Switch.name) :
    (State.saying items).value? name = none := by
  rw [State.value?, List.head?_eq_none_iff, List.eq_nil_iff_forall_not_mem]
  intro text hmem
  obtain ⟨w, hitem, rfl⟩ := State.mem_values_saying_iff.1 hmem
  exact hname (List.mem_map_of_mem (h.known w text hitem))

theorem chainInvocation_eq (hpairs : ∀ p ∈ pairs, '=' ∉ p.1.toList) :
    chainInvocation (.saying items)
      = ⟨.chain { files := paths, packages := pairs.map trimmedPair, output }, none⟩ := by
  have hpackages : ((State.saying items).values "package").filterMap Invocation.packageRule?
      = pairs.map trimmedPair := by
    rw [h.packages, List.filterMap_map, ← List.filterMap_eq_map]
    exact List.filterMap_congr fun p hp => packageRule?_pairText (hpairs p hp)
  have hpath : (State.saying items).value? "output" = output.path := by
    rw [State.value?, h.path, Option.head?_toList]
  have hformat : Invocation.formatOf (.saying items) "format" = output.format := by
    have hhead := congrArg List.head? h.format
    rw [List.head?_map, List.head?_map, Option.head?_toList] at hhead
    rw [Invocation.formatOf, State.value?]
    generalize ((State.saying items).values "format").head? = name at hhead ⊢
    generalize output.format = format at hhead ⊢
    rcases name with - | name
    · rcases format with - | f
      · rfl
      · cases hhead
    · rcases format with - | f
      · cases hhead
      · rw [Option.map_some, Option.map_some, Option.some.injEq] at hhead
        rw [Option.bind_some, hhead]
  have hconfig := h.value?_eq_none "config" (by decide)
  have hinput := h.value?_eq_none "input-format" (by decide)
  have hlevel := h.value?_eq_none "log-level" (by decide)
  simp only [chainInvocation, Invocation.destinationOf, hpackages, hpath, hformat, hconfig, hlevel,
    h.files]
  rw [Invocation.formatOf, hinput]
  rfl

/-- The items are taken, unless a path is empty. -/
theorem admits (hpairs : ∀ p ∈ pairs, '=' ∉ p.1.toList) (hpaths : "" ∉ paths)
    (hpath : output.path ≠ some "") : Invocation.chainGrammar.Admits items := by
  have hpackage : ∀ text ∈ (State.saying items).values "package",
      (Invocation.packageRule? text).isSome = true := by
    intro text hmem
    rw [h.packages] at hmem
    obtain ⟨p, hp, rfl⟩ := List.mem_map.1 hmem
    rw [packageRule?_pairText (hpairs p hp)]
    rfl
  have houtput : ∀ text ∈ (State.saying items).values "output",
      Invocation.isPath text = true := by
    intro text hmem
    rw [h.path, Option.mem_toList] at hmem
    refine isPath_of_ne ?_
    rintro rfl
    exact hpath hmem
  have hformat : ∀ text ∈ (State.saying items).values "format",
      Invocation.isFormat text = true := by
    intro text hmem
    have hname : Format.ofName? text ∈ output.format.toList.map some := by
      rw [← h.format]
      exact List.mem_map_of_mem hmem
    obtain ⟨f, -, hf⟩ := List.mem_map.1 hname
    rw [Invocation.isFormat, ← hf]
    rfl
  have honePath : ((State.saying items).values "output").length ≤ 1 := by
    rw [h.path]
    exact Option.length_toList_le
  have honeFormat : ((State.saying items).values "format").length ≤ 1 := by
    rw [← List.length_map Format.ofName?, h.format, List.length_map]
    exact Option.length_toList_le
  refine ⟨fun w text hmem => ?_, rfl, ⟨_, rfl, fun text hmem => ?_⟩⟩
  · have hvalue := State.mem_values_saying_iff.2 ⟨w, hmem, rfl⟩
    rw [State.count_given]
    rcases h.cases_known hmem with rfl | rfl | rfl
    · exact ⟨_, _, rfl, hpackage text hvalue, Or.inl rfl⟩
    · exact ⟨_, _, rfl, houtput text hvalue, Or.inr honePath⟩
    · exact ⟨_, _, rfl, hformat text hvalue, Or.inr honeFormat⟩
  · rw [h.files] at hmem
    refine isPath_of_ne ?_
    rintro rfl
    exact hpaths hmem

/-- The arguments are those of the request. -/
theorem ofArguments_eq (hitems : Spells items arguments) (hpairs : ∀ p ∈ pairs, '=' ∉ p.1.toList)
    (hpaths : "" ∉ paths) (hpath : output.path ≠ some "") :
    Invocation.ofArguments ("chain" :: arguments)
      = .ok ⟨.chain { files := paths, packages := pairs.map trimmedPair, output }, none⟩ := by
  rw [ofArguments_of_admits (fun w text hmem => h.mem_chainSwitches hmem) hitems
    (h.admits hpairs hpaths hpath), h.chainInvocation_eq hpairs]

/-- An empty path is refused. -/
theorem exists_refused (hempty : "" ∈ paths ∨ output.path = some "") :
    ∃ item ∈ items, ∀ s, Invocation.chainGrammar.judge s item = .error .error := by
  rcases hempty with hmem | hpath
  · rw [← h.files, State.mem_positionals_saying_iff] at hmem
    exact ⟨_, hmem, fun s => rfl⟩
  · have hvalue : "" ∈ (State.saying items).values "output" := by
      rw [h.path, hpath]
      exact List.mem_singleton.2 rfl
    obtain ⟨w, hmem, hname⟩ := State.mem_values_saying_iff.1 hvalue
    rcases h.cases_known hmem with rfl | rfl | rfl
    · exact absurd hname (by decide)
    · exact ⟨_, hmem, fun s => rfl⟩
    · exact absurd hname (by decide)

end Asks

/-- The arguments for a chain file ask for it. -/
theorem ofArguments_chainFile {name : String} (hname : name ≠ "")
    (h : Spells [.option Invocation.chainFileSwitch name] arguments) :
    Invocation.ofArguments ("chain" :: arguments)
      = .ok ⟨.chain { chainFile := some name }, none⟩ := by
  have hknown : ∀ w text, .option w text ∈ [Item.option Invocation.chainFileSwitch name] →
      w = Invocation.chainFileSwitch ∧ text = name := by
    intro w text hmem
    cases List.mem_singleton.1 hmem
    exact ⟨rfl, rfl⟩
  have hadmits : Invocation.chainGrammar.Admits [.option Invocation.chainFileSwitch name] := by
    refine ⟨fun w text hmem => ?_, rfl, ⟨_, rfl, fun text hmem => ?_⟩⟩
    · obtain ⟨rfl, rfl⟩ := hknown w text hmem
      exact ⟨_, _, rfl, isPath_of_ne hname, Or.inr (by simp [State.saying])⟩
    · cases hmem
  refine ofArguments_of_admits (fun w text hmem => ?_) h hadmits
  rw [(hknown w text hmem).1]
  exact List.mem_cons_self ..

end Arguments

/-! ### The same composition -/

section Agreement

variable {files : FileMap} {name : String} {c : ChainFile} {paths : List String}
  {pairs : List (String × String)}

theorem packageLayers_map_trimmedPair (pairs : List (String × String)) :
    packageLayers (pairs.map trimmedPair) = packageLayers pairs := by
  rw [packageLayers, packageLayers, List.isEmpty_map, Rules.packages_map_trimmedPair]

/-- The packages of a chain file have names that can be spelled in front of an equals
sign. -/
theorem ChainFile.StandsAt.not_mem_fst {read : FileReader} (h : c.StandsAt read name)
    (hlayers : c.layers = listedLayers paths pairs) : ∀ p ∈ pairs, '=' ∉ p.1.toList := by
  obtain ⟨bytes, text, -, -, hparse⟩ := h.parses
  intro p hp
  have hlayer : .packages pairs ∈ c.layers := by
    rw [hlayers, listedLayers]
    rcases pairs with - | ⟨pair, rest⟩
    · cases hp
    · exact List.mem_append_right _ (List.mem_singleton.2 rfl)
  exact not_mem_of_isPackageName (isPackageName_of_parse hparse hlayer p hp).1

theorem ChainFile.StandsAt.name_ne (h : c.StandsAt files.read name) : name ≠ "" := by
  obtain ⟨bytes, text, hread, -, -⟩ := h.parses
  rintro rfl
  cases hread

/-- A chain file that names an empty path fails. -/
theorem run_chainFile_of_empty (h : c.StandsAt files.read name)
    (hlayers : c.layers = listedLayers paths pairs)
    (hempty : "" ∈ paths ∨ c.output.path = some "") :
    ((Invocation.mk (.chain { chainFile := some name }) none).run files).Agrees
      (.ofUsage files .error) := by
  refine run_agrees_ofUsage fun p hcomes notices => ?_
  obtain ⟨layers, result, hread, -, -, rfl⟩ := (comesTo_chainFile_iff h).1 hcomes
  rcases hempty with hmem | hpath
  · rw [hlayers] at hread
    obtain ⟨given, hgiven, -⟩ := forall₂_listedLayers_iff.1 hread
    -- every path that is read names a format
    have hformat : List.Forall₂ (fun path _ => (Format.ofExtension? path).isSome = true ∧ True)
        paths given := by
      refine hgiven.imp ?_
      rintro path layer ⟨m, ⟨f, bytes, hf, -, -⟩, -⟩
      have hf : Format.ofExtension? path = some f := hf
      rw [hf]
      exact ⟨rfl, trivial⟩
    exact absurd (((List.forall₂_and_left _ _).1 hformat).1 "" hmem) Bool.false_ne_true
  · -- no file can be made
    rw [Plan.carryOut, hpath]
    exact ⟨rfl, rfl, rfl⟩

/-- The chain file and the files and pairs that it lists come to the same plans. -/
theorem comesTo_chainFile_iff_files {read : FileReader} {p : Plan} (h : c.StandsAt read name)
    (hlayers : c.layers = listedLayers paths pairs) :
    (Command.chain { chainFile := some name }).ComesTo read p ↔
      (Command.chain
        { files := paths
          packages := pairs.map trimmedPair
          output := c.output }).ComesTo read p := by
  rw [comesTo_chainFile_iff h, comesTo_files_iff, packageLayers_map_trimmedPair, hlayers]
  constructor
  · rintro ⟨layers, result, hread, hne, hcompose, rfl⟩
    obtain ⟨given, hgiven, rfl⟩ := forall₂_listedLayers_iff.1 hread
    exact ⟨given, result, hgiven, hne, hcompose, rfl⟩
  · rintro ⟨given, result, hgiven, hne, hcompose, rfl⟩
    exact ⟨_, result, forall₂_listedLayers_iff.2 ⟨given, hgiven, rfl⟩, hne, hcompose, rfl⟩

/-- **A chain file and options describe the same composition.**  A chain file in the
working directory lists files, as they are, and then package pairs.  To compose by it
has the same effects as to name the files, the pairs and the output of the chain file
in the arguments, in whichever order and way they are written there. -/
theorem runArguments_chainFile_agrees {items : List Item} {fileArguments arguments : List String}
    (hstands : c.StandsAt files.read name) (hlayers : c.layers = listedLayers paths pairs)
    (hasks : Asks items paths pairs c.output)
    (hfile : Spells [.option Invocation.chainFileSwitch name] fileArguments)
    (hitems : Spells items arguments) :
    (runArguments ("chain" :: fileArguments) files).Agrees
      (runArguments ("chain" :: arguments) files) := by
  rw [runArguments_of_ok (ofArguments_chainFile hstands.name_ne hfile)]
  by_cases hempty : "" ∈ paths ∨ c.output.path = some ""
  · obtain ⟨item, hmem, hrefused⟩ := hasks.exists_refused hempty
    rw [runArguments_of_error (ofArguments_of_refused
      (fun w text hmem => hasks.mem_chainSwitches hmem) hitems hmem hrefused)]
    exact run_chainFile_of_empty hstands hlayers hempty
  · obtain ⟨hpaths, hpath⟩ := not_or.1 hempty
    have hpairs := hstands.not_mem_fst hlayers
    rw [runArguments_of_ok (hasks.ofArguments_eq hitems hpairs hpaths hpath)]
    exact run_agrees fun p => comesTo_chainFile_iff_files hstands hlayers

/-- A chain file for one mappings file and the default package. -/
def chainText : String :=
  "[[layers]]\npath = \"a.srg\"\n[[layers]]\npackages = \x7b \"\" = \"q\" \x7d\n"
    ++ "[output]\npath = \"o.srg\"\n"

/-- What the text describes. -/
def chainOfText : ChainFile where
  layers := listedLayers ["a.srg"] [("", "q")]
  output := ⟨some "o.srg", none⟩

/-- The chain file next to the class `a`, which becomes `b`. -/
def chainFiles : FileMap :=
  .ofPaths [] [("chain.toml", chainText.toUTF8.toList),
    ("a.srg", [67, 76, 58, 32, 97, 32, 98, 10])]

/-- The same in arguments. -/
def chainItems : List Item :=
  [.option Invocation.outputSwitch "o.srg", .positional "a.srg",
    .option Invocation.packageSwitch "=q"]

/-- Both ways write the class `q/b` to the output. -/
theorem runArguments_chainFile_agrees_moved :
    chainOfText.StandsAt chainFiles.read "chain.toml" ∧
      chainOfText.layers = listedLayers ["a.srg"] [("", "q")] ∧
      Asks chainItems ["a.srg"] [("", "q")] chainOfText.output ∧
      Spells [.option Invocation.chainFileSwitch "chain.toml"] ["--config", "chain.toml"] ∧
      Spells chainItems ["-oo.srg", "a.srg", "--package", "=q"] ∧
      (runArguments ["chain", "--config", "chain.toml"] chainFiles).Agrees
        (runArguments ["chain", "-oo.srg", "a.srg", "--package", "=q"] chainFiles) ∧
      (runArguments ["chain", "-oo.srg", "a.srg", "--package", "=q"] chainFiles).files.read "o.srg"
        = .ok "CL: a q/b\n".toUTF8.toList := by
  have hstands : chainOfText.StandsAt chainFiles.read "chain.toml" := by
    refine ⟨by decide, chainText.toUTF8.toList, chainText, ?_, ?_, ?_⟩
    · decide +kernel
    · decide +kernel
    · decide +kernel
  have hasks : Asks chainItems ["a.srg"] [("", "q")] chainOfText.output := by
    refine ⟨fun w text hmem => ?_, rfl, rfl, rfl, rfl⟩
    simp only [chainItems, List.mem_cons, Item.option.injEq, reduceCtorEq, List.not_mem_nil,
      or_false, false_or] at hmem
    rcases hmem with ⟨rfl, -⟩ | ⟨rfl, -⟩
    · exact List.mem_cons_of_mem _ (List.mem_cons_self ..)
    · exact List.mem_cons_self ..
  have hfile : Spells [.option Invocation.chainFileSwitch "chain.toml"]
      ["--config", "chain.toml"] := .cons (.following _ rfl) .nil
  have hitems : Spells chainItems ["-oo.srg", "a.srg", "--package", "=q"] :=
    .cons (.shortAttached rfl rfl) (.cons (.positional rfl) (.cons (.following _ rfl) .nil))
  refine ⟨hstands, rfl, hasks, hfile, hitems, ?_, by decide +kernel⟩
  exact runArguments_chainFile_agrees hstands rfl hasks hfile hitems

end Agreement

end SymbolRenaming
