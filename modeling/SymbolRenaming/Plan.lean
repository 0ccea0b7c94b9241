/-
SymbolRenaming/Plan.lean

Plans: what a command comes to, before anything is printed or written.

Design.  A command first reads all its files and computes its result; printing
and writing come last and happen once.  So a command is planned from a function
that reads files, and the plan says what is left to do: print a text, or deliver
mappings.  On the way the planning gives notices, also when it fails.

A composition takes the layers of its chain file, then its files, then its
package rules.  Settings of the command line win over those of the chain file.
-/
import SymbolRenaming.Check
import SymbolRenaming.ChainFile
import SymbolRenaming.Composition
import SymbolRenaming.FileMap
import SymbolRenaming.Format.Codec
import SymbolRenaming.Invocation

namespace SymbolRenaming

/-! ### Failures -/

/-- Why a command fails. -/
inductive Failure where
  | chainFileInput (path : String) (cause : IoFailure)
  | chainFile (cause : ChainFileError)
  | unknownInputFormat (path : String)
  | opening (path : String) (cause : IoFailure)
  | reading (path : String) (cause : ReadError)
  | nothingToChain
  | composing (cause : RenamingError)
  | symbol (cause : SymbolError)
  | creating (path : String) (cause : IoFailure)
  | writing (path : String) (cause : IoFailure)
  deriving DecidableEq, Repr

/-- The wording of a failure and of its causes. -/
def Failure.report : Failure → String
  | chainFileInput path cause =>
    "failed to read config file " ++ path ++ ": " ++ cause.message ++ ": " ++ cause.message
  | chainFile cause => cause.message
  | unknownInputFormat path =>
    "can't infer the mappings format of " ++ path ++ "; pass --input-format"
  | opening path cause => "failed to open " ++ path ++ ": " ++ cause.message
  | reading path cause => "failed to parse " ++ path ++ ": " ++ cause.report
  | nothingToChain => "nothing to chain; pass mappings files or --config"
  | composing cause => "failed to chain mappings: " ++ cause.message
  | symbol cause => cause.message
  | creating path cause => "failed to create " ++ path ++ ": " ++ cause.message
  | writing path cause => "failed to write " ++ path ++ ": " ++ cause.message

/-! ### Plans -/

/-- What is left to do. -/
inductive Plan where
  /-- Prints a text and ends with an exit code. -/
  | print (text : String) (exitCode : Nat)
  /-- Writes mappings to their destination. -/
  | deliver (result : Frozen) (output : Destination)

/-- A computation that may fail and gives notices, also on the way to a
failure. -/
abbrev Task := ExceptT Failure Noted

/-- How a file is read to its end. -/
abbrev FileReader := String → Except FileFailure (List UInt8)

namespace Task

/-- A result without notices. -/
def ofExcept {ε α : Type} (fail : ε → Failure) (x : Except ε α) : Task α :=
  (⟨x.mapError fail, []⟩ : Noted (Except Failure α))

/-- A result with its notices. -/
def ofNoted {ε α : Type} (fail : ε → Failure) (x : Noted (Except ε α)) : Task α :=
  (⟨x.value.mapError fail, x.notices⟩ : Noted (Except Failure α))

/-- Gives a notice. -/
def note (n : Notice) : Task Unit := (⟨.ok (), [n]⟩ : Noted (Except Failure Unit))

end Task

/-! ### Reading files -/

/-- The failure to read a mappings file. -/
def fileFailure (path : String) : FileFailure → Failure
  | .atOpening cause => .opening path cause
  | .atReading cause => .reading path (.input cause)

/-- Reads a mappings file in a format. -/
def readMappings (read : FileReader) (path : String) (format : Format) : Task Frozen := do
  let bytes ← Task.ofExcept (fileFailure path) (read path)
  let m ← Task.ofNoted (.reading path) (format.parseBytes bytes)
  Task.note (.mappingsLoaded path format.name m.tables.classes.size m.tables.fields.size
    m.tables.methods.size)
  pure m

/-- Reads an input, in the format that is set or in the one that its path
names. -/
def readInput (read : FileReader) (input : Input) : Task Frozen :=
  match input.format <|> Format.ofExtension? input.path with
  | some format => readMappings read input.path format
  | none => throw (.unknownInputFormat input.path)

/-- The text of bytes that have to be UTF-8. -/
def decodeText (bytes : List UInt8) : Except IoFailure String :=
  match String.fromUTF8? ⟨bytes.toArray⟩ with
  | some text => .ok text
  | none => .error .invalidUtf8

/-- Reads a chain file; its relative paths are taken to be below its
directory. -/
def readChainFile (read : FileReader) (path : String) : Task ChainFile := do
  let bytes ← Task.ofExcept (fun e => .chainFileInput path e.cause) (read path)
  let text ← Task.ofExcept (.chainFileInput path) (decodeText bytes)
  let parsed ← Task.ofExcept .chainFile (ChainFile.parse text)
  let chainFile := match FilePath.parent? path with
    | some base => parsed.below base
    | none => parsed
  Task.note (.chainFileLoaded path chainFile.layers.length)
  pure chainFile

/-! ### Composing -/

/-- Frozen mappings as a layer. -/
def fileLayer (m : Frozen) : Composition.Layer := ⟨m.contract, m.openingNotices⟩

/-- A package rule as a layer. -/
def packageLayer (pairs : List (String × String)) : Task Composition.Layer := do
  Task.note (Rules.packagesNotice pairs)
  pure ⟨(Rules.packages pairs).contract, []⟩

/-- Reads a layer of a chain file. -/
def readLayer (read : FileReader) : ChainLayer → Task Composition.Layer
  | .file path format invert => do
    let format ← Task.ofExcept .chainFile (fileLayerFormat path format)
    let m ← readMappings read path format
    pure (fileLayer (if invert then m.invert else m))
  | .packages pairs => packageLayer pairs

/-- Composes layers, of which there has to be one. -/
def composeLayers (layers : List Composition.Layer) : Task Frozen :=
  if layers.isEmpty then throw .nothingToChain
  else Task.ofNoted .composing (Composition.compose layers)

/-- The layers that a request asks for, in their order. -/
def requestedLayers (read : FileReader) (c : ChainFile) (r : ChainRequest) :
    Task (List Composition.Layer) := do
  -- the files are read in this order, so the first failure is that of the first layer
  let configured ← c.layers.mapM (readLayer read)
  let given ← r.files.mapM fun path => fileLayer <$> readInput read ⟨path, r.inputFormat⟩
  let moved ← if r.packages.isEmpty then pure [] else List.singleton <$> packageLayer r.packages
  pure (configured ++ given ++ moved)

/-- The chain file of a request; without one there are no layers and no
settings. -/
def requestedChainFile (read : FileReader) (r : ChainRequest) : Task ChainFile :=
  match r.chainFile with
  | some path => readChainFile read path
  | none => pure {}

/-- Plans a composition. -/
def ChainRequest.plan (read : FileReader) (r : ChainRequest) : Task Plan := do
  let chainFile ← requestedChainFile read r
  let layers ← requestedLayers read chainFile r
  let result ← composeLayers layers
  -- each setting is chosen for itself, so a path may meet a format from elsewhere
  pure (.deliver result (r.output.orElse chainFile.output))

/-! ### Planning -/

/-- Plans a command. -/
def Command.plan (read : FileReader) : Command → Task Plan
  | .chain request => request.plan read
  | .invert input output => do
    let m ← readInput read input
    pure (.deliver m.invert output)
  | .convert input target output => do
    let m ← readInput read input
    pure (.deliver m ⟨output, some target⟩)
  | .lookup input symbol asData => do
    let m ← readInput read input
    let found ← Task.ofExcept .symbol (symbol.find m.contract)
    pure (.print (found.text asData) 0)
  | .check input asData => do
    let m ← readInput read input
    let report := CheckResult.of m.contract
    pure (.print (report.text asData) report.exitCode)

/-! ### Which files are read -/

/-- The files that a command names itself. -/
def Command.namedPaths : Command → List String
  | .chain r => r.chainFile.toList ++ r.files
  | .invert input _ | .convert input _ _ | .lookup input _ _ | .check input _ => [input.path]

/-- The chain file of a command, if it can be read. -/
def Command.chainFile? (read : FileReader) : Command → Option ChainFile
  | .chain r => r.chainFile.bind fun path => ((readChainFile read path).run.value).toOption
  | _ => none

/-- The files that a chain file names as layers. -/
def ChainFile.layerPaths (c : ChainFile) : List String :=
  c.layers.filterMap fun
    | .file path _ _ => some path
    | .packages _ => none

end SymbolRenaming
