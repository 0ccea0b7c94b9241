/-
SymbolRenaming/Invocation.lean

Command lines of the program: what it is asked to do.

Design.  An invocation is one of five commands with its settings, and the log
level that was asked for.  The grammars below say which options and arguments
each command takes; the settings are then taken from what was read.  What was
pending when a nested command started is judged after that command.
-/
import SymbolRenaming.Arguments
import SymbolRenaming.Destination
import SymbolRenaming.Lookup
import SymbolRenaming.Text.Split

namespace SymbolRenaming

open Arguments

/-! ### Commands -/

/-- A mappings file to be read, in a set format or in the one that its path
names. -/
structure Input where
  path : String
  format : Option Format := none
  deriving DecidableEq, Repr

/-- What a composition is made from, besides a chain file. -/
structure ChainRequest where
  chainFile : Option String := none
  files : List String := []
  inputFormat : Option Format := none
  packages : List (String × String) := []
  output : Destination := {}
  deriving DecidableEq, Repr

/-- What the program is asked to do. -/
inductive Command where
  | chain (request : ChainRequest)
  | invert (input : Input) (output : Destination)
  | convert (input : Input) (target : Format) (output : Option String)
  | lookup (input : Input) (symbol : Symbol) (asData : Bool)
  | check (input : Input) (asData : Bool)
  deriving DecidableEq, Repr

/-- A command line. -/
structure Invocation where
  command : Command
  logLevel : Option String := none
  deriving DecidableEq, Repr

namespace Invocation

/-! ### Options -/

/-- Whether a text can be a path. -/
def isPath (s : String) : Bool := !s.isEmpty

/-- Whether a text names a format. -/
def isFormat (s : String) : Bool := (Format.ofName? s).isSome

/-- Reads a package rule, which has its two packages around the first equals
sign. -/
def packageRule? (s : String) : Option (String × String) :=
  (Text.splitAtFirst '=' s.toList).map fun p =>
    (.ofList (Text.trim p.1), .ofList (Text.trim p.2))

/-- The option for help. -/
def helpSwitch : Switch := ⟨"help", some 'h', .help⟩

/-- The option for the version. -/
def versionSwitch : Switch := ⟨"version", some 'V', .version⟩

/-- The option for the log level. -/
def logLevelSwitch : Switch := ⟨"log-level", none, .value (fun _ => true) false⟩

/-- The option for structured output. -/
def jsonSwitch : Switch := ⟨"json", none, .flag⟩

/-- An option whose value is a format. -/
def formatSwitch (name : String) : Switch := ⟨name, none, .value isFormat false⟩

/-- The option for the output file. -/
def outputSwitch : Switch := ⟨"output", some 'o', .value isPath false⟩

/-- The option for a chain file. -/
def chainFileSwitch : Switch := ⟨"config", none, .value isPath false⟩

/-- The option for a package rule. -/
def packageSwitch : Switch := ⟨"package", none, .value (fun s => (packageRule? s).isSome) true⟩

/-! ### Grammars -/

/-- The words that start a command. -/
def commandNames : List String := ["chain", "invert", "convert", "lookup", "check", "help"]

/-- The words that start the symbol of a lookup. -/
def symbolNames : List String := ["class", "field", "method", "help"]

/-- The program itself. -/
def rootGrammar : Grammar :=
  { switches := [helpSwitch, versionSwitch, logLevelSwitch], commands := commandNames }

/-- The command `chain`. -/
def chainGrammar : Grammar :=
  { switches := [helpSwitch, logLevelSwitch, chainFileSwitch, formatSwitch "input-format",
      packageSwitch, outputSwitch, formatSwitch "format"]
    others := some isPath }

/-- The command `invert`. -/
def invertGrammar : Grammar :=
  { switches := [helpSwitch, logLevelSwitch, formatSwitch "input-format", outputSwitch,
      formatSwitch "format"]
    positionals := [isPath] }

/-- The command `convert`. -/
def convertGrammar : Grammar :=
  { switches := [helpSwitch, logLevelSwitch, formatSwitch "input-format", formatSwitch "to",
      outputSwitch]
    positionals := [isPath] }

/-- The command `lookup`, up to its symbol. -/
def lookupGrammar : Grammar :=
  { switches := [helpSwitch, logLevelSwitch, jsonSwitch, formatSwitch "input-format"]
    positionals := [isPath]
    commands := symbolNames }

/-- A symbol of the command `lookup`, written in a number of arguments. -/
def symbolGrammar (arguments : Nat) : Grammar :=
  { switches := [helpSwitch, logLevelSwitch, jsonSwitch]
    positionals := List.replicate arguments fun _ => true }

/-- The command `check`. -/
def checkGrammar : Grammar :=
  { switches := [helpSwitch, logLevelSwitch, jsonSwitch, formatSwitch "input-format"]
    positionals := [isPath] }

/-! ### Texts -/

/-- What is shown to a person who asks for help. -/
def helpText : String :=
  "Usage: srg [--log-level LEVEL] COMMAND\n\n"
  ++ "Commands:\n"
  ++ "  chain [FILES] [--config FILE] [--input-format FORMAT] [--package FROM=TO]\n"
  ++ "        [-o FILE] [--format FORMAT]    compose mappings and package rules\n"
  ++ "  invert FILE [--input-format FORMAT] [-o FILE] [--format FORMAT]\n"
  ++ "                                       swap old and new names\n"
  ++ "  convert FILE --to FORMAT [--input-format FORMAT] [-o FILE]\n"
  ++ "                                       write mappings in another format\n"
  ++ "  lookup FILE [--input-format FORMAT] [--json] SYMBOL\n"
  ++ "                                       resolve a symbol: class NAME, field NAME,\n"
  ++ "                                       or method NAME DESCRIPTOR\n"
  ++ "  check FILE [--input-format FORMAT] [--json]\n"
  ++ "                                       look for bad names and members"

/-- The version. -/
def versionText : String := "srg 0.1.0"

/-! ### Settings -/

/-- The format that an option sets. -/
def formatOf (s : State) (name : String) : Option Format := (s.value? name).bind Format.ofName?

/-- The input of a command. -/
def inputOf (s : State) : Except Usage Input :=
  match s.positionals with
  | [path] => .ok ⟨path, formatOf s "input-format"⟩
  | _ => .error .error

/-- The output of a command. -/
def destinationOf (s : State) : Destination := ⟨s.value? "output", formatOf s "format"⟩

/-! ### Reading commands -/

/-- Whether there is help about a command. -/
def helpOn : List String → Usage
  | [] => .help
  | [name] => if commandNames.contains name then .help else .error
  | [name, symbol] =>
    if name = "lookup" && symbolNames.contains symbol then .help else .error
  | _ => .error

/-- Reads the symbol of a lookup. -/
def readSymbol (name : String) (arguments : List String) : Except Usage (Symbol × State) := do
  if name = "help" then throw (helpOn ("lookup" :: arguments))
  else
    let s ← (symbolGrammar (if name = "method" then 2 else 1)).readAll arguments
    match name, s.positionals with
    | "class", [text] => pure (.classNamed text, s)
    | "field", [text] => pure (.fieldNamed text, s)
    | "method", [text, descriptor] => pure (.methodNamed text descriptor, s)
    | _, _ => throw .error

/-- Reads the command `lookup`; the symbol is read before what is pending at
its word is judged. -/
def readLookup (arguments : List String) : Except Usage (Command × Option String) := do
  let (s, nested) ← lookupGrammar.scan {} arguments
  match nested with
  | none => throw .error
  | some (name, rest) =>
    let (symbol, inner) ← readSymbol name rest
    -- only now is the last item before the symbol judged
    let s ← lookupGrammar.settle s
    let input ← inputOf s
    pure (.lookup input symbol (s.has "json" || inner.has "json"),
      inner.value? "log-level" <|> s.value? "log-level")

/-- Reads a command, and the log level that is set within it. -/
def readCommand (name : String) (arguments : List String) :
    Except Usage (Command × Option String) :=
  match name with
  | "chain" => do
    let s ← chainGrammar.readAll arguments
    pure (.chain
      { chainFile := s.value? "config"
        files := s.positionals
        inputFormat := formatOf s "input-format"
        packages := (s.values "package").filterMap packageRule?
        output := destinationOf s }, s.value? "log-level")
  | "invert" => do
    let s ← invertGrammar.readAll arguments
    pure (.invert (← inputOf s) (destinationOf s), s.value? "log-level")
  | "convert" => do
    let s ← convertGrammar.readAll arguments
    let input ← inputOf s
    match formatOf s "to" with
    | some target => pure (.convert input target (s.value? "output"), s.value? "log-level")
    | none => throw .error
  | "lookup" => readLookup arguments
  | "check" => do
    let s ← checkGrammar.readAll arguments
    pure (.check (← inputOf s) (s.has "json"), s.value? "log-level")
  | _ => .error (helpOn arguments)

/-- Reads a command line. -/
def ofArguments (arguments : List String) : Except Usage Invocation := do
  let (s, nested) ← rootGrammar.scan {} arguments
  match nested with
  | none => throw .error
  | some (name, rest) =>
    let (command, inner) ← readCommand name rest
    let s ← rootGrammar.settle s
    pure ⟨command, inner <|> s.value? "log-level"⟩

end Invocation

end SymbolRenaming
