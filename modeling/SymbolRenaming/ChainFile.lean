/-
SymbolRenaming/ChainFile.lean

Chain files: which layers are composed, and where the result goes.

Design.  A chain file is a TOML document with the tables `logging` and `output`
and the array `layers`.  A layer is a mappings file or a list of package pairs.
Decoding goes from values to the structures below and knows one kind of
failure; only then are the package names judged, in the order of the file.
Names that no table has are refused everywhere.  A record may also be written
as an array of its parts in order.

Main result: paths taken to be below the empty base stay what they are
(`below_empty`).
-/
import SymbolRenaming.Destination
import SymbolRenaming.Identifier
import SymbolRenaming.Mappings.Rules
import SymbolRenaming.Toml.Document

namespace SymbolRenaming

open Text

/-! ### Chain files -/

/-- A layer of a chain file. -/
inductive ChainLayer where
  /-- A mappings file, perhaps to be turned round. -/
  | file (path : String) (format : Option Format) (invert : Bool)
  /-- A rule that moves packages. -/
  | packages (pairs : List (String × String))
  deriving DecidableEq, Repr

/-- How the program reports. -/
structure Logging where
  level : String := "warn"
  json : Bool := false
  deriving DecidableEq, Repr

/-- A chain file. -/
structure ChainFile where
  logging : Logging := {}
  layers : List ChainLayer := []
  output : Destination := {}
  deriving DecidableEq, Repr

/-- Why a chain file cannot be used. -/
inductive ChainFileError where
  /-- The text is no TOML document, or describes no chain file. -/
  | unreadable
  /-- A name is no package name. -/
  | invalidPackage (name : String)
  /-- A layer says nothing about its format, and its path does not either. -/
  | unknownFormat (path : String)
  deriving DecidableEq, Repr

/-- The wording of an error. -/
def ChainFileError.message : ChainFileError → String
  | unreadable => "failed to parse toml config"
  | invalidPackage name => s!"invalid package name `{name}`"
  | unknownFormat path =>
    s!"can't infer the mappings format of {path}; set `format` explicitly"

/-! ### Formats of layers -/

/-- The format of a file layer: the one that is set, or the one that the path
names. -/
def fileLayerFormat (path : String) (format : Option Format) : Except ChainFileError Format :=
  match format <|> Format.ofExtension? path with
  | some f => .ok f
  | none => .error (.unknownFormat path)

/-- The format of a layer; a package rule has none. -/
def ChainLayer.format : ChainLayer → Except ChainFileError (Option Format)
  | file path format _ => (fileLayerFormat path format).map some
  | packages _ => .ok none

/-! ### Package names -/

/-- Whether a text names a package: the default package, or identifiers
between slashes and dots.  Blanks and separators at the ends do not matter. -/
def isPackageName (s : String) : Bool :=
  let core := trimBy Rules.isPackageSeparator (trim s.toList)
  core.isEmpty || (pieces Rules.isPackageSeparator core).all isIdentifier

/-- The first text among the pairs that is no package name. -/
def firstBadPackage (pairs : List (String × String)) : Option String :=
  (pairs.flatMap fun p => [p.1, p.2]).find? (!isPackageName ·)

/-- The pairs of the package layers, layer by layer. -/
def ChainFile.packagePairs (c : ChainFile) : List (List (String × String)) :=
  c.layers.filterMap fun
    | .packages pairs => some pairs
    | .file .. => none

/-- Judges the package names, in the order of the file. -/
def ChainFile.validate (c : ChainFile) : Except ChainFileError ChainFile :=
  match c.packagePairs.findSome? firstBadPackage with
  | some name => .error (.invalidPackage name)
  | none => .ok c

/-! ### Decoding -/

namespace ChainFile

/-- The parts of a record, by name.  A table may have no other names.  An array
gives the parts in order; whether it may be longer than that is up to the
record. -/
def parts? (names : List String) (mayBeLonger : Bool) :
    Toml.Value → Option (List (Option Toml.Value))
  | .table entries =>
    if entries.all fun e => names.contains e.1 then
      some (names.map fun name => Toml.lookup name entries)
    else none
  | .array items =>
    if mayBeLonger || items.length ≤ names.length then
      some ((List.range names.length).map fun i => items[i]?)
    else none
  | _ => none

/-- A part that may be missing. -/
def optional? {α : Type} (read : Toml.Value → Option α) : Option Toml.Value → Option (Option α)
  | none => some none
  | some v => (read v).map some

/-- A text. -/
def text? : Toml.Value → Option String
  | .string s => some s
  | _ => none

/-- A truth value. -/
def bool? : Toml.Value → Option Bool
  | .boolean b => some b
  | _ => none

/-- The name of a format, in its exact spelling. -/
def format? (v : Toml.Value) : Option Format := (text? v).bind Format.ofKeyword?

/-- The name of a format, or a table that holds nothing but that name with
nothing behind it. -/
def formatChoice? : Toml.Value → Option Format
  | .string s => Format.ofKeyword? s
  | .table [(s, .table [])] => Format.ofKeyword? s
  | .table [(s, .array [])] => Format.ofKeyword? s
  | _ => none

/-- Package pairs: a table of texts.  A moment counts as one pair with the text
of the moment as its target, which is never the name of a package. -/
def pairs? : Toml.Value → Option (List (String × String))
  | .table entries => entries.mapM fun e => (text? e.2).map (e.1, ·)
  | .moment text => some [("", text)]
  | _ => none

/-- A layer that is a mappings file. -/
def fileLayer? (v : Toml.Value) : Option ChainLayer :=
  match parts? ["path", "format", "invert"] false v with
  | some [some path, format, invert] => do
    let path ← text? path
    let format ← optional? format? format
    let invert ← optional? bool? invert
    some (.file path format (invert.getD false))
  | _ => none

/-- A layer that moves packages. -/
def packageLayer? (v : Toml.Value) : Option ChainLayer :=
  match parts? ["packages"] false v with
  | some [some pairs] => (pairs? pairs).map .packages
  | _ => none

/-- A layer. -/
def layer? (v : Toml.Value) : Option ChainLayer := fileLayer? v <|> packageLayer? v

/-- The layers. -/
def layers? : Toml.Value → Option (List ChainLayer)
  | .array items => items.mapM layer?
  | _ => none

/-- How the program reports. -/
def logging? (v : Toml.Value) : Option Logging :=
  match parts? ["level", "json"] true v with
  | some [level, json] => do
    let level ← optional? text? level
    let json ← optional? bool? json
    some ⟨level.getD "warn", json.getD false⟩
  | _ => none

/-- Where the result goes. -/
def output? (v : Toml.Value) : Option Destination :=
  match parts? ["path", "format"] true v with
  | some [path, format] => do
    let path ← optional? text? path
    let format ← optional? formatChoice? format
    some ⟨path, format⟩
  | _ => none

/-- The chain file that a document describes. -/
def ofDocument? (document : List (String × Toml.Value)) : Option ChainFile :=
  match parts? ["logging", "layers", "output"] false (.table document) with
  | some [logging, layers, output] => do
    -- what is missing has its usual value
    let logging ← optional? logging? logging
    let layers ← optional? layers? layers
    let output ← optional? output? output
    some ⟨logging.getD {}, layers.getD [], output.getD {}⟩
  | _ => none

/-- Reads a chain file. -/
def parse (text : String) : Except ChainFileError ChainFile :=
  match (Toml.document? text).bind ofDocument? with
  | some c => c.validate
  | none => .error .unreadable

end ChainFile

/-! ### Paths -/

/-- A layer whose relative path is taken to be below a base. -/
def ChainLayer.below (base : String) : ChainLayer → ChainLayer
  | file path format invert => file (FilePath.below base path) format invert
  | packages pairs => packages pairs

/-- The chain file whose relative paths are taken to be below a base. -/
def ChainFile.below (c : ChainFile) (base : String) : ChainFile where
  logging := c.logging
  layers := c.layers.map (·.below base)
  output := { c.output with path := c.output.path.map (FilePath.below base) }

/-! ### Small facts -/

theorem FilePath.below_empty (path : String) : FilePath.below "" path = path := by
  simp [FilePath.below, FilePath.join_empty]

/-- Below the empty base every path stays what it is. -/
theorem ChainFile.below_empty (c : ChainFile) : c.below "" = c := by
  have h : ∀ l : ChainLayer, l.below "" = l := by
    rintro (⟨path, format, invert⟩ | pairs)
    · simp [ChainLayer.below, FilePath.below_empty]
    · rfl
  rcases c with ⟨logging, layers, path, format⟩
  have hp : path.map (FilePath.below "") = path := by
    rcases path with - | path <;> simp [FilePath.below_empty]
  simp [below, h, hp]

end SymbolRenaming
