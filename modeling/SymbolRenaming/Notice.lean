/-
SymbolRenaming/Notice.lean

Notices: what the operations report beside their results.

Design.  A notice is a value, one constructor per occasion, and a computation
that can give notices returns them with its result (`Noted`).  How a notice is
worded, how severe it is and which target it belongs to is decided here, once
for each occasion (`Notice.level`, `Notice.target`, `Notice.message`,
`Notice.details`).
-/
import SymbolRenaming.ClassName

namespace SymbolRenaming

/-! ### Severity -/

/-- How severe a notice is, the most severe first. -/
inductive Level where
  | error | warn | info | debug | trace
  deriving DecidableEq, Repr

namespace Level

/-- The rank of a level; a larger rank is less severe. -/
def rank : Level → Nat
  | error => 1
  | warn => 2
  | info => 3
  | debug => 4
  | trace => 5

/-- The name of a level in capitals. -/
def name : Level → String
  | error => "ERROR"
  | warn => "WARN"
  | info => "INFO"
  | debug => "DEBUG"
  | trace => "TRACE"

end Level

/-! ### Occasions -/

/-- An occasion that is reported beside a result. -/
inductive Notice where
  /-- A package record was read past. -/
  | packageRecordIgnored (line : Nat)
  /-- A class record gives a class another name than its last record did. -/
  | classRecordOverridden (line : Nat) (old previous renamed : ClassName)
  /-- The members of a compact file are about to be resolved. -/
  | compactRecordsResolved (classes methods fields : Nat)
  /-- Several classes share a target, so the inverse has fewer classes. -/
  | inverseNotInjective (before after : Nat)
  /-- A rule that moves packages was made. -/
  | packageRuleCreated (packages : Nat)
  /-- A layer has an entry for a name that no symbol has any more. -/
  | layerEntrySkipped (layer : Nat) (key : String)
  /-- A layer was applied, and brought in this many symbols. -/
  | layerApplied (layer classes methods fields : Nat)
  /-- All layers were composed into this many entries. -/
  | layersComposed (layers classes methods fields : Nat)
  /-- A chain file was read. -/
  | chainFileLoaded (path : String) (layers : Nat)
  /-- A mappings file was read. -/
  | mappingsLoaded (path format : String) (classes fields methods : Nat)
  deriving DecidableEq, Repr

/-- A value that a notice carries. -/
inductive Detail where
  | number (n : Nat)
  | text (s : String)
  deriving DecidableEq, Repr

namespace Notice

/-- The severity of an occasion. -/
def level : Notice → Level
  | packageRecordIgnored .. => .trace
  | classRecordOverridden .. => .warn
  | _ => .debug

/-- The part of the program that an occasion belongs to. -/
def target : Notice → String
  | packageRecordIgnored .. | classRecordOverridden .. | compactRecordsResolved .. => "srg.format"
  | chainFileLoaded .. => "srg.config"
  | mappingsLoaded .. => "srg.cli"
  | _ => "srg.mappings"

/-- The wording of an occasion. -/
def message : Notice → String
  | packageRecordIgnored .. => "ignoring package record"
  | classRecordOverridden .. => "class record overrides an earlier record"
  | compactRecordsResolved .. => "resolving compact records"
  | inverseNotInjective .. =>
    "class table isn't injective; inverse keeps the last original per name"
  | packageRuleCreated .. => "created package renaming rule"
  | layerEntrySkipped .. =>
    "skipping layer entry; its name was already renamed away by an earlier layer"
  | layerApplied .. => "applying mapping layer"
  | layersComposed .. => "composed mapping layers"
  | chainFileLoaded .. => "loaded chain config"
  | mappingsLoaded .. => "loaded mappings"

/-- The values that an occasion carries, by name. -/
def details : Notice → List (String × Detail)
  | packageRecordIgnored line => [("line_number", .number line)]
  | classRecordOverridden line old previous renamed =>
    [("line_number", .number line), ("class", .text old.text),
     ("previous", .text previous.text), ("renamed", .text renamed.text)]
  | compactRecordsResolved classes methods fields =>
    [("classes", .number classes), ("methods", .number methods), ("fields", .number fields)]
  | inverseNotInjective before after => [("before", .number before), ("after", .number after)]
  | packageRuleCreated packages => [("packages", .number packages)]
  | layerEntrySkipped layer key => [("layer", .number layer), ("key", .text key)]
  | layerApplied layer classes methods fields =>
    [("layer", .number layer), ("classes", .number classes), ("methods", .number methods),
     ("fields", .number fields)]
  | layersComposed layers classes methods fields =>
    [("layers", .number layers), ("classes", .number classes), ("methods", .number methods),
     ("fields", .number fields)]
  | chainFileLoaded path layers => [("path", .text path), ("layers", .number layers)]
  | mappingsLoaded path format classes fields methods =>
    [("path", .text path), ("format", .text format), ("classes", .number classes),
     ("fields", .number fields), ("methods", .number methods)]

/-- The text of a value that a notice carries. -/
def detailText : Detail → String
  | .number n => toString n
  | .text s => s

/-- A notice on one line. -/
def line (n : Notice) : String :=
  n.level.name ++ " " ++ n.target ++ ": " ++ n.message
    ++ String.join (n.details.map fun d => " " ++ d.1 ++ "=" ++ detailText d.2)

/-- Whether a notice is at least as severe as a level. -/
def isWithin (least : Level) (n : Notice) : Bool := n.level.rank ≤ least.rank

end Notice

/-! ### Computations that give notices -/

universe u

/-- A result with the notices given on the way, in order. -/
structure Noted (α : Type u) where
  value : α
  notices : List Notice
  deriving Repr

instance : Monad Noted where
  pure a := ⟨a, []⟩
  bind x f := ⟨(f x.value).value, x.notices ++ (f x.value).notices⟩

end SymbolRenaming
