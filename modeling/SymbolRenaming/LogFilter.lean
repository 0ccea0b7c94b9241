/-
SymbolRenaming/LogFilter.lean

Log filters: which events are reported down to which level.

Design.  A filter is a list of directives.  Of the directives that apply to an
event, one with the longest target decides; among those one that asks for a
field comes before one that does not; and of equals the last one decides.  An
event that nothing applies to is off.  No span is ever open here, so a directive
for a span applies to nothing, and neither does one for the value of a field,
which is a condition on spans.  A filter is written as directives between commas;
one directive that cannot be read spoils the whole text.  The filter of a
configuration is put before that of the environment, so that the environment wins
where both name the same target.

Main results: the fallbacks of the environment (`effective_of_blank`,
`effective_of_unreadable`).
-/
import SymbolRenaming.LogFilter.Directive

namespace SymbolRenaming.LogFilter

/-! ### Choosing the limit of an event -/

/-- An event as far as directives can tell: its target and the names of its fields. -/
structure Event where
  target : List Char
  fields : List String
  deriving DecidableEq, Repr

/-- An event of a target with nothing but a message. -/
def Event.plain (target : String) : Event := ⟨target.toList, ["message"]⟩

/-- The event that a notice is. -/
def Event.ofNotice (n : Notice) : Event := ⟨n.target.toList, "message" :: n.details.map Prod.fst⟩

/-- Whether an event has what a directive asks of a field. -/
def Field.isMetBy (f : Field) (e : Event) : Bool := f.value.isNone && e.fields.contains f.name

/-- Whether a directive is about an event. -/
def Directive.applies (d : Directive) (e : Event) : Bool :=
  d.target.isPrefixOf e.target && d.span.isNone && d.field.all (Field.isMetBy · e)

/-- Whether a directive ranks no higher than another one by the fields they ask for. -/
def fieldYieldsTo : Option Field → Option Field → Bool
  | none, _ => true
  | some _, none => false
  | some f, some g => f.name ≤ g.name

/-- Whether a directive gives way to a later one that applies to the same event. -/
def Directive.yieldsTo (d later : Directive) : Bool :=
  d.target.length < later.target.length
    || d.target.length == later.target.length && fieldYieldsTo d.field later.field

/-- The better of a directive found before and a later one. -/
def better (e : Event) (best : Option Directive) (d : Directive) : Option Directive :=
  if d.applies e then
    match best with
    | none => some d
    | some b => if b.yieldsTo d then some d else some b
  else best

/-- The directive that decides about an event. -/
def deciding (ds : List Directive) (e : Event) : Option Directive := ds.foldl (better e) none

/-- The limit of an event. -/
def limitOf (ds : List Directive) (e : Event) : Limit := (deciding ds e).bind Directive.limit

/-- The limit of a target. -/
def limit (ds : List Directive) (target : String) : Limit := limitOf ds (.plain target)

/-- Whether a notice is reported. -/
def lets (ds : List Directive) (n : Notice) : Bool :=
  match limitOf ds (.ofNotice n) with
  | some least => n.isWithin least
  | none => false

/-! ### The filter of a configuration -/

/-- The configured directives: a lone level in its usual spelling, and `warn`
where nothing is configured. -/
def directivesText (level : String) : String :=
  let trimmed := Text.trimmed level
  if trimmed.isEmpty then "warn"
  else
    match readLimit? trimmed with
    | some limit => .ofList ((limitName limit).toList.map Char.toLower)
    | none => trimmed

/-- The configured filter; one that cannot be read is replaced by `warn`. -/
def configured (level : String) : List Directive :=
  (read? (directivesText level).toList).getD [.everywhere (some .warn)]

/-- The filter in effect: the configured directives and then those of the
environment, or the configured filter alone where the environment says nothing
or the whole cannot be read. -/
def effective (level : String) (environment : Option String) : List Directive :=
  match environment with
  | none => configured level
  | some text =>
    let trimmed := Text.trimmed text
    if trimmed.isEmpty then configured level
    else
      (read? (directivesText level ++ "," ++ trimmed).toList).getD (configured level)

/-! ### Small facts -/

theorem effective_of_blank {level text : String} (h : (Text.trimmed text).isEmpty) :
    effective level (some text) = configured level := by
  simp [effective, h]

theorem effective_of_unreadable {level text : String}
    (h : read? (directivesText level ++ "," ++ Text.trimmed text).toList = none) :
    effective level (some text) = configured level := by
  simp only [effective]
  split
  · rfl
  · rw [h, Option.getD_none]

end SymbolRenaming.LogFilter
