/-
SymbolRenaming/Arguments.lean

Arguments of a command line: options, positional arguments, and the words that
start a nested command.

Design.  A grammar describes what one command takes.  The arguments are read one
by one into a state.  A value that stands alone, behind its option or as a
positional argument, is pending at first and is judged when the next item comes
or when the arguments end; a nested command starts before that.  So the first
fault, or the first wish for help, is the one that counts.

* An option is written `--name`, or `-n` if it has a short form.  Its value
  follows as the next argument, or after an equals sign, or directly after the
  short form.  Short forms without values can be run together.
* A value that stands alone cannot start with a dash, unless it is a single
  dash.
* After `--` every argument is positional.

Main result: after `--` no argument is an option (`step_of_literal`).
-/

namespace SymbolRenaming.Arguments

/-- How reading can end without a command to run. -/
inductive Usage where
  /-- The arguments are not a command line of the program. -/
  | error
  /-- Help was asked for. -/
  | help
  /-- The version was asked for. -/
  | version
  deriving DecidableEq, Repr

/-- What an option does. -/
inductive Effect where
  | help
  | version
  /-- It is there or not, at most once. -/
  | flag
  /-- It has a value; `repeats` tells whether it may come more than once. -/
  | value (isValid : String → Bool) (repeats : Bool)

/-- An option of a command. -/
structure Switch where
  name : String
  short : Option Char := none
  effect : Effect

/-- What a command takes. -/
structure Grammar where
  switches : List Switch
  /-- The tests for its positional arguments, in order. -/
  positionals : List (String → Bool) := []
  /-- The test for further positional arguments, if it takes any number. -/
  others : Option (String → Bool) := none
  /-- The words that start a nested command. -/
  commands : List String := []

/-- An item that is not judged yet. -/
inductive Pending where
  | nothing
  /-- An option whose value has to follow. -/
  | awaiting (switch : Switch)
  | value (switch : Switch) (text : String)
  | positional (text : String)

/-- What has been read of the arguments of a command. -/
structure State where
  /-- The options in order, each with its value; flags have the empty value. -/
  given : List (String × String) := []
  positionals : List String := []
  pending : Pending := .nothing
  /-- Whether `--` has come. -/
  literal : Bool := false

namespace State

/-- Whether an option was given. -/
def has (s : State) (name : String) : Bool := s.given.any (·.1 == name)

/-- The values of an option, in order. -/
def values (s : State) (name : String) : List String :=
  (s.given.filter (·.1 == name)).map Prod.snd

/-- The value of an option. -/
def value? (s : State) (name : String) : Option String := (s.values name).head?

/-- Whether the next argument has to be a value. -/
def isAwaiting (s : State) : Bool :=
  match s.pending with
  | .awaiting _ => true
  | _ => false

end State

namespace Grammar

/-- The test for the next positional argument. -/
def nextTest (g : Grammar) (s : State) : Option (String → Bool) :=
  g.positionals[s.positionals.length]? <|> g.others

/-- Carries out an option with a value; the value of a flag is empty. -/
def accept (s : State) (w : Switch) (text : String) : Except Usage State :=
  let after : State := { s with given := s.given ++ [(w.name, text)] }
  match w.effect with
  | .help => .error .help
  | .version => .error .version
  | .flag => if s.has w.name then .error .error else .ok after
  | .value isValid repeats =>
    if isValid text && (repeats || !s.has w.name) then .ok after else .error .error

/-- Judges what is pending. -/
def settle (g : Grammar) (s : State) : Except Usage State :=
  let calm : State := { s with pending := .nothing }
  match s.pending with
  | .nothing => .ok s
  | .awaiting _ => .error .error
  | .value w text => accept calm w text
  | .positional text =>
    match g.nextTest s with
    | some isValid =>
      if isValid text then .ok { calm with positionals := s.positionals ++ [text] }
      else .error .error
    | none => .error .error

/-- Reads a positional argument. -/
def readPositional (g : Grammar) (s : State) (text : String) : Except Usage State := do
  let s ← g.settle s
  match g.nextTest s with
  | some _ => .ok { s with pending := .positional text }
  | none => .error .error

/-- Reads an option, perhaps with a value attached to it. -/
def readSwitch (g : Grammar) (s : State) (w : Switch) (attached : Option String) :
    Except Usage State :=
  match w.effect, attached with
  | .value .., some text => do accept (← g.settle s) w text
  | .value .., none => do .ok { (← g.settle s) with pending := .awaiting w }
  | _, some _ => .error .error
  | _, none => do accept (← g.settle s) w ""

/-- What is attached to a short form. -/
def attachment? : List Char → Option String
  | [] => none
  | '=' :: cs => some (.ofList cs)
  | cs => some (.ofList cs)

/-- Reads short forms that stand together. -/
def readShort (g : Grammar) (s : State) : List Char → Except Usage State
  | [] => .ok s
  | c :: cs =>
    match g.switches.find? (·.short == some c) with
    | none => .error .error
    | some w =>
      match w.effect with
      | .value .. => g.readSwitch s w (attachment? cs)
      | _ => (g.readSwitch s w none).bind fun s => readShort g s cs

/-- Reads a long form, behind its two dashes. -/
def readLong (g : Grammar) (s : State) (cs : List Char) : Except Usage State :=
  let name := String.ofList (cs.takeWhile (· ≠ '='))
  match g.switches.find? (·.name == name) with
  | none => .error .error
  | some w =>
    match cs.dropWhile (· ≠ '=') with
    | [] => g.readSwitch s w none
    | _ :: text => g.readSwitch s w (some (.ofList text))

/-- Reads one argument. -/
def step (g : Grammar) (s : State) (argument : String) : Except Usage State :=
  if s.literal then g.readPositional s argument
  else if argument = "--" then .ok { s with literal := true }
  else
    match argument.toList with
    -- a single dash is a value, and anything longer that starts with one an option
    | '-' :: '-' :: cs => g.readLong s cs
    | '-' :: c :: cs => g.readShort s (c :: cs)
    | _ =>
      match s.pending with
      | .awaiting w => .ok { s with pending := .value w argument }
      | _ => g.readPositional s argument

/-- Reads arguments up to the word that starts a nested command; gives that word
and what follows it. -/
def scan (g : Grammar) (s : State) : List String →
    Except Usage (State × Option (String × List String))
  | [] => .ok (s, none)
  | argument :: rest =>
    -- an option that waits for its value takes even the word of a command
    if !s.literal && !s.isAwaiting && g.commands.contains argument then
      .ok (s, some (argument, rest))
    else (g.step s argument).bind fun s => scan g s rest

/-- Reads the arguments of a command without nested commands. -/
def readAll (g : Grammar) (arguments : List String) : Except Usage State := do
  let (s, _) ← g.scan {} arguments
  g.settle s

/-! ### Small facts -/

theorem step_of_literal {g : Grammar} {s : State} (h : s.literal = true) (argument : String) :
    g.step s argument = g.readPositional s argument := by
  simp [step, h]

end Grammar

end SymbolRenaming.Arguments
