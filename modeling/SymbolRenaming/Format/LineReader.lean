/-
SymbolRenaming/Format/LineReader.lean

Reading mappings line by line, whatever the format.

Design.  A reader has a state, a step for each line and a last step.  The run
numbers the lines from one, stops at the first line that is refused and keeps
the notices given up to there.  A line that is not UTF-8 is refused when it is
reached.

Main results: what comes after a refused line does not matter, and a run over
lines that are all accepted is a fold (`value_readLines_append`).
-/
import SymbolRenaming.IoFailure
import SymbolRenaming.Mappings
import SymbolRenaming.Text.Blank

namespace SymbolRenaming

/-- Why a mappings file cannot be read. -/
inductive ReadError where
  /-- A line is no record of the format. -/
  | malformedLine (number : Nat) (line : String)
  /-- A line is a record that does not fit. -/
  | invalidEntry (number : Nat) (line : String) (cause : RenamingError)
  /-- The input itself fails. -/
  | input (failure : IoFailure)
  deriving DecidableEq, Repr

namespace ReadError

/-- The wording of an error, without its cause. -/
def message : ReadError → String
  | malformedLine number line => s!"malformed mappings line {number}: `{line}`"
  | invalidEntry number line _ => s!"invalid entry on line {number}: `{line}`"
  | input failure => failure.message

/-- The wording of an error and then of its cause. -/
def report : ReadError → String
  | invalidEntry number line cause =>
    (invalidEntry number line cause).message ++ ": " ++ cause.message
  | e => e.message

end ReadError

/-- What a line holds. -/
inductive LineContent (ρ : Type) where
  | blank
  | record (r : ρ)
  | malformed
  deriving DecidableEq, Repr

/-- Sorts a line by its columns: a line without columns is blank, as is one
whose first column starts a comment. -/
def LineContent.ofLine {ρ : Type} (recordOf : List String → Option ρ) (line : String) :
    LineContent ρ :=
  match Text.columns line with
  | [] => .blank
  | first :: rest =>
    if first.toList.head? = some '#' then .blank
    else
      match recordOf (first :: rest) with
      | some r => .record r
      | none => .malformed

/-- A reader of records: a state, how a record changes it, and what comes out. -/
structure LineReader (ρ σ : Type) where
  recordOf : List String → Option ρ
  start : σ
  accept : σ → Nat → ρ → Except RenamingError (σ × List Notice)
  finish : σ → Noted Frozen

namespace LineReader

variable {ρ σ : Type}

/-- Reads one line. -/
def step (r : LineReader ρ σ) (s : σ) (number : Nat) (line : String) :
    Except ReadError (σ × List Notice) :=
  match LineContent.ofLine r.recordOf line with
  | .blank => .ok (s, [])
  | .malformed => .error (.malformedLine number line)
  | .record record =>
    match r.accept s number record with
    | .ok next => .ok next
    | .error e => .error (.invalidEntry number line e)

/-- Reads lines from a state on; `number` is the number of the first of them,
and `none` stands for a line that is not UTF-8. -/
def readLines (r : LineReader ρ σ) (s : σ) (number : Nat) :
    List (Option String) → Noted (Except ReadError σ)
  | [] => ⟨.ok s, []⟩
  | none :: _ => ⟨.error (.input .invalidUtf8), []⟩
  | some line :: rest =>
    match r.step s number line with
    | .error e => ⟨.error e, []⟩
    | .ok (next, notices) =>
      let after := readLines r next (number + 1) rest
      ⟨after.value, notices ++ after.notices⟩

/-- Reads all lines of an input. -/
def read (r : LineReader ρ σ) (lines : List (Option String)) : Noted (Except ReadError Frozen) :=
  let run := r.readLines r.start 1 lines
  match run.value with
  | .error e => ⟨.error e, run.notices⟩
  | .ok s =>
    let result := r.finish s
    ⟨.ok result.value, run.notices ++ result.notices⟩

/-- Reading two stretches of lines is reading the first and then the second. -/
theorem value_readLines_append (r : LineReader ρ σ) (s : σ) (number : Nat)
    (xs ys : List (Option String)) :
    (r.readLines s number (xs ++ ys)).value
      = match (r.readLines s number xs).value with
        | .error e => .error e
        | .ok s' => (r.readLines s' (number + xs.length) ys).value := by
  induction xs generalizing s number with
  | nil => rfl
  | cons x xs ih =>
    rcases x with - | line
    · rfl
    · rcases e : r.step s number line with err | ⟨next, notices⟩
      · simp [readLines, e]
      · simp only [List.cons_append, readLines, e, ih, List.length_cons]
        rw [Nat.add_right_comm, Nat.add_assoc]

end LineReader

end SymbolRenaming
