/-
SymbolRenaming/Main.lean

The command line program.

Design.  Only this module touches files and the two outputs.  It reads the
files that a command names, and then those that its chain file names; the
command is planned from what was read, and the plan is carried out.  What is
then put out is an outcome.  Only mappings that go into a file are written here,
where writing can fail.
-/
import SymbolRenaming.Data.Notice
import SymbolRenaming.LogFilter
import SymbolRenaming.Outcome

namespace SymbolRenaming.Program

/-- The reason for a failure of the system. -/
def failureOf : IO.Error → IoFailure
  | .noFileOrDirectory .. => .notFound
  | .inappropriateType _ 20 _ => .notADirectory
  | .inappropriateType _ 21 _ => .isADirectory
  | e => .other (toString e)

/-- Reads a file to its end. -/
def readFile (path : String) : IO (Except FileFailure (List UInt8)) := do
  match ← (IO.FS.Handle.mk path .read).toBaseIO with
  | .error e => pure (.error (.atOpening (failureOf e)))
  | .ok handle =>
    match ← handle.readBinToEnd.toBaseIO with
    | .error e => pure (.error (.atReading (failureOf e)))
    | .ok bytes => pure (.ok bytes.toList)

/-- Files that were read, as a reader. -/
def readerOf (files : List (String × Except FileFailure (List UInt8))) : FileReader :=
  fun path =>
    match files.find? (·.1 == path) with
    | some file => file.2
    | none => .error (.atOpening .notFound)

/-- Reads files. -/
def readFiles (paths : List String) : IO (List (String × Except FileFailure (List UInt8))) :=
  paths.mapM fun path => do pure (path, ← readFile path)

/-- Reports notices. -/
def report (asData : Bool) (notices : List Notice) : IO Unit := do
  let errors ← IO.getStderr
  for n in notices do
    errors.putStr ((if asData then n.toData.toText else n.line) ++ "\n")

/-- Puts out what an outcome leaves on the two outputs, and gives its exit code. -/
def putOut (log : List Notice → IO Unit) (o : Outcome) : IO UInt32 := do
  log o.notices
  (← IO.getStdout).putStr o.output
  unless o.errors.isEmpty do (← IO.getStderr).putStr (o.errors ++ "\n")
  pure o.exitCode.toUInt32

/-- Carries a plan out, after the notices that planning gave. -/
def carryOut (log : List Notice → IO Unit) (notices : List Notice) : Plan → IO UInt32
  | .deliver m output@⟨some path, _⟩ => do
    match ← (IO.FS.Handle.mk path .write).toBaseIO with
    | .error e => putOut log (.ofFailure {} notices (.creating path (failureOf e)))
    | .ok handle =>
      -- the file is there now, so the mappings are read
      let notices := notices ++ m.openingNotices
      let writing := do
        handle.write (output.render m).toUTF8
        handle.flush
      match ← writing.toBaseIO with
      | .error e => putOut log (.ofFailure {} notices (.writing path (failureOf e)))
      | .ok () => putOut log ⟨0, "", "", notices, {}⟩
  -- everything else makes no file
  | plan => putOut log (plan.carryOut {} notices)

/-- Runs a command line. -/
def run (i : Invocation) : IO UInt32 := do
  let named ← readFiles i.command.namedPaths
  let chainFile := i.command.chainFile? (readerOf named)
  let layers ← readFiles ((chainFile.map ChainFile.layerPaths).getD [])
  let logging := (chainFile.map ChainFile.logging).getD {}
  let directives := LogFilter.effective (i.logLevel.getD logging.level) (← IO.getEnv "RUST_LOG")
  let log := fun notices => report logging.json (notices.filter (LogFilter.lets directives))
  let planned := (i.command.plan (readerOf (named ++ layers))).run
  match planned.value with
  | .error f => putOut log (.ofFailure {} planned.notices f)
  | .ok plan => carryOut log planned.notices plan

end SymbolRenaming.Program

open SymbolRenaming Program in
/-- Reads the command line and runs it. -/
def main (arguments : List String) : IO UInt32 :=
  match Invocation.ofArguments arguments with
  | .ok i => run i
  | .error u => putOut (report false) (.ofUsage {} u)
