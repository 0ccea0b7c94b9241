/-
SymbolRenaming/Outcome.lean

Outcomes: what a command line does to files and leaves on its two outputs.

Design.  A plan is carried out on a map of files.  A file is made before the
mappings are written, so what a reader of inverse mappings is told comes only
after that.  A failure ends with exit code 2 and leaves everything as it was.
Arguments that start no command end with a text alone.

All that can fail here is reading a file and making one.  Writing to a file that
was made, or to an output, does not fail: a map of files has no end of its room,
and no reader of an output goes away.

Main result: a run whose planning fails changes no file (`run_of_failure`).
-/
import SymbolRenaming.Plan

namespace SymbolRenaming

/-- What a command line leaves behind. -/
structure Outcome where
  exitCode : Nat
  output : String
  /-- What is said about a failure, without the end of its last line. -/
  errors : String
  notices : List Notice
  files : FileMap

/-- The text of mappings at a destination. -/
def Destination.render (d : Destination) (m : Frozen) : String :=
  d.chosenFormat.render m.contract

/-- The outcome of a failure. -/
def Outcome.ofFailure (files : FileMap) (notices : List Notice) (f : Failure) : Outcome :=
  ⟨2, "", f.report, notices, files⟩

/-- Carries a plan out, after the notices that planning gave. -/
def Plan.carryOut (files : FileMap) (notices : List Notice) : Plan → Outcome
  | .print text exitCode => ⟨exitCode, text, "", notices, files⟩
  | .deliver m output =>
    match output.path with
    | none => ⟨0, output.render m, "", notices ++ m.openingNotices, files⟩
    | some path =>
      match files.creationPlace path with
      | .error e => .ofFailure files notices (.creating path e)
      -- the file is there now, so the mappings are read
      | .ok place =>
        ⟨0, "", "", notices ++ m.openingNotices,
          files.write place (output.render m).toUTF8.toList⟩

/-- Runs a command line on files. -/
def Invocation.run (i : Invocation) (files : FileMap) : Outcome :=
  let planned := (i.command.plan files.read).run
  match planned.value with
  | .error f => .ofFailure files planned.notices f
  | .ok plan => plan.carryOut files planned.notices

/-- The outcome of arguments that start no command. -/
def Outcome.ofUsage (files : FileMap) : Arguments.Usage → Outcome
  | .error => ⟨2, "", Invocation.helpText, [], files⟩
  | .help => ⟨0, Invocation.helpText ++ "\n", "", [], files⟩
  | .version => ⟨0, Invocation.versionText ++ "\n", "", [], files⟩

/-- Runs the arguments of a command line on files. -/
def runArguments (arguments : List String) (files : FileMap) : Outcome :=
  match Invocation.ofArguments arguments with
  | .ok i => i.run files
  | .error u => .ofUsage files u

/-! ### Small facts -/

theorem run_of_failure {i : Invocation} {files : FileMap} {f : Failure}
    (h : (i.command.plan files.read).run.value = .error f) :
    (i.run files).files = files ∧ (i.run files).exitCode = 2 ∧ (i.run files).output = "" := by
  simp [Invocation.run, h, Outcome.ofFailure]

theorem run_of_plan {i : Invocation} {files : FileMap} {p : Plan}
    (h : (i.command.plan files.read).run.value = .ok p) :
    i.run files = p.carryOut files (i.command.plan files.read).run.notices := by
  simp only [Invocation.run, h]

theorem runArguments_of_ok {arguments : List String} {files : FileMap} {i : Invocation}
    (h : Invocation.ofArguments arguments = .ok i) :
    runArguments arguments files = i.run files := by
  rw [runArguments, h]

theorem runArguments_of_error {arguments : List String} {files : FileMap} {u : Arguments.Usage}
    (h : Invocation.ofArguments arguments = .error u) :
    runArguments arguments files = .ofUsage files u := by
  rw [runArguments, h]

end SymbolRenaming
