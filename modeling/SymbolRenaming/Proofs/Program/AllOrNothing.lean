/-
SymbolRenaming/Proofs/Program/AllOrNothing.lean

A command line does all that it is asked to do, or nothing.

Design.  A command reads all its files while it is planned, and the plan is carried
out on the files as they were then.  So every failure of the planning, whichever
file or layer it comes from, leaves the files as they were.  Of the plans that are
carried out only one writes, and it writes once: the whole text is put at the place
to which the output path leads (`FileMap.Replaces`), whatever file was there.  If no
file can be made there, nothing is made.

A file that is made changes no directory, so that the output path leads to the same
place afterwards, and the text is read back from it (`read_write_of_creationPlace`).

Main result: `run_all_or_nothing`.
-/
import SymbolRenaming.Outcome
import SymbolRenaming.Proofs.Program.Planning

namespace SymbolRenaming

/-! ### One file -/

namespace FileMap

variable {m : FileMap} {path : String} {place : Place} {bytes : List UInt8}

/-- Where a file can be made: behind a way of directories, under a name that is not
too long and not that of a directory. -/
theorem creationPlace_eq_ok_iff :
    m.creationPlace path = .ok place ↔
      ∃ r directory, route? path = .ok r ∧ m.walk (m.start r) r.way = .ok directory ∧
        r.slash = false ∧ r.last.utf8ByteSize ≤ maxNameSize ∧ place = enter directory r.last ∧
        m.isDirectory place = false := by
  simp only [creationPlace, bind_eq_ok_iff]
  refine exists_congr fun r => ?_
  rw [← exists_and_left]
  refine exists_congr fun directory => and_congr_right fun _ => and_congr_right fun _ => ?_
  rcases hslash : r.slash with - | -
  · simp only [Bool.false_eq_true, if_false, bind_eq_ok_iff, true_and, targetAt]
    constructor
    · rintro ⟨t, ht, h⟩
      split at ht
      · cases ht
      · rename_i hsize
        refine ⟨Nat.le_of_not_lt hsize, ?_⟩
        split at ht
        · -- a directory stands there
          cases ht
          cases h
        · rename_i hdirectory
          have hplace : enter directory r.last = place := by
            split at ht
            · cases ht
              exact Except.ok.inj h
            · cases ht
              exact Except.ok.inj h
          rw [← hplace]
          exact ⟨rfl, Bool.eq_false_iff.2 hdirectory⟩
    · rintro ⟨hsize, rfl, hdirectory⟩
      rw [if_neg (Nat.not_lt.2 hsize), hdirectory]
      -- a file that is there is replaced, and a missing one is made
      rcases m.files.get? (enter directory r.last) with - | old
      · exact ⟨_, rfl, rfl⟩
      · exact ⟨_, rfl, rfl⟩
  · simp

/-- A way of directories is the same way when a file has been made. -/
theorem walk_write {p d : Place} {names : List String} (h : m.walk p names = .ok d) :
    (m.write place bytes).walk p names = .ok d := by
  induction names generalizing p with
  | nil => exact h
  | cons name names ih =>
    rw [walk] at h ⊢
    split at h
    · cases h
    · rename_i hsize
      rw [if_neg hsize, isDirectory_write]
      split at h
      · rename_i hdirectory
        rw [if_pos hdirectory]
        exact ih h
      · split at h
        · cases h
        · cases h

/-- What is written where a path leads is read back from the path. -/
theorem read_write_of_creationPlace (h : m.creationPlace path = .ok place) :
    (m.write place bytes).read path = .ok bytes := by
  obtain ⟨r, directory, hroute, hwalk, hslash, hsize, rfl, hdirectory⟩ :=
    creationPlace_eq_ok_iff.1 h
  have htarget : (m.write (enter directory r.last) bytes).targetAt directory r
      = .ok (.file (enter directory r.last) bytes) := by
    have hget : (m.write (enter directory r.last) bytes).files.get? (enter directory r.last)
        = some bytes := by
      rw [write, Table.get?_insert, if_pos rfl]
    simp only [targetAt, isDirectory_write, hdirectory, hget, if_neg (Nat.not_lt.2 hsize)]
    rfl
  rw [read, hroute]
  simp only [bind, Except.bind, start_write, walk_write hwalk, htarget, pure, Except.pure, hslash]
  rfl

/-- A path from the root leads to the file that a path from the working directory names. -/
example : (ofPaths [] [("a.srg", [67])]).read "/home/../home/a.srg" = .ok [67] := by
  decide +kernel

/-- One file has these bytes, and everything else is as it was. -/
structure Replaces (after before : FileMap) (place : Place) (bytes : List UInt8) : Prop where
  file : after.file? place = some bytes
  frame : ∀ p, p ≠ place → after.file? p = before.file? p
  directories : ∀ p, after.isDirectory p = before.isDirectory p

theorem replaces_write (h : m.isDirectory place = false) :
    (m.write place bytes).Replaces m place bytes where
  file := file?_write h
  frame _ hp := file?_write_of_ne m bytes hp
  directories p := isDirectory_write m place p bytes

end FileMap

/-! ### Plans that are carried out -/

/-- What a plan leaves behind when it is carried out on files: a text, mappings that
are shown, or mappings in a file. -/
inductive Plan.Done (before : FileMap) (o : Outcome) : Plan → Prop
  | printed {text : String} {exitCode : Nat} (hfiles : o.files = before)
      (houtput : o.output = text) : Done before o (.print text exitCode)
  | shown {m : Frozen} {d : Destination} (hpath : d.path = none) (hfiles : o.files = before)
      (houtput : o.output = d.render m) : Done before o (.deliver m d)
  | written {m : Frozen} {d : Destination} {path : String} {place : Place}
      (hpath : d.path = some path) (hplace : before.creationPlace path = .ok place)
      (hfiles : o.files.Replaces before place (d.render m).toUTF8.toList)
      (hread : o.files.read path = .ok (d.render m).toUTF8.toList) (houtput : o.output = "") :
      Done before o (.deliver m d)

/-- The exit code of a plan that is carried out. -/
def Plan.exitCode : Plan → Nat
  | print _ exitCode => exitCode
  | deliver _ _ => 0

/-- No command comes to a plan that ends like a failure. -/
theorem Command.ComesTo.exitCode_ne {read : FileReader} {command : Command} {p : Plan}
    (h : command.ComesTo read p) : p.exitCode ≠ 2 := by
  cases h with
  | check _ _ =>
    rw [Plan.exitCode, CheckResult.exitCode]
    split
    · decide
    · decide
  | _ => exact (Nat.succ_ne_zero 1).symm

/-- A plan is carried out, or everything is as it was. -/
theorem Plan.done_carryOut (files : FileMap) (notices : List Notice) (p : Plan) :
    (p.Done files (p.carryOut files notices) ∧
      (p.carryOut files notices).exitCode = p.exitCode) ∨
    ((p.carryOut files notices).files = files ∧ (p.carryOut files notices).output = "" ∧
      (p.carryOut files notices).exitCode = 2) := by
  cases p with
  | print text exitCode => exact Or.inl ⟨.printed rfl rfl, rfl⟩
  | deliver m d =>
    rw [carryOut]
    split
    · rename_i hpath
      exact Or.inl ⟨.shown hpath rfl rfl, rfl⟩
    · rename_i path hpath
      split
      · -- no file can be made there
        exact Or.inr ⟨rfl, rfl, rfl⟩
      · rename_i place hplace
        obtain ⟨-, -, -, -, -, -, -, hdirectory⟩ := FileMap.creationPlace_eq_ok_iff.1 hplace
        refine Or.inl ⟨.written hpath hplace ?_ ?_ rfl, rfl⟩
        · exact FileMap.replaces_write hdirectory
        · exact FileMap.read_write_of_creationPlace hplace

/-! ### Runs -/

/-- **All or nothing.**  A run that ends with exit code 2 leaves all files as they were
and puts nothing out.  Any other run carries out what the command comes to, by the
files as they were: it prints a text and changes no file, or it puts the whole text of
its result at the place of its output path and changes no other file. -/
theorem run_all_or_nothing (i : Invocation) (files : FileMap) :
    ((i.run files).exitCode = 2 → (i.run files).files = files ∧ (i.run files).output = "") ∧
    ((i.run files).exitCode ≠ 2 → ∃ p, i.command.ComesTo files.read p ∧
      p.Done files (i.run files) ∧ (i.run files).exitCode = p.exitCode) := by
  rcases hplan : Task.value (i.command.plan files.read) with f | p
  · obtain ⟨hfiles, hcode, houtput⟩ := run_of_failure hplan
    refine ⟨fun _ => ⟨hfiles, houtput⟩, fun hne => ?_⟩
    exact absurd hcode hne
  · have hcomes : i.command.ComesTo files.read p := Command.value_plan_eq_ok_iff.1 hplan
    rw [run_of_plan hplan]
    rcases p.done_carryOut files (i.command.plan files.read).run.notices with
      ⟨hdone, hcode⟩ | ⟨hfiles, houtput, hcode⟩
    · refine ⟨fun hfail => ?_, fun _ => ⟨p, hcomes, hdone, hcode⟩⟩
      exact absurd (hcode.symm.trans hfail) hcomes.exitCode_ne
    · refine ⟨fun _ => ⟨hfiles, houtput⟩, fun hne => ?_⟩
      exact absurd hcode hne

/-- The class `a`, which becomes `b`, in a file. -/
def oneFile : FileMap := .ofPaths [] [("a.srg", [67, 76, 58, 32, 97, 32, 98, 10])]

/-- The file is turned round and written to an output. -/
def turned (output : String) : Invocation := ⟨.invert ⟨"a.srg", none⟩ ⟨some output, none⟩, none⟩

/-- The file is replaced by its inverse; nothing happens if the output is to go into a
directory that is not there. -/
theorem run_all_or_nothing_turned :
    (((turned "a.srg").run oneFile).exitCode ≠ 2 ∧
      ∃ p, (turned "a.srg").command.ComesTo oneFile.read p ∧
        p.Done oneFile ((turned "a.srg").run oneFile) ∧
        ((turned "a.srg").run oneFile).exitCode = p.exitCode) ∧
    ((turned "d/a.srg").run oneFile).exitCode = 2 ∧
      ((turned "d/a.srg").run oneFile).files = oneFile ∧
      ((turned "d/a.srg").run oneFile).output = "" := by
  have hdone : ((turned "a.srg").run oneFile).exitCode = 0 := rfl
  have hfail : ((turned "d/a.srg").run oneFile).exitCode = 2 := rfl
  have hne : ((turned "a.srg").run oneFile).exitCode ≠ 2 := by
    rw [hdone]
    decide
  exact ⟨⟨hne, (run_all_or_nothing _ _).2 hne⟩, hfail, (run_all_or_nothing _ _).1 hfail⟩

end SymbolRenaming
