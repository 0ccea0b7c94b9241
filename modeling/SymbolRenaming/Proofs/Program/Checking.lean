/-
SymbolRenaming/Proofs/Program/Checking.lean

What the command `check` reports of a file that can be read.

Design.  A report lists the problems of each kind of entry by one pass over its
table, and each pass gives an entry its one problem or none
(`filterMap_eq_map_filter`).  So what a report says of tables is computed from the
tables alone: their sizes, and a problem for each entry with a bad name, in order
(`SymbolTables.report`).

A report would also tell that members do not fit the classes.  Whatever a format
reads is consistent, in the tagged format also when a class is renamed again behind
its members, since a reader keeps only the names of members and finds their types in
the end.  So the last problem never comes up for a file (`CheckResult.of_contract`).

Main result: `check_is_sound`.
-/
import SymbolRenaming.Outcome
import SymbolRenaming.Proofs.Format.RoundTrip
import SymbolRenaming.Proofs.Program.Planning

namespace SymbolRenaming

open Text

/-! ### Names for source files -/

/-- What the symbols become has names that a source file can have. -/
structure SymbolTables.HasSourceNames (t : SymbolTables) : Prop where
  classes : ∀ e ∈ t.classes.entries, ∀ segment ∈ pieces (· == '/') e.2.chars,
    isIdentifier segment = true
  fields : ∀ e ∈ t.fields.entries, isIdentifierText e.2.name = true
  methods : ∀ e ∈ t.methods.entries,
    isIdentifierText e.2.name = true ∨ e.2.name = "<init>" ∨ e.2.name = "<clinit>"

theorem ClassName.isSourceName_iff {c : ClassName} :
    c.isSourceName = true ↔ ∀ segment ∈ pieces (· == '/') c.chars, isIdentifier segment = true := by
  rw [isSourceName, List.all_eq_true]

theorem isMethodName_iff {name : String} :
    isMethodName name = true ↔
      isIdentifierText name = true ∨ name = "<init>" ∨ name = "<clinit>" := by
  simp only [isMethodName, Bool.or_eq_true, beq_iff_eq]
  constructor
  · rintro ((h | h) | h)
    · exact Or.inr (Or.inl h)
    · exact Or.inr (Or.inr h)
    · exact Or.inl h
  · rintro (h | h | h)
    · exact Or.inr h
    · exact Or.inl (Or.inl h)
    · exact Or.inl (Or.inr h)

/-! ### Reports of tables -/

/-- The problem with a class that gets a bad name. -/
def classProblem (e : ClassName × ClassName) : Problem :=
  ⟨"class", e.1.text, e.2.text, "renamed class is not a valid Java name"⟩

/-- The problem with a field that gets a bad name. -/
def fieldProblem (e : FieldSymbol × FieldSymbol) : Problem :=
  ⟨"field", e.1.internalName, e.2.internalName, "renamed field is not a valid Java identifier"⟩

/-- The problem with a method that gets a bad name. -/
def methodProblem (e : MethodSymbol × MethodSymbol) : Problem :=
  ⟨"method", e.1.text, e.2.text, "renamed method is not a valid Java identifier"⟩

namespace SymbolTables

/-- One problem for each entry with a bad name: classes, then fields, then methods,
each in the order of its table. -/
def nameProblems (t : SymbolTables) : List Problem :=
  (t.classes.entries.filter fun e => !e.2.isSourceName).map classProblem
  ++ (t.fields.entries.filter fun e => !isIdentifierText e.2.name).map fieldProblem
  ++ (t.methods.entries.filter fun e => !isMethodName e.2.name).map methodProblem

/-- The report of tables whose members fit the classes. -/
def report (t : SymbolTables) : CheckResult :=
  ⟨t.classes.size, t.fields.size, t.methods.size, t.nameProblems⟩

variable {t : SymbolTables}

/-- Consistent tables have no problem but those with their names. -/
theorem of_contract (h : t.contract.checkTypes = .ok ()) :
    CheckResult.of t.contract = t.report := by
  have hconsistency : consistencyProblem? t.contract = none := by
    rw [consistencyProblem?, h]
  have hproblems : (CheckResult.of t.contract).problems = t.nameProblems := by
    simp only [CheckResult.of, hconsistency, Option.toList_none, List.append_nil,
      classEntries_contract, fieldEntries_contract, methodEntries_contract]
    rw [nameProblems, ← filterMap_eq_map_filter, ← filterMap_eq_map_filter,
      ← filterMap_eq_map_filter]
    rfl
  -- the report counts the keys that are listed
  have hsize {α β : Type} (s : Table α β) : s.keys.length = s.size := List.length_map _
  rw [report, ← hproblems, ← hsize, ← hsize, ← hsize]
  rfl

/-- No problem with a name is one of the mappings as a whole. -/
theorem kind_ne_consistency {p : Problem} (hp : p ∈ t.nameProblems) : p.kind ≠ "consistency" := by
  rw [nameProblems, List.mem_append, List.mem_append] at hp
  rcases hp with (hp | hp) | hp
  · obtain ⟨e, -, rfl⟩ := List.mem_map.1 hp
    show "class" ≠ "consistency"
    decide
  · obtain ⟨e, -, rfl⟩ := List.mem_map.1 hp
    show "field" ≠ "consistency"
    decide
  · obtain ⟨e, -, rfl⟩ := List.mem_map.1 hp
    show "method" ≠ "consistency"
    decide

/-- There is no problem exactly if all names are good. -/
theorem nameProblems_eq_nil_iff : t.nameProblems = [] ↔ t.HasSourceNames := by
  simp only [nameProblems, List.append_eq_nil_iff, List.map_eq_nil_iff, List.filter_eq_nil_iff,
    Bool.not_eq_true', Bool.not_eq_false, ClassName.isSourceName_iff, isMethodName_iff]
  constructor
  · rintro ⟨⟨hclasses, hfields⟩, hmethods⟩
    exact ⟨hclasses, hfields, hmethods⟩
  · rintro ⟨hclasses, hfields, hmethods⟩
    exact ⟨⟨hclasses, hfields⟩, hmethods⟩

end SymbolTables

/-! ### The command -/

variable {files : FileMap} {input : Input} {m : Frozen}

/-- What is read from a file is consistent. -/
theorem ReadsAs.checkTypes {read : FileReader} {path : String} {format : Option Format}
    (h : ReadsAs read path format m) : m.contract.checkTypes = .ok () := by
  obtain ⟨f, bytes, -, -, hparse⟩ := h
  exact (Format.representable_of_readLines hparse).checkTypes

/-- A check of a file that can be read prints the report of its tables. -/
theorem run_check {i : Invocation} {asData : Bool} (hcommand : i.command = .check input asData)
    (hreads : ReadsAs files.read input.path input.format m) :
    ∃ notices, i.run files
      = ⟨m.tables.report.exitCode, m.tables.report.text asData, "", notices, files⟩ := by
  have hplan : Task.value (i.command.plan files.read)
      = .ok (.print (m.tables.report.text asData) m.tables.report.exitCode) := by
    rw [Command.value_plan_eq_ok_iff, hcommand,
      ← SymbolTables.of_contract (t := m.tables) hreads.checkTypes]
    exact .check asData hreads
  exact ⟨_, run_of_plan hplan⟩

/-- **A check is sound on every file that can be read.**  It reports one problem for
each entry that gets a bad name, in order, and the sizes of the tables; members that do
not fit the classes are never reported.  It ends with exit code 0 if all names are good,
and with exit code 1 otherwise. -/
theorem check_is_sound {i : Invocation} {asData : Bool} (hcommand : i.command = .check input asData)
    (hreads : ReadsAs files.read input.path input.format m) :
    ∃ report : CheckResult,
      ((i.run files).output = report.text asData ∧ (i.run files).errors = "" ∧
        (i.run files).files = files) ∧
      (report.classes = m.tables.classes.size ∧ report.fields = m.tables.fields.size ∧
        report.methods = m.tables.methods.size) ∧
      report.problems = m.tables.nameProblems ∧
      (∀ p ∈ report.problems, p.kind ≠ "consistency") ∧
      ((i.run files).exitCode = 0 ↔ m.tables.HasSourceNames) ∧
      ((i.run files).exitCode = 1 ↔ ¬ m.tables.HasSourceNames) := by
  obtain ⟨notices, hrun⟩ := run_check hcommand hreads
  rw [hrun]
  refine ⟨m.tables.report, ⟨rfl, rfl, rfl⟩, ⟨rfl, rfl, rfl⟩, rfl, ?_, ?_, ?_⟩
  · intro p hp
    exact SymbolTables.kind_ne_consistency hp
  · rw [← SymbolTables.nameProblems_eq_nil_iff]
    exact CheckResult.exitCode_eq_zero_iff
  · rw [← SymbolTables.nameProblems_eq_nil_iff]
    exact CheckResult.exitCode_eq_one_iff

/-- A file in which a class is renamed again behind its field; both get a bad name. -/
def renamedAgain : FileMap :=
  .ofPaths [] [("a.srg", "CL: a b\nFD: a/f b/2\nCL: a p/1\n".toList.map fun c => .ofNat c.toNat)]

/-- What the file says in the end. -/
def renamedAgainEntries : Frozen := .ofNames [(⟨"a"⟩, ⟨"p/1"⟩)] [] [(⟨⟨"a"⟩, "f"⟩, "2")]

/-- The file is checked. -/
def checking : Invocation := ⟨.check ⟨"a.srg", none⟩ false, none⟩

theorem check_is_sound_renamedAgain :
    ReadsAs renamedAgain.read "a.srg" none renamedAgainEntries ∧
      (∃ report : CheckResult, (checking.run renamedAgain).output = report.text false ∧
        report.problems
          = [⟨"class", "a", "p/1", "renamed class is not a valid Java name"⟩,
            ⟨"field", "a/f", "p/1/2", "renamed field is not a valid Java identifier"⟩]) ∧
      (checking.run renamedAgain).exitCode = 1 ∧
      ¬ renamedAgainEntries.tables.HasSourceNames := by
  have hreads : ReadsAs renamedAgain.read "a.srg" none renamedAgainEntries :=
    ⟨.tagged, _, rfl, rfl, rfl⟩
  have hproblems : renamedAgainEntries.tables.nameProblems
      = [⟨"class", "a", "p/1", "renamed class is not a valid Java name"⟩,
        ⟨"field", "a/f", "p/1/2", "renamed field is not a valid Java identifier"⟩] := by
    decide +kernel
  have hcode : (checking.run renamedAgain).exitCode = 1 := by
    decide +kernel
  have hcommand : checking.command = .check ⟨"a.srg", none⟩ false := rfl
  obtain ⟨report, ⟨houtput, -, -⟩, -, hreport, -, -, hone⟩ := check_is_sound hcommand hreads
  exact ⟨hreads, ⟨report, houtput, hreport.trans hproblems⟩, hcode, hone.1 hcode⟩

end SymbolRenaming
