/-
SymbolRenaming/Proofs/Mappings/Admission.lean

Which pairs are admitted as mappings, and what is said of the others.

Design.  Of several pairs for a symbol the last one counts, in the place of the first
(`Entries.settled`), and the judgement is about these pairs alone.  The class pairs
that count say what each class becomes (`Frozen.classImage`); a class that keeps its
name has no entry in the end, but it becomes the same with the entry and without it
(`renameClass_written`).  A member pair fits if its second member has the types of
the first one with each class replaced.

The refusal is described without a search.  A pair is the first that fails if those
before it pass (`IsFirstFailing`), and a derivation says which pair is named: the first
field that fails, or, where all fields pass, the first method (`Frozen.Refuses`).

Main result: `Frozen.ofPairs_exact`.
-/
import SymbolRenaming.Mappings.Frozen
import SymbolRenaming.Proofs.Basic
import SymbolRenaming.Proofs.Table.Writes

namespace SymbolRenaming

/-! ### The first inconsistency -/

namespace Renaming

variable (r : Renaming)

theorem firstInconsistency_eq_none_iff :
    r.firstInconsistency = none ↔
      (∀ e ∈ r.fieldEntries, r.fieldAgrees e = true) ∧
        ∀ e ∈ r.methodEntries, r.methodAgrees e = true := by
  rw [← find?_not_eq_none_iff, ← find?_not_eq_none_iff, firstInconsistency]
  rcases r.fieldEntries.find? fun e => !r.fieldAgrees e with - | e
  · simp
  · simp

/-- The inconsistency that is named is that of the first field which does not agree,
or, where all fields agree, that of the first method. -/
theorem firstInconsistency_eq_some_iff {err : RenamingError} :
    r.firstInconsistency = some err ↔
      (∃ e, IsFirstFailing (r.fieldAgrees · = true) r.fieldEntries e ∧ fieldError e = err) ∨
      (∀ e ∈ r.fieldEntries, r.fieldAgrees e = true) ∧
        ∃ e, IsFirstFailing (r.methodAgrees · = true) r.methodEntries e ∧ methodError e = err := by
  simp only [← find?_not_eq_some_iff, ← find?_not_eq_none_iff, firstInconsistency]
  rcases r.fieldEntries.find? fun e => !r.fieldAgrees e with - | e
  · simp
  · simp

end Renaming

namespace Frozen

/-! ### The judgement of pairs -/

section Pairs

variable (cs : List (ClassName × ClassName)) (ms : List (MethodSymbol × MethodSymbol))
  (fs : List (FieldSymbol × FieldSymbol))

/-- What a class becomes: the last pair for it decides, and without a pair it stays. -/
def classImage (c : ClassName) : ClassName := (Entries.last? c cs).getD c

/-- The second field belongs to what the owner of the first one becomes. -/
def FieldFits (e : FieldSymbol × FieldSymbol) : Prop := e.2.owner = classImage cs e.1.owner

/-- The second method belongs to what the owner of the first one becomes, and has its
descriptor with each class replaced. -/
def MethodFits (e : MethodSymbol × MethodSymbol) : Prop :=
  e.2.owner = classImage cs e.1.owner ∧
    e.2.descriptor = e.1.descriptor.mapClasses (classImage cs)

/-- What is said of pairs that are not admitted. -/
inductive Refuses : RenamingError → Prop where
  /-- Of the field pairs that count, this one is the first that does not fit. -/
  | field {e : FieldSymbol × FieldSymbol}
      (first : IsFirstFailing (FieldFits cs) (Entries.settled fs) e) :
      Refuses (.inconsistent .field e.1.internalName e.2.internalName)
  /-- All fields fit, and this is the first method that does not. -/
  | method {e : MethodSymbol × MethodSymbol}
      (fields : ∀ x ∈ Entries.settled fs, FieldFits cs x)
      (first : IsFirstFailing (MethodFits cs) (Entries.settled ms) e) :
      Refuses (.inconsistent .method e.1.text e.2.text)

/-- The mappings that are written from pairs, not judged yet. -/
def written : Frozen := ofTables ⟨.ofList cs, .ofList ms, .ofList fs⟩

theorem ofPairs_eq :
    ofPairs cs ms fs
      = (written cs ms fs).contract.firstInconsistency.elim (.ok (written cs ms fs)) .error := by
  simp only [ofPairs, Renaming.checkTypes, written]
  rcases (ofTables ⟨.ofList cs, .ofList ms, .ofList fs⟩).contract.firstInconsistency with - | err
  · rfl
  · rfl

theorem ofPairs_eq_ok_iff {m : Frozen} :
    ofPairs cs ms fs = .ok m ↔
      (written cs ms fs).contract.firstInconsistency = none ∧ written cs ms fs = m := by
  rw [ofPairs_eq]
  rcases (written cs ms fs).contract.firstInconsistency with - | err
  · simp
  · simp

theorem ofPairs_eq_error_iff {err : RenamingError} :
    ofPairs cs ms fs = .error err ↔
      (written cs ms fs).contract.firstInconsistency = some err := by
  rw [ofPairs_eq]
  rcases (written cs ms fs).contract.firstInconsistency with - | err'
  · simp
  · simp

/-- A class that is dropped becomes what it would become with its pair. -/
theorem renameClass_written : (written cs ms fs).contract.renameClass = classImage cs := by
  funext c
  rw [written, renameClass_ofTables, Table.get?_ofList]
  rfl

theorem fieldEntries_written :
    (written cs ms fs).contract.fieldEntries = Entries.settled fs :=
  (SymbolTables.fieldEntries_contract _).trans (Table.entries_ofList_eq_settled fs)

theorem methodEntries_written :
    (written cs ms fs).contract.methodEntries = Entries.settled ms :=
  (SymbolTables.methodEntries_contract _).trans (Table.entries_ofList_eq_settled ms)

theorem fieldAgrees_written_iff (e : FieldSymbol × FieldSymbol) :
    (written cs ms fs).contract.fieldAgrees e = true ↔ FieldFits cs e := by
  rw [Renaming.fieldAgrees, renameClass_written, FieldSymbol.sameTypes_iff]
  exact eq_comm

theorem methodAgrees_written_iff (e : MethodSymbol × MethodSymbol) :
    (written cs ms fs).contract.methodAgrees e = true ↔ MethodFits cs e := by
  rw [Renaming.methodAgrees, renameClass_written, MethodSymbol.sameTypes_iff]
  exact and_congr eq_comm eq_comm

theorem firstInconsistency_written_eq_none_iff :
    (written cs ms fs).contract.firstInconsistency = none ↔
      (∀ e ∈ Entries.settled fs, FieldFits cs e) ∧ ∀ e ∈ Entries.settled ms, MethodFits cs e := by
  rw [Renaming.firstInconsistency_eq_none_iff, fieldEntries_written, methodEntries_written]
  simp only [fieldAgrees_written_iff, methodAgrees_written_iff]

theorem firstInconsistency_written_eq_some_iff {err : RenamingError} :
    (written cs ms fs).contract.firstInconsistency = some err ↔ Refuses cs ms fs err := by
  rw [Renaming.firstInconsistency_eq_some_iff, fieldEntries_written, methodEntries_written]
  simp only [fieldAgrees_written_iff, methodAgrees_written_iff]
  constructor
  · rintro (⟨e, hfirst, rfl⟩ | ⟨hfields, e, hfirst, rfl⟩)
    · exact .field hfirst
    · exact .method hfields hfirst
  · rintro (hfirst | ⟨hfields, hfirst⟩)
    · exact Or.inl ⟨_, hfirst, rfl⟩
    · exact Or.inr ⟨hfields, _, hfirst, rfl⟩

end Pairs

/-! ### The pairs that belong to names -/

section OfNames

variable (cs : List (ClassName × ClassName)) (methodNames : List (MethodSymbol × String))
  (fieldNames : List (FieldSymbol × String))

/-- A method pair in which the types of the second method are derived from the classes. -/
def methodPair (e : MethodSymbol × String) : MethodSymbol × MethodSymbol :=
  (e.1, (e.1.mapClasses (classImage cs)).withName e.2)

/-- A field pair in which the owner of the second field is derived from the classes. -/
def fieldPair (e : FieldSymbol × String) : FieldSymbol × FieldSymbol :=
  (e.1, (e.1.mapClasses (classImage cs)).withName e.2)

theorem ofNames_eq_written :
    ofNames cs methodNames fieldNames
      = written cs (methodNames.map (methodPair cs)) (fieldNames.map (fieldPair cs)) := by
  have himage : (fun c => ((Table.ofList cs).get? c).getD c) = classImage cs := by
    funext c
    rw [Table.get?_ofList]
    rfl
  rw [ofNames, himage]
  rfl

/-- Derived pairs fit, and give what the names give. -/
theorem ofPairs_derived :
    ofPairs cs (methodNames.map (methodPair cs)) (fieldNames.map (fieldPair cs))
      = .ok (ofNames cs methodNames fieldNames) := by
  rw [ofPairs_eq_ok_iff, firstInconsistency_written_eq_none_iff]
  refine ⟨⟨fun e he => ?_, fun e he => ?_⟩, (ofNames_eq_written cs methodNames fieldNames).symm⟩
  · obtain ⟨x, -, rfl⟩ := List.mem_map.1 (Table.mem_of_mem_settled he)
    exact rfl
  · obtain ⟨x, -, rfl⟩ := List.mem_map.1 (Table.mem_of_mem_settled he)
    exact ⟨rfl, rfl⟩

end OfNames

/-! ### The judgement is exact -/

/-- **Pairs are admitted exactly if they fit.**  Whatever the pairs are, those that
count decide: they become mappings if and only if each field and each method among
them fits, and then the tables hold them, without the classes that keep their name.
Otherwise the error names the first field that does not fit or, if all fields fit, the
first method.  Pairs that are derived from new names fit always, and give the mappings
that are built from these names. -/
theorem ofPairs_exact (cs : List (ClassName × ClassName)) :
    (∀ (ms : List (MethodSymbol × MethodSymbol)) (fs : List (FieldSymbol × FieldSymbol)),
      ((∃ m, ofPairs cs ms fs = .ok m) ↔
        (∀ e ∈ Entries.settled fs, FieldFits cs e) ∧
          ∀ e ∈ Entries.settled ms, MethodFits cs e) ∧
      (∀ m, ofPairs cs ms fs = .ok m →
        m.tables.classes.entries = (Entries.settled cs).filter (fun e => e.1 ≠ e.2) ∧
          m.tables.methods.entries = Entries.settled ms ∧
          m.tables.fields.entries = Entries.settled fs ∧ m.inverted = false) ∧
      ∀ err, ofPairs cs ms fs = .error err ↔ Refuses cs ms fs err) ∧
    ∀ (methodNames : List (MethodSymbol × String)) (fieldNames : List (FieldSymbol × String)),
      ofPairs cs (methodNames.map (methodPair cs)) (fieldNames.map (fieldPair cs))
        = .ok (ofNames cs methodNames fieldNames) := by
  refine ⟨fun ms fs => ⟨?_, fun m hm => ?_, fun err => ?_⟩, ofPairs_derived cs⟩
  · simp only [ofPairs_eq_ok_iff, exists_and_left, exists_eq', and_true]
    exact firstInconsistency_written_eq_none_iff cs ms fs
  · obtain ⟨-, rfl⟩ := (ofPairs_eq_ok_iff cs ms fs).1 hm
    refine ⟨?_, Table.entries_ofList_eq_settled ms, Table.entries_ofList_eq_settled fs, rfl⟩
    show (Table.ofList cs).entries.filter _ = _
    rw [Table.entries_ofList_eq_settled]
  · rw [ofPairs_eq_error_iff]
    exact firstInconsistency_written_eq_some_iff cs ms fs

/-- The pair that a field was given last is judged, and the first field that does not
fit is named before all methods. -/
example :
    ofPairs [(⟨"a"⟩, ⟨"z"⟩), (⟨"a"⟩, ⟨"b"⟩)]
      [(⟨⟨"a"⟩, "m", ⟨[], .primitive .void⟩⟩, ⟨⟨"z"⟩, "m", ⟨[], .primitive .void⟩⟩)]
      [(⟨⟨"a"⟩, "f"⟩, ⟨⟨"b"⟩, "g"⟩), (⟨⟨"a"⟩, "h"⟩, ⟨⟨"z"⟩, "h"⟩),
        (⟨⟨"a"⟩, "f"⟩, ⟨⟨"a"⟩, "g"⟩)]
      = .error (.inconsistent .field "a/f" "a/g") := rfl

end Frozen

end SymbolRenaming
