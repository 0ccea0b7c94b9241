/-
SymbolRenaming/Proofs/Format/RoundTrip.lean

Writing mappings and reading them back.

Design.  The columns of every line that is written for representable mappings
are words, so the reader gets the columns back.  It then goes through the three
sections one after the other, and each section fills one table of its state:
the classes, the new names of fields, the new names of methods.  In the tagged
format a member is checked against the classes, which are complete when the
members come.  From the three tables the mappings are built again.

The other way round, all that a reader has accepted has readable parts, by the
invariant of its edits, so that what it gives is representable.

Main result: `parse_toLines_and_representable`.
-/
import SymbolRenaming.Proofs.Format.Representable

namespace SymbolRenaming.Format

open Text

/-! ### Columns -/

/-- The columns of the line for a class. -/
def classColumns : Format → ClassName × ClassName → List String
  | tagged, e => ["CL:", e.1.text, e.2.text]
  | compact, e => [e.1.text, e.2.text]

/-- The columns of the line for a field. -/
def fieldColumns : Format → FieldSymbol × FieldSymbol → List String
  | tagged, e => ["FD:", e.1.internalName, e.2.internalName]
  | compact, e => [e.1.owner.text, e.1.name, e.2.name]

/-- The columns of the line for a method. -/
def methodColumns : Format → MethodSymbol × MethodSymbol → List String
  | tagged, e => ["MD:", e.1.internalName, e.1.descriptor.text, e.2.internalName,
      e.2.descriptor.text]
  | compact, e => [e.1.owner.text, e.1.name, e.1.descriptor.text, e.2.name]

theorem classLine_eq (f : Format) (e : ClassName × ClassName) :
    f.classLine e = " ".intercalate (f.classColumns e) := by
  cases f with
  | tagged =>
    rw [← String.toList_inj]
    simp [classLine, classPieces, Tagged.classPieces, classColumns, String.intercalate_cons_cons]
  | compact =>
    rw [← String.toList_inj]
    simp [classLine, classPieces, Compact.classPieces, classColumns, String.intercalate_cons_cons]

theorem fieldLine_eq (f : Format) (e : FieldSymbol × FieldSymbol) :
    f.fieldLine e = " ".intercalate (f.fieldColumns e) := by
  cases f with
  | tagged =>
    rw [← String.toList_inj]
    simp [fieldLine, fieldPieces, Tagged.fieldPieces, fieldColumns, FieldSymbol.internalName,
      String.intercalate_cons_cons]
  | compact =>
    rw [← String.toList_inj]
    simp [fieldLine, fieldPieces, Compact.fieldPieces, fieldColumns, String.intercalate_cons_cons]

theorem methodLine_eq (f : Format) (e : MethodSymbol × MethodSymbol) :
    f.methodLine e = " ".intercalate (f.methodColumns e) := by
  cases f with
  | tagged =>
    rw [← String.toList_inj]
    simp [methodLine, methodPieces, Tagged.methodPieces, methodColumns,
      String.intercalate_cons_cons]
  | compact =>
    rw [← String.toList_inj]
    simp [methodLine, methodPieces, Compact.methodPieces, methodColumns,
      String.intercalate_cons_cons]

theorem isWord_tags : IsWord "CL:" ∧ IsWord "FD:" ∧ IsWord "MD:" := by
  decide

namespace Representable

variable {f : Format} {m : Frozen}

theorem isMemberName_fields (h : tagged.Representable m) {e : FieldSymbol × FieldSymbol}
    (he : e ∈ m.contract.fieldEntries) :
    IsMemberName e.1.owner e.1.name ∧ IsMemberName e.2.owner e.2.name := by
  obtain ⟨ho, ho'⟩ := h.fieldOwners e he
  obtain ⟨hn, hn'⟩ := h.fieldNames e he
  exact ⟨⟨ho, hn.isWord.ne_empty, hn.not_mem rfl⟩, ⟨ho', hn'.isWord.ne_empty, hn'.not_mem rfl⟩⟩

theorem isMemberName_methods (h : tagged.Representable m) {e : MethodSymbol × MethodSymbol}
    (he : e ∈ m.contract.methodEntries) :
    IsMemberName e.1.owner e.1.name ∧ IsMemberName e.2.owner e.2.name := by
  obtain ⟨ho, ho'⟩ := h.methodOwners e he
  obtain ⟨hn, hn'⟩ := h.methodNames e he
  exact ⟨⟨ho, hn.isWord.ne_empty, hn.not_mem rfl⟩, ⟨ho', hn'.isWord.ne_empty, hn'.not_mem rfl⟩⟩

theorem readable_descriptors (h : f.Representable m) {e : MethodSymbol × MethodSymbol}
    (he : e ∈ m.contract.methodEntries) : e.1.descriptor.Readable ∧ e.2.descriptor.Readable := by
  obtain ⟨hd, hd'⟩ := h.descriptors e he
  exact ⟨Descriptor.exists_parse_iff.1 hd, Descriptor.exists_parse_iff.1 hd'⟩

theorem isWord_classColumns (h : f.Representable m) {e : ClassName × ClassName}
    (he : e ∈ m.contract.classEntries) : ∀ w ∈ f.classColumns e, IsWord w := by
  obtain ⟨hc, hd⟩ := h.classes e he
  have hc' := ClassName.isWord_text hc
  have hd' := ClassName.isWord_text hd
  cases f with
  | tagged =>
    simp only [classColumns, List.mem_cons, List.not_mem_nil, or_false, forall_eq_or_imp, forall_eq]
    exact ⟨isWord_tags.1, hc', hd'⟩
  | compact =>
    simp only [classColumns, List.mem_cons, List.not_mem_nil, or_false, forall_eq_or_imp, forall_eq]
    exact ⟨hc', hd'⟩

theorem isWord_fieldColumns (h : f.Representable m) {e : FieldSymbol × FieldSymbol}
    (he : e ∈ m.contract.fieldEntries) : ∀ w ∈ f.fieldColumns e, IsWord w := by
  obtain ⟨hn, hn'⟩ := h.fieldNames e he
  cases f with
  | tagged =>
    obtain ⟨hx, hy⟩ := h.isMemberName_fields he
    simp only [fieldColumns, List.mem_cons, List.not_mem_nil, or_false, forall_eq_or_imp, forall_eq]
    exact ⟨isWord_tags.2.1, hx.isWord hn.isWord, hy.isWord hn'.isWord⟩
  | compact =>
    have ho := ClassName.isWord_text (h.fieldOwners e he).1
    simp only [fieldColumns, List.mem_cons, List.not_mem_nil, or_false, forall_eq_or_imp, forall_eq]
    exact ⟨ho, hn.isWord, hn'.isWord⟩

theorem isWord_methodColumns (h : f.Representable m) {e : MethodSymbol × MethodSymbol}
    (he : e ∈ m.contract.methodEntries) : ∀ w ∈ f.methodColumns e, IsWord w := by
  obtain ⟨hn, hn'⟩ := h.methodNames e he
  obtain ⟨hd, hd'⟩ := h.readable_descriptors he
  cases f with
  | tagged =>
    obtain ⟨hx, hy⟩ := h.isMemberName_methods he
    simp only [methodColumns, List.mem_cons, List.not_mem_nil, or_false, forall_eq_or_imp,
      forall_eq]
    exact ⟨isWord_tags.2.2, hx.isWord hn.isWord, hd.isWord_text, hy.isWord hn'.isWord,
      hd'.isWord_text⟩
  | compact =>
    have ho := ClassName.isWord_text (h.methodOwners e he).1
    simp only [methodColumns, List.mem_cons, List.not_mem_nil, or_false, forall_eq_or_imp,
      forall_eq]
    exact ⟨ho, hn.isWord, hd.isWord_text, hn'.isWord⟩

end Representable

/-! ### Lines -/

/-- The records of mappings, one text each, in the order of writing. -/
def recordLines (f : Format) (r : Renaming) : List String :=
  r.classEntries.map f.classLine ++ r.fieldEntries.map f.fieldLine
    ++ r.methodEntries.map f.methodLine

theorem Representable.isLine {f : Format} {m : Frozen} (h : f.Representable m) :
    ∀ line ∈ f.recordLines m.contract, IsLine line := by
  intro line hline
  rw [recordLines, List.mem_append, List.mem_append] at hline
  rcases hline with (hline | hline) | hline
  · obtain ⟨e, he, rfl⟩ := List.mem_map.1 hline
    rw [classLine_eq]
    exact isLine_intercalate (by cases f <;> simp [classColumns]) (h.isWord_classColumns he)
  · obtain ⟨e, he, rfl⟩ := List.mem_map.1 hline
    rw [fieldLine_eq]
    exact isLine_intercalate (by cases f <;> simp [fieldColumns]) (h.isWord_fieldColumns he)
  · obtain ⟨e, he, rfl⟩ := List.mem_map.1 hline
    rw [methodLine_eq]
    exact isLine_intercalate (by cases f <;> simp [methodColumns]) (h.isWord_methodColumns he)

/-- The pieces of a section make up its lines. -/
theorem flatMap_pieces {α : Type} (pieces : α → List String) (es : List α) :
    (es.map fun e => pieces e ++ ["\n"]).flatten.flatMap String.toList
      = ((es.map fun e => String.join (pieces e)).map fun line =>
          line.toList ++ ['\n']).flatten := by
  induction es with
  | nil => rfl
  | cons e es ih =>
    have hrecord : (pieces e ++ ["\n"]).flatMap String.toList
        = (String.join (pieces e)).toList ++ ['\n'] := by
      rw [List.flatMap_append, String.toList_join, List.flatMap_def]
      rfl
    rw [List.map_cons, List.flatten_cons, List.flatMap_append, hrecord, ih]
    rfl

theorem renderChars_eq (f : Format) (r : Renaming) :
    f.renderChars r = ((f.recordLines r).map fun line => line.toList ++ ['\n']).flatten := by
  simp only [renderChars, sections, List.flatten_cons, List.flatten_nil, List.flatMap_append,
    List.append_nil, flatMap_pieces, recordLines, List.map_append, List.flatten_append,
    List.append_assoc]
  rfl

/-- The lines of representable mappings are their records. -/
theorem Representable.toLines_eq {f : Format} {m : Frozen} (h : f.Representable m) :
    f.toLines m.contract = f.recordLines m.contract := by
  rw [toLines, render, renderChars_eq, lines_records h.isLine]

/-- The lines are found again when they are joined. -/
theorem Representable.lines_intercalate {f : Format} {m : Frozen} (h : f.Representable m) :
    lines ("\n".intercalate (f.toLines m.contract)) = f.recordLines m.contract := by
  rw [h.toLines_eq, Text.lines_intercalate h.isLine]

/-! ### Reading what was written -/

/-- A reader fills its tables section by section, if it enters every class into
its class table and, from then on, every new name into the table for it. -/
theorem value_readLines_recordLines {ρ σ : Type} {f : Format} {m : Frozen} {r : LineReader ρ σ}
    {mk : Table ClassName ClassName → Table MethodSymbol String → Table FieldSymbol String → σ}
    (hclass : ∀ t number, ∀ e ∈ m.contract.classEntries, ∃ notices,
      r.step (mk t .empty .empty) number (f.classLine e)
        = .ok (mk (t.insert e.1 e.2) .empty .empty, notices))
    (hfield : ∀ t number, ∀ e ∈ m.contract.fieldEntries, ∃ notices,
      r.step (mk m.tables.classes .empty t) number (f.fieldLine e)
        = .ok (mk m.tables.classes .empty (t.insert e.1 e.2.name), notices))
    (hmethod : ∀ t number, ∀ e ∈ m.contract.methodEntries, ∃ notices,
      r.step (mk m.tables.classes t m.fieldNames) number (f.methodLine e)
        = .ok (mk m.tables.classes (t.insert e.1 e.2.name) m.fieldNames, notices)) :
    (r.readLines (mk .empty .empty .empty) 1 ((f.recordLines m.contract).map some)).value
      = .ok (mk m.tables.classes m.methodNames m.fieldNames) := by
  have hclasses : m.contract.classEntries.foldl (fun t e => t.insert e.1 e.2) .empty
      = m.tables.classes := by
    rw [Frozen.classEntries_contract]
    exact Table.ofList_entries _
  have hfields : m.contract.fieldEntries.foldl (fun t e => t.insert e.1 e.2.name) .empty
      = m.fieldNames := by
    rw [Frozen.contract, SymbolTables.fieldEntries_contract]
    exact Table.foldl_insert_mapValues _ FieldSymbol.name
  have hmethods : m.contract.methodEntries.foldl (fun t e => t.insert e.1 e.2.name) .empty
      = m.methodNames := by
    rw [Frozen.contract, SymbolTables.methodEntries_contract]
    exact Table.foldl_insert_mapValues _ MethodSymbol.name
  -- each section is a fold from the table it starts with
  have h1 := fun number => r.value_readLines_map hclass .empty number
  have h2 := fun number => r.value_readLines_map hfield .empty number
  have h3 := fun number => r.value_readLines_map hmethod .empty number
  simp only [hclasses] at h1
  simp only [hfields] at h2
  simp only [hmethods] at h3
  -- the sections come one after the other
  have hlines : (f.recordLines m.contract).map some
      = (m.contract.classEntries.map fun e => some (f.classLine e))
        ++ ((m.contract.fieldEntries.map fun e => some (f.fieldLine e))
          ++ m.contract.methodEntries.map fun e => some (f.methodLine e)) := by
    simp [recordLines, Function.comp_def]
  rw [hlines, LineReader.value_readLines_append, h1]
  show (r.readLines _ _ (_ ++ _)).value = _
  rw [LineReader.value_readLines_append, h2]
  exact h3 _

section Tagged

variable {m : Frozen} (h : tagged.Representable m)
include h

theorem step_classLine_tagged {e : ClassName × ClassName} (he : e ∈ m.contract.classEntries)
    (cs : Table ClassName ClassName) (ms : Table MethodSymbol String)
    (fs : Table FieldSymbol String) (number : Nat) :
    ∃ notices, Tagged.reader.step ⟨cs, ms, fs⟩ number (tagged.classLine e)
      = .ok (⟨cs.insert e.1 e.2, ms, fs⟩, notices) := by
  obtain ⟨hc, hd⟩ := h.classes e he
  -- an identity record would take the class out of the table
  have hne : e.1 ≠ e.2 := by
    rw [Frozen.classEntries_contract] at he
    exact m.ne_of_mem_tables e he
  have hset : Editable.setClass ⟨cs, ms, fs⟩ e.1 e.2 = ⟨cs.insert e.1 e.2, ms, fs⟩ := if_neg hne
  refine ⟨Tagged.overrideNotices ⟨cs, ms, fs⟩ number e.1 e.2, ?_⟩
  rw [classLine_eq, ← hset]
  refine Tagged.reader.step_intercalate (h.isWord_classColumns he) (by decide) rfl ?_
  exact Tagged.acceptClass_eq_ok_iff.2 ⟨e.1, e.2, ⟨rfl, hc⟩, ⟨rfl, hd⟩, rfl, rfl⟩

theorem step_fieldLine_tagged {e : FieldSymbol × FieldSymbol} (he : e ∈ m.contract.fieldEntries)
    (ms : Table MethodSymbol String) (fs : Table FieldSymbol String) (number : Nat) :
    ∃ notices, Tagged.reader.step ⟨m.tables.classes, ms, fs⟩ number (tagged.fieldLine e)
      = .ok (⟨m.tables.classes, ms, fs.insert e.1 e.2.name⟩, notices) := by
  obtain ⟨hx, hy⟩ := h.isMemberName_fields he
  have hagree : m.contract.renameClass e.1.owner = e.2.owner := by
    refine Frozen.owner_eq_of_mem_fields h.checkTypes ?_
    rwa [← SymbolTables.fieldEntries_contract]
  refine ⟨[], ?_⟩
  rw [fieldLine_eq]
  refine Tagged.reader.step_intercalate (h.isWord_fieldColumns he) (by decide) rfl ?_
  refine map_pair_eq_ok_iff.2 ⟨?_, rfl⟩
  exact Tagged.acceptField_eq_ok_iff.2 ⟨e.1, e.2, ⟨rfl, hx⟩, ⟨rfl, hy⟩, hagree, rfl⟩

theorem step_methodLine_tagged {e : MethodSymbol × MethodSymbol}
    (he : e ∈ m.contract.methodEntries) (ms : Table MethodSymbol String)
    (fs : Table FieldSymbol String) (number : Nat) :
    ∃ notices, Tagged.reader.step ⟨m.tables.classes, ms, fs⟩ number (tagged.methodLine e)
      = .ok (⟨m.tables.classes, ms.insert e.1 e.2.name, fs⟩, notices) := by
  obtain ⟨hx, hy⟩ := h.isMemberName_methods he
  obtain ⟨hd, hd'⟩ := h.readable_descriptors he
  have hagree : m.contract.renameClass e.1.owner = e.2.owner ∧
      e.1.descriptor.mapClasses m.contract.renameClass = e.2.descriptor := by
    refine Frozen.types_eq_of_mem_methods h.checkTypes ?_
    rwa [← SymbolTables.methodEntries_contract]
  refine ⟨[], ?_⟩
  rw [methodLine_eq]
  refine Tagged.reader.step_intercalate (h.isWord_methodColumns he) (by decide) rfl ?_
  refine map_pair_eq_ok_iff.2 ⟨?_, rfl⟩
  exact Tagged.acceptMethod_eq_ok_iff.2
    ⟨e.1, e.2, ⟨⟨rfl, hx⟩, hd, rfl⟩, ⟨⟨rfl, hy⟩, hd', rfl⟩, hagree, rfl⟩

end Tagged

section Compact

variable {m : Frozen} (h : compact.Representable m)
include h

theorem step_classLine_compact {e : ClassName × ClassName} (he : e ∈ m.contract.classEntries)
    (cs : Table ClassName ClassName) (ms : Table MethodSymbol String)
    (fs : Table FieldSymbol String) (number : Nat) :
    ∃ notices, Compact.reader.step ⟨cs, ms, fs⟩ number (compact.classLine e)
      = .ok (⟨cs.insert e.1 e.2, ms, fs⟩, notices) := by
  obtain ⟨hc, hd⟩ := h.classes e he
  refine ⟨Compact.overrideNotices ⟨cs, ms, fs⟩ number e.1 e.2, ?_⟩
  rw [classLine_eq]
  refine Compact.reader.step_intercalate (h.isWord_classColumns he) (h.firstClasses e he rfl)
    rfl ?_
  exact Compact.acceptClass_eq_ok_iff.2 ⟨e.1, e.2, ⟨rfl, hc⟩, ⟨rfl, hd⟩, rfl, rfl⟩

theorem step_fieldLine_compact {e : FieldSymbol × FieldSymbol} (he : e ∈ m.contract.fieldEntries)
    (cs : Table ClassName ClassName) (ms : Table MethodSymbol String)
    (fs : Table FieldSymbol String) (number : Nat) :
    ∃ notices, Compact.reader.step ⟨cs, ms, fs⟩ number (compact.fieldLine e)
      = .ok (⟨cs, ms, fs.insert e.1 e.2.name⟩, notices) := by
  refine ⟨[], ?_⟩
  rw [fieldLine_eq]
  refine Compact.reader.step_intercalate (h.isWord_fieldColumns he) (h.firstFields e he rfl) rfl ?_
  refine map_pair_eq_ok_iff.2 ⟨?_, rfl⟩
  exact Compact.acceptField_eq_ok_iff.2 ⟨e.1.owner, ⟨rfl, (h.fieldOwners e he).1⟩, rfl⟩

theorem step_methodLine_compact {e : MethodSymbol × MethodSymbol}
    (he : e ∈ m.contract.methodEntries) (cs : Table ClassName ClassName)
    (ms : Table MethodSymbol String) (fs : Table FieldSymbol String) (number : Nat) :
    ∃ notices, Compact.reader.step ⟨cs, ms, fs⟩ number (compact.methodLine e)
      = .ok (⟨cs, ms.insert e.1 e.2.name, fs⟩, notices) := by
  refine ⟨[], ?_⟩
  rw [methodLine_eq]
  refine Compact.reader.step_intercalate (h.isWord_methodColumns he) (h.firstMethods e he rfl)
    rfl ?_
  refine map_pair_eq_ok_iff.2 ⟨?_, rfl⟩
  exact Compact.acceptMethod_eq_ok_iff.2 ⟨e.1.owner, e.1.descriptor,
    ⟨rfl, (h.methodOwners e he).1⟩, ⟨(h.readable_descriptors he).1, rfl⟩, rfl⟩

end Compact

/-- Representable mappings are read back from their records. -/
theorem Representable.value_parseLines {f : Format} {m : Frozen} (h : f.Representable m) :
    ∃ m', (f.parseLines (f.recordLines m.contract)).value = .ok m' ∧ m'.tables = m.tables := by
  refine ⟨_, ?_, Frozen.tables_ofNames_names h.checkTypes⟩
  cases f with
  | tagged =>
    refine Tagged.reader.value_read_eq_ok_iff.2
      ⟨⟨m.tables.classes, m.methodNames, m.fieldNames⟩, ?_, rfl⟩
    exact value_readLines_recordLines
      (fun cs n e he => step_classLine_tagged h he cs _ _ n)
      (fun fs n e he => step_fieldLine_tagged h he _ fs n)
      (fun ms n e he => step_methodLine_tagged h he ms _ n)
  | compact =>
    refine Compact.reader.value_read_eq_ok_iff.2
      ⟨⟨m.tables.classes, m.methodNames, m.fieldNames⟩, ?_, rfl⟩
    exact value_readLines_recordLines
      (fun cs n e he => step_classLine_compact h he cs _ _ n)
      (fun fs n e he => step_fieldLine_compact h he _ _ fs n)
      (fun ms n e he => step_methodLine_compact h he _ ms _ n)

/-! ### What was read is representable -/

/-- What the tagged reader has accepted has readable parts. -/
theorem holdsNames_tagged {s : Editable} {lines : List (Option String)}
    (h : (Tagged.reader.readLines Tagged.reader.start 1 lines).value = .ok s) :
    tagged.HoldsNames s.classes s.methodNames s.fieldNames := by
  refine Tagged.reader.invariant_readLines
    (I := fun s => tagged.HoldsNames s.classes s.methodNames s.fieldNames) ?_ HoldsNames.empty h
  intro s s' number notices first rest record hs hwords _ hrecord haccept
  cases record with
  | ofClass old renamed =>
    obtain ⟨c, d, ⟨-, hc⟩, ⟨-, hd⟩, rfl, -⟩ := Tagged.acceptClass_eq_ok_iff.1 haccept
    -- an identity record drops an entry, any other one sets it
    rw [Editable.setClass]
    split
    · exact hs.eraseClass c
    · exact hs.insertClass hc hd fun hf => by cases hf
  | ofField old renamed =>
    obtain ⟨x, y, ⟨rfl, hx⟩, ⟨rfl, hy⟩, -, rfl⟩ :=
      Tagged.acceptField_eq_ok_iff.1 (map_pair_eq_ok_iff.1 haccept).1
    rw [Tagged.recordOf_eq_ofField_iff.1 hrecord] at hwords
    have hname := hx.isWord_name (hwords _ (by simp [FieldSymbol.internalName]))
    have hname' := hy.isWord_name (hwords _ (by simp [FieldSymbol.internalName]))
    exact hs.insertField ⟨hx.isWellFormed, ⟨hname, fun _ => hx.not_mem⟩,
      ⟨hname', fun _ => hy.not_mem⟩, fun hf => by cases hf⟩
  | ofMethod old oldTypes renamed renamedTypes =>
    obtain ⟨x, y, ⟨⟨rfl, hx⟩, hd, -⟩, ⟨⟨rfl, hy⟩, -, -⟩, -, rfl⟩ :=
      Tagged.acceptMethod_eq_ok_iff.1 (map_pair_eq_ok_iff.1 haccept).1
    rw [Tagged.recordOf_eq_ofMethod_iff.1 hrecord] at hwords
    have hname := hx.isWord_name (hwords _ (by simp [MethodSymbol.internalName]))
    have hname' := hy.isWord_name (hwords _ (by simp [MethodSymbol.internalName]))
    exact hs.insertMethod ⟨hx.isWellFormed, hd, ⟨hname, fun _ => hx.not_mem⟩,
      ⟨hname', fun _ => hy.not_mem⟩, fun hf => by cases hf⟩
  | ofPackage =>
    obtain ⟨rfl, -⟩ := Prod.mk.inj (Except.ok.inj haccept)
    exact hs

/-- What the compact reader has accepted has readable parts. -/
theorem holdsNames_compact {b : Compact.Buffer} {lines : List (Option String)}
    (h : (Compact.reader.readLines Compact.reader.start 1 lines).value = .ok b) :
    compact.HoldsNames b.classes b.methodNames b.fieldNames := by
  refine Compact.reader.invariant_readLines
    (I := fun b => compact.HoldsNames b.classes b.methodNames b.fieldNames) ?_ HoldsNames.empty h
  intro b b' number notices first rest record hb hwords hfirst hrecord haccept
  have hallows : ∀ {name : String}, IsWord name → compact.AllowsName name :=
    fun hname => ⟨hname, fun hf => by cases hf⟩
  cases record with
  | ofClass old renamed =>
    obtain ⟨c, d, ⟨rfl, hc⟩, ⟨-, hd⟩, rfl, -⟩ := Compact.acceptClass_eq_ok_iff.1 haccept
    obtain ⟨rfl, -⟩ := List.cons.inj (Compact.recordOf_eq_ofClass_iff.1 hrecord)
    exact hb.insertClass hc hd fun _ => hfirst
  | ofField owner name newName =>
    obtain ⟨c, ⟨rfl, hc⟩, rfl⟩ :=
      Compact.acceptField_eq_ok_iff.1 (map_pair_eq_ok_iff.1 haccept).1
    obtain ⟨rfl, rfl⟩ := List.cons.inj (Compact.recordOf_eq_ofField_iff.1 hrecord)
    exact hb.insertField ⟨hc, hallows (hwords _ (by simp)), hallows (hwords _ (by simp)),
      fun _ => hfirst⟩
  | ofMethod owner name types newName =>
    obtain ⟨c, d, ⟨rfl, hc⟩, ⟨hd, -⟩, rfl⟩ :=
      Compact.acceptMethod_eq_ok_iff.1 (map_pair_eq_ok_iff.1 haccept).1
    obtain ⟨rfl, rfl⟩ := List.cons.inj (Compact.recordOf_eq_ofMethod_iff.1 hrecord)
    exact hb.insertMethod ⟨hc, hd, hallows (hwords _ (by simp)), hallows (hwords _ (by simp)),
      fun _ => hfirst⟩

/-- Whatever a format reads is representable in it. -/
theorem representable_of_readLines {f : Format} {lines : List (Option String)} {m : Frozen}
    (h : (f.readLines lines).value = .ok m) : f.Representable m := by
  cases f with
  | tagged =>
    obtain ⟨s, hs, rfl⟩ := Tagged.reader.value_read_eq_ok_iff.1 h
    exact (holdsNames_tagged hs).representable_ofNames
  | compact =>
    obtain ⟨b, hb, rfl⟩ := Compact.reader.value_read_eq_ok_iff.1 h
    exact (holdsNames_compact hb).representable_ofNames

/-! ### The round trip -/

/-- **Writing and reading.**  In each format, representable mappings that are
written and read come back with the same entries in the same order, and whatever
is read is representable. -/
theorem parse_toLines_and_representable (f : Format) :
    (∀ m, f.Representable m →
      ∃ m', (f.parse ("\n".intercalate (f.toLines m.contract))).value = .ok m' ∧
        m'.tables = m.tables) ∧
    ∀ text m, (f.parse text).value = .ok m → f.Representable m := by
  constructor
  · intro m h
    rw [parse, h.lines_intercalate]
    exact h.value_parseLines
  · intro text m h
    exact representable_of_readLines h

/-- A class that moves into a package, a method that takes it and a field. -/
def sample : Frozen :=
  .ofNames [(⟨"a"⟩, ⟨"p/Ant"⟩)]
    [(⟨⟨"a"⟩, "m", ⟨[.array (.reference ⟨"a"⟩)], .primitive .void⟩⟩, "meet")]
    [(⟨⟨"a"⟩, "f"⟩, "food")]

theorem parse_toLines_sample :
    (tagged.Representable sample ∧ ∃ m',
      (tagged.parse ("\n".intercalate (tagged.toLines sample.contract))).value = .ok m' ∧
        m'.tables = sample.tables) ∧
    compact.Representable sample ∧ ∃ m',
      (compact.parse ("\n".intercalate (compact.toLines sample.contract))).value = .ok m' ∧
        m'.tables = sample.tables := by
  have hname : ∀ f : Format, ∀ name ∈ ["m", "meet", "f", "food"], f.AllowsName name := by
    have hnames : ∀ name ∈ ["m", "meet", "f", "food"],
        IsWord name ∧ '/' ∉ name.toList := by decide
    intro f name hmem
    obtain ⟨hword, hslash⟩ := hnames name hmem
    exact ⟨hword, fun _ => hslash⟩
  have ha : ClassName.isWellFormed ⟨"a"⟩ = true := by decide
  have hfirst : ∀ f : Format, f.AllowsFirst ⟨"a"⟩ := fun _ _ => by decide
  have hread : Descriptor.Readable ⟨[.array (.reference ⟨"a"⟩)], .primitive .void⟩ := by
    constructor
    · intro t ht
      obtain rfl := List.mem_singleton.1 ht
      exact ⟨by decide, ha⟩
    · exact ⟨by decide, fun _ => rfl⟩
  have hsample : ∀ f : Format, f.Representable sample := by
    intro f
    have hclass := HoldsNames.empty.insertClass ha (by decide : ClassName.isWellFormed ⟨"p/Ant"⟩)
      (hfirst f)
    have hmethod := hclass.insertMethod (x := ⟨⟨"a"⟩, "m", _⟩)
      ⟨ha, hread, hname f "m" (by decide), hname f "meet" (by decide), hfirst f⟩
    have hfield := hmethod.insertField (x := ⟨⟨"a"⟩, "f"⟩)
      ⟨ha, hname f "f" (by decide), hname f "food" (by decide), hfirst f⟩
    exact hfield.representable_ofNames
  exact ⟨⟨hsample tagged, (parse_toLines_and_representable tagged).1 sample (hsample tagged)⟩,
    hsample compact, (parse_toLines_and_representable compact).1 sample (hsample compact)⟩

end SymbolRenaming.Format
