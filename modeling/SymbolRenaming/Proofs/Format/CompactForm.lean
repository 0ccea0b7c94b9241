/-
SymbolRenaming/Proofs/Format/CompactForm.lean

Tagged lines in the compact format, and the two readers on them.

Design.  A record of the tagged format has a compact form: the tag is left out, a
member is given by its owner and its name in two columns, and of the renamed member
the name alone is kept (`Record.compactColumns`).  All other lines become blank lines,
so that a line keeps its number.

The tagged reader changes its store at once, and the compact one keeps records until
the end.  What they hold after the same records is the same but for one thing: a class
record that gives a class its own name takes the class out of the store, while it
stays among the kept records (`SameRecords`).  Each accepted line preserves this
(`SameRecords.step`), whatever classes come before or after a member, because the new
name of a member is all that either reader takes from its record.  In the end classes
with their own names are dropped, and they never renamed anything.

Main result: `sameEntries_compactLine`.
-/
import SymbolRenaming.Proofs.Format.Reading

namespace SymbolRenaming

open Text

/-! ### Two readers side by side -/

namespace LineReader

variable {ρ σ ρ' σ' : Type} {r : LineReader ρ σ} {r' : LineReader ρ' σ'}

/-- A reader that follows another one line by line, on lines of its own, follows it
through all lines. -/
theorem exists_value_readLines {R : σ → σ' → Prop} {form : String → String}
    {lines : List String}
    (hstep : ∀ {s s' t number notices}, ∀ line ∈ lines, R s t →
      r.step s number line = .ok (s', notices) →
      ∃ t' notices', r'.step t number (form line) = .ok (t', notices') ∧ R s' t')
    {s s' : σ} {t : σ'} {number : Nat} (hR : R s t)
    (h : (r.readLines s number (lines.map some)).value = .ok s') :
    ∃ t', (r'.readLines t number ((lines.map form).map some)).value = .ok t' ∧ R s' t' := by
  induction lines generalizing s t number with
  | nil => exact ⟨t, rfl, Except.ok.inj h ▸ hR⟩
  | cons line lines ih =>
    rw [List.map_cons, readLines] at h
    rcases e : r.step s number line with err | ⟨next, notices⟩
    · rw [e] at h
      cases h
    · rw [e] at h
      obtain ⟨t₁, notices', ht, hR₁⟩ := hstep line (List.mem_cons_self ..) hR e
      have hrest : ∀ {s s' t number notices}, ∀ line ∈ lines, R s t →
          r.step s number line = .ok (s', notices) →
          ∃ t' notices', r'.step t number (form line) = .ok (t', notices') ∧ R s' t' := by
        intro s s' t number notices x hx
        exact hstep x (List.mem_cons_of_mem _ hx)
      obtain ⟨t', hrun, hR'⟩ := ih hrest hR₁ h
      refine ⟨t', ?_, hR'⟩
      rw [List.map_cons, List.map_cons, readLines, ht]
      exact hrun

end LineReader

namespace Tagged

/-! ### The compact form of a line -/

/-- What stands before the last slash of a member's column, and what stands behind
it. -/
def ownerAndName (column : String) : String × String :=
  match splitAtLast '/' column.toList with
  | some (owner, name) => (.ofList owner, .ofList name)
  | none => (column, "")

/-- The columns of a record in the compact format; package records have none there. -/
def Record.compactColumns : Record → List String
  | .ofClass old renamed => [old, renamed]
  | .ofField old renamed =>
    [(ownerAndName old).1, (ownerAndName old).2, (ownerAndName renamed).2]
  | .ofMethod old oldTypes renamed _ =>
    [(ownerAndName old).1, (ownerAndName old).2, oldTypes, (ownerAndName renamed).2]
  | .ofPackage => []

/-- The compact form of a line; a line without a compact record becomes blank. -/
def compactLine (line : String) : String :=
  match LineContent.ofLine recordOf line with
  | .record r => " ".intercalate r.compactColumns
  | _ => ""

theorem ownerAndName_internalName {owner : ClassName} {name : String}
    (h : IsMemberName owner name) :
    ownerAndName (owner.text ++ "/" ++ name) = (owner.text, name) := by
  have hsplit : splitAtLast '/' (owner.text ++ "/" ++ name).toList
      = some (owner.text.toList, name.toList) := by
    rw [splitAtLast_eq_some_iff]
    refine ⟨?_, h.not_mem⟩
    simp
  rw [ownerAndName, hsplit]
  simp

/-- A line of words opens like its first word. -/
theorem startsComment_intercalate_iff {first : String} {rest : List String}
    (h : IsWord first) :
    StartsComment (" ".intercalate (first :: rest)) ↔ StartsComment first := by
  have hne := h.toList_ne_nil
  rcases rest with - | ⟨second, rest⟩
  · simp [StartsComment, String.intercalate_singleton]
  · obtain ⟨c, cs, hcs⟩ := List.exists_cons_of_ne_nil hne
    simp [StartsComment, String.intercalate_cons_cons, hcs]

/-! ### What the two readers hold -/

/-- A store and kept records that come from the same records.  A class that was last
given its own name is missing in the store. -/
structure SameRecords (m : Editable) (b : Compact.Buffer) : Prop where
  classes : ∀ c, m.classes.get? c = (b.classes.get? c).filter (c ≠ ·)
  methodNames : m.methodNames = b.methodNames
  fieldNames : m.fieldNames = b.fieldNames

namespace SameRecords

variable {m m' : Editable} {b : Compact.Buffer}

theorem empty : SameRecords .empty {} where
  classes _ := rfl
  methodNames := rfl
  fieldNames := rfl

theorem setClass (h : SameRecords m b) (c d : ClassName) :
    SameRecords (m.setClass c d) { b with classes := b.classes.insert c d } where
  classes := by
    intro x
    rw [Editable.setClass]
    show _ = ((b.classes.insert c d).get? x).filter (x ≠ ·)
    rw [Table.get?_insert]
    by_cases hx : c = x
    · subst hx
      split
      · rename_i hcd
        simp [Table.get?_erase, Option.filter, hcd]
      · rename_i hcd
        simp [Table.get?_insert, Option.filter, hcd]
    · split
      · simpa [Table.get?_erase, hx] using h.classes x
      · simpa [Table.get?_insert, hx] using h.classes x
  methodNames := by
    rw [Editable.setClass]
    split <;> exact h.methodNames
  fieldNames := by
    rw [Editable.setClass]
    split <;> exact h.fieldNames

theorem setMethodName (h : SameRecords m b) (x : MethodSymbol) (name : String) :
    SameRecords (m.setMethodName x name)
      { b with methodNames := b.methodNames.insert x name } where
  classes := h.classes
  methodNames := congrArg (·.insert x name) h.methodNames
  fieldNames := h.fieldNames

theorem setFieldName (h : SameRecords m b) (x : FieldSymbol) (name : String) :
    SameRecords (m.setFieldName x name)
      { b with fieldNames := b.fieldNames.insert x name } where
  classes := h.classes
  methodNames := h.methodNames
  fieldNames := congrArg (·.insert x name) h.fieldNames

/-- The compact reader accepts columns as a record, and then the store holds the same
records as it does. -/
def Takes (b : Compact.Buffer) (number : Nat) (columns : List String) (m : Editable) : Prop :=
  ∃ first rest record b' notices, columns = first :: rest ∧ (∀ w ∈ first :: rest, IsWord w) ∧
    Compact.recordOf (first :: rest) = some record ∧
    Compact.accept b number record = .ok (b', notices) ∧ SameRecords m b'

theorem takes_class (h : SameRecords m b) (number : Nat) {c d : ClassName}
    (hc : c.isWellFormed = true) (hd : d.isWellFormed = true) :
    Takes b number (Record.ofClass c.text d.text).compactColumns (m.setClass c d) := by
  refine ⟨c.text, [d.text], .ofClass c.text d.text, _, Compact.overrideNotices b number c d, rfl,
    ?_, rfl, ?_, h.setClass c d⟩
  · simp only [List.mem_cons, List.not_mem_nil, or_false, forall_eq_or_imp, forall_eq]
    exact ⟨ClassName.isWord_text hc, ClassName.isWord_text hd⟩
  · exact Compact.acceptClass_eq_ok_iff.2 ⟨c, d, ⟨rfl, hc⟩, ⟨rfl, hd⟩, rfl, rfl⟩

theorem takes_field (h : SameRecords m b) (number : Nat) {x y : FieldSymbol}
    (hx : IsMemberName x.owner x.name) (hy : IsMemberName y.owner y.name)
    (hname : IsWord x.name) (hname' : IsWord y.name) :
    Takes b number (Record.ofField x.internalName y.internalName).compactColumns
      (m.setFieldName x y.name) := by
  have hcolumns : (Record.ofField x.internalName y.internalName).compactColumns
      = [x.owner.text, x.name, y.name] := by
    simp only [Record.compactColumns, FieldSymbol.internalName, ownerAndName_internalName hx,
      ownerAndName_internalName hy]
  refine ⟨x.owner.text, [x.name, y.name], .ofField x.owner.text x.name y.name, _, [], hcolumns,
    ?_, rfl, ?_, h.setFieldName x y.name⟩
  · simp only [List.mem_cons, List.not_mem_nil, or_false, forall_eq_or_imp, forall_eq]
    exact ⟨ClassName.isWord_text hx.isWellFormed, hname, hname'⟩
  · apply map_pair_eq_ok_iff.2
    exact ⟨Compact.acceptField_eq_ok_iff.2 ⟨x.owner, ⟨rfl, hx.isWellFormed⟩, rfl⟩, rfl⟩

theorem takes_method (h : SameRecords m b) (number : Nat) {x y : MethodSymbol}
    (hx : IsMemberName x.owner x.name) (hd : x.descriptor.Readable)
    (hy : IsMemberName y.owner y.name) (hname : IsWord x.name) (hname' : IsWord y.name)
    (renamedTypes : String) :
    Takes b number (Record.ofMethod x.internalName x.descriptor.text y.internalName
      renamedTypes).compactColumns (m.setMethodName x y.name) := by
  have hcolumns : (Record.ofMethod x.internalName x.descriptor.text y.internalName
      renamedTypes).compactColumns = [x.owner.text, x.name, x.descriptor.text, y.name] := by
    simp only [Record.compactColumns, MethodSymbol.internalName, ownerAndName_internalName hx,
      ownerAndName_internalName hy]
  refine ⟨x.owner.text, [x.name, x.descriptor.text, y.name],
    .ofMethod x.owner.text x.name x.descriptor.text y.name, _, [], hcolumns, ?_, rfl, ?_,
    h.setMethodName x y.name⟩
  · simp only [List.mem_cons, List.not_mem_nil, or_false, forall_eq_or_imp, forall_eq]
    exact ⟨ClassName.isWord_text hx.isWellFormed, hname, hd.isWord_text, hname'⟩
  · apply map_pair_eq_ok_iff.2
    refine ⟨Compact.acceptMethod_eq_ok_iff.2 ?_, rfl⟩
    exact ⟨x.owner, x.descriptor, ⟨rfl, hx.isWellFormed⟩, ⟨hd, rfl⟩, rfl⟩

/-- A record that the tagged reader accepts has no compact form and changes nothing,
or the compact reader accepts its compact form. -/
theorem accept (h : SameRecords m b) {number : Nat} {notices : List Notice}
    {columns : List String} {record : Record} (hwords : ∀ w ∈ columns, IsWord w)
    (hrecord : recordOf columns = some record)
    (haccept : Tagged.accept m number record = .ok (m', notices)) :
    (record.compactColumns = [] ∧ m' = m) ∨ Takes b number record.compactColumns m' := by
  cases record with
  | ofClass old renamed =>
    obtain ⟨c, d, ⟨rfl, hc⟩, ⟨rfl, hd⟩, rfl, -⟩ := acceptClass_eq_ok_iff.1 haccept
    exact Or.inr (h.takes_class number hc hd)
  | ofField old renamed =>
    -- the new owner was checked, and is not looked at any more
    obtain ⟨x, y, ⟨rfl, hx⟩, ⟨rfl, hy⟩, -, rfl⟩ :=
      acceptField_eq_ok_iff.1 (map_pair_eq_ok_iff.1 haccept).1
    obtain rfl := recordOf_eq_ofField_iff.1 hrecord
    have hname := hx.isWord_name (hwords _ (by simp [FieldSymbol.internalName]))
    have hname' := hy.isWord_name (hwords _ (by simp [FieldSymbol.internalName]))
    exact Or.inr (h.takes_field number hx hy hname hname')
  | ofMethod old oldTypes renamed renamedTypes =>
    -- nor is the new descriptor
    obtain ⟨x, y, ⟨⟨rfl, hx⟩, hd, rfl⟩, ⟨⟨rfl, hy⟩, -, -⟩, -, rfl⟩ :=
      acceptMethod_eq_ok_iff.1 (map_pair_eq_ok_iff.1 haccept).1
    obtain rfl := recordOf_eq_ofMethod_iff.1 hrecord
    have hname := hx.isWord_name (hwords _ (by simp [MethodSymbol.internalName]))
    have hname' := hy.isWord_name (hwords _ (by simp [MethodSymbol.internalName]))
    exact Or.inr (h.takes_method number hx hd hy hname hname' renamedTypes)
  | ofPackage =>
    obtain ⟨rfl, -⟩ := Prod.mk.inj (Except.ok.inj haccept)
    exact Or.inl ⟨rfl, rfl⟩

/-- The compact reader follows the tagged one through an accepted line, unless the
compact form of the line is taken for a comment. -/
theorem step (h : SameRecords m b) {number : Nat} {notices : List Notice} {line : String}
    (hcomment : ¬ StartsComment (compactLine line))
    (hstep : reader.step m number line = .ok (m', notices)) :
    ∃ b' notices', Compact.reader.step b number (compactLine line) = .ok (b', notices') ∧
      SameRecords m' b' := by
  have hblank : Compact.reader.step b number "" = .ok (b, []) := rfl
  rcases reader.step_eq_ok_iff.1 hstep with ⟨hcontent, rfl, -⟩ | ⟨record, hcontent, haccept⟩
  · change LineContent.ofLine recordOf line = .blank at hcontent
    have hline : compactLine line = "" := by rw [compactLine, hcontent]
    rw [hline]
    exact ⟨b, [], hblank, h⟩
  · change LineContent.ofLine recordOf line = .record record at hcontent
    have hline : compactLine line = " ".intercalate record.compactColumns := by
      rw [compactLine, hcontent]
    obtain ⟨first, rest, hcolumns, -, hrecord⟩ := LineContent.ofLine_eq_record_iff.1 hcontent
    have hwords : ∀ w ∈ first :: rest, IsWord w := by
      intro w hw
      rw [← hcolumns] at hw
      exact isWord_of_mem_columns hw
    rcases h.accept hwords hrecord haccept with
      ⟨hnil, rfl⟩ | ⟨first', rest', record', b', notices', hcons, hwords', hrecord', haccept',
        hsame⟩
    · -- the record leaves a blank line
      rw [hline, hnil]
      exact ⟨b, [], hblank, h⟩
    · rw [hline, hcons] at hcomment ⊢
      have hfirst := mt (startsComment_intercalate_iff (hwords' _ (List.mem_cons_self ..))).2
        hcomment
      exact ⟨b', notices', Compact.reader.step_intercalate hwords' hfirst hrecord' haccept',
        hsame⟩

/-! ### The end of the run -/

theorem renameClass_eq (h : SameRecords m b) (c : ClassName) :
    (m.classes.get? c).getD c = (b.classes.get? c).getD c := by
  rw [h.classes, getD_filter_ne]

/-- The classes that keep their names make no difference in the end. -/
theorem sameEntries_finish (h : SameRecords m b) :
    (Compact.finish b).value.sameEntries m.freeze = true := by
  have hrename : (fun c => ((Table.ofList m.classes.entries).get? c).getD c)
      = fun c => ((Table.ofList b.classes.entries).get? c).getD c := by
    funext c
    rw [Table.ofList_entries, Table.ofList_entries, h.renameClass_eq]
  have hmethods : (Compact.finish b).value.tables.methods = m.freeze.tables.methods := by
    rw [Compact.finish, Editable.freeze, Frozen.ofNames, Frozen.ofNames, hrename,
      h.methodNames]
    rfl
  have hfields : (Compact.finish b).value.tables.fields = m.freeze.tables.fields := by
    rw [Compact.finish, Editable.freeze, Frozen.ofNames, Frozen.ofNames, hrename,
      h.fieldNames]
    rfl
  have hclasses : ∀ c, (Compact.finish b).value.tables.classes.get? c
      = m.freeze.tables.classes.get? c := by
    intro c
    show ((Table.ofList b.classes.entries).filter _).get? c
      = ((Table.ofList m.classes.entries).filter _).get? c
    rw [Table.ofList_entries, Table.ofList_entries, Table.get?_filter, Table.get?_filter,
      h.classes, Option.filter_filter]
    simp
  rw [Frozen.sameEntries, SymbolTables.sameEntries_iff, hmethods, hfields]
  exact ⟨hclasses, fun _ => rfl, fun _ => rfl⟩

end SameRecords

end Tagged

/-! ### The readers agree -/

namespace Format

/-- **The readers agree.**  If the tagged format accepts lines, and none of their
compact forms opens like a comment, then the compact format accepts the compact forms,
and the mappings have the same entries. -/
theorem sameEntries_compactLine {lines : List String} {m : Frozen}
    (h : (tagged.parseLines lines).value = .ok m)
    (hcomment : ∀ line ∈ lines, ¬ StartsComment (Tagged.compactLine line)) :
    ∃ m', (compact.parseLines (lines.map Tagged.compactLine)).value = .ok m' ∧
      m'.sameEntries m = true := by
  obtain ⟨s, hs, rfl⟩ := Tagged.reader.value_read_eq_ok_iff.1 h
  obtain ⟨b, hb, hsame⟩ := LineReader.exists_value_readLines
    (fun line hline hR hstep => hR.step (hcomment line hline) hstep)
    Tagged.SameRecords.empty hs
  exact ⟨_, Compact.reader.value_read_eq_ok_iff.2 ⟨b, hb, rfl⟩, hsame.sameEntries_finish⟩

/-- A class record, the field that it renames, and a record that cancels the class
again; the new names of two classes that come behind their fields. -/
def revised : List String :=
  ["# first", "CL: a b", "FD: a/f b/g", "CL: a a", "PK: p q", "FD: c/h c/i", "CL: a d",
    " CL:  c  e "]

theorem sameEntries_compactLine_revised :
    revised.map Tagged.compactLine
      = ["", "a b", "a f g", "a a", "", "c h i", "a d", "c e"] ∧
    ∃ m m', (tagged.parseLines revised).value = .ok m ∧
      (compact.parseLines (revised.map Tagged.compactLine)).value = .ok m' ∧
      m'.sameEntries m = true ∧
      m.contract.fieldEntries
        = [(⟨⟨"a"⟩, "f"⟩, ⟨⟨"d"⟩, "g"⟩), (⟨⟨"c"⟩, "h"⟩, ⟨⟨"e"⟩, "i"⟩)] := by
  have hforms : revised.map Tagged.compactLine
      = ["", "a b", "a f g", "a a", "", "c h i", "a d", "c e"] := rfl
  have hcomment : ∀ line ∈ revised, ¬ StartsComment (Tagged.compactLine line) := by
    intro line hline
    have hform : ∀ form ∈ revised.map Tagged.compactLine, ¬ StartsComment form := by
      rw [hforms]
      decide
    exact hform _ (List.mem_map_of_mem hline)
  have hread : (tagged.parseLines revised).value = .ok (.ofNames [(⟨"a"⟩, ⟨"d"⟩), (⟨"c"⟩, ⟨"e"⟩)]
      [] [(⟨⟨"a"⟩, "f"⟩, "g"), (⟨⟨"c"⟩, "h"⟩, "i")]) := rfl
  obtain ⟨m', hm', hsame⟩ := sameEntries_compactLine hread hcomment
  exact ⟨hforms, _, m', hread, hm', hsame, rfl⟩

end Format

end SymbolRenaming
