/-
SymbolRenaming/Proofs/Format/Inverse.lean

What can be done with the inverse of mappings that were read.

Design.  Old and new names of what a format has read are fit for its columns alike,
so that turning mappings round leaves every entry writable.  What can be lost is the
agreement between members and classes, and it is lost exactly for the members that
carry a taken class.  So the inverse is consistent, and the tagged format reads it
back, exactly if all members are reversible.  A composition is content with less: it
drops the members that stay as they are before it judges the others.

Main result: `usable_invert_iff`.
-/
import SymbolRenaming.Proofs.Composition.Inverse
import SymbolRenaming.Proofs.Format.Conversion

namespace SymbolRenaming

/-! ### Entries of opposite tables -/

/-- The entries of the opposite table are entries backwards. -/
theorem Table.Opposite.mem_entries {α β : Type} [DecidableEq α] [DecidableEq β]
    {s : Table α β} {t : Table β α} (h : s.Opposite t) {e : β × α} (he : e ∈ t.entries) :
    (e.2, e.1) ∈ s.entries := by
  rw [← get?_eq_some_iff] at he ⊢
  exact h.get?_iff.2 he

section Entries

variable {m n : Frozen} (h : m.tables.Opposite n.tables)
include h

theorem Frozen.mem_classEntries_of_opposite {e : ClassName × ClassName}
    (he : e ∈ n.contract.classEntries) : (e.2, e.1) ∈ m.contract.classEntries := by
  rw [classEntries_contract] at he ⊢
  exact h.classes.mem_entries he

theorem Frozen.mem_fieldEntries_of_opposite {e : FieldSymbol × FieldSymbol}
    (he : e ∈ n.contract.fieldEntries) : (e.2, e.1) ∈ m.contract.fieldEntries := by
  rw [contract, SymbolTables.fieldEntries_contract] at he ⊢
  exact h.fields.mem_entries he

theorem Frozen.mem_methodEntries_of_opposite {e : MethodSymbol × MethodSymbol}
    (he : e ∈ n.contract.methodEntries) : (e.2, e.1) ∈ m.contract.methodEntries := by
  rw [contract, SymbolTables.methodEntries_contract] at he ⊢
  exact h.methods.mem_entries he

end Entries

/-! ### Consistency and entries -/

section SameEntries

open SymbolRenaming.Composition

variable {s t : SymbolTables}

/-- The members of a kind are consistent in tables that find the same. -/
theorem Composition.MemberKind.Consistent.of_get?_eq {α : Type} [DecidableEq α]
    {K : MemberKind α} (hs : K.Consistent s.contract)
    (hclasses : ∀ c, s.classes.get? c = t.classes.get? c)
    (hmembers : ∀ x, (K.table s).get? x = (K.table t).get? x) : K.Consistent t.contract := by
  have hrename : t.contract.renameClass = s.contract.renameClass := by
    funext c
    show (t.classes.get? c).getD c = (s.classes.get? c).getD c
    rw [hclasses]
  rw [K.consistent_contract_iff] at hs ⊢
  intro x v hv
  rw [← hmembers] at hv
  rw [hrename]
  exact hs x v hv

/-- Mappings with the same entries are consistent alike. -/
theorem Frozen.checkTypes_of_sameEntries {m n : Frozen} (h : m.sameEntries n = true)
    (hm : m.contract.checkTypes = .ok ()) : n.contract.checkTypes = .ok () := by
  rw [Renaming.checkTypes_eq_ok_iff] at hm ⊢
  obtain ⟨hfields, hmethods⟩ := consistent_iff.1 hm
  simp only [sameEntries, SymbolTables.sameEntries, Bool.and_eq_true,
    Table.sameEntries_iff] at h
  obtain ⟨⟨hc, hms⟩, hfs⟩ := h
  apply consistent_iff.2
  exact ⟨hfields.of_get?_eq hc hfs, hmethods.of_get?_eq hc hms⟩

end SameEntries

namespace Format

/-! ### Writing the inverse -/

/-- Consistent mappings whose entries backwards can be written in the tagged format
can be written there themselves. -/
theorem Representable.of_opposite {m n : Frozen} (h : tagged.Representable m)
    (hop : m.tables.Opposite n.tables) (hcheck : n.contract.checkTypes = .ok ()) :
    tagged.Representable n where
  checkTypes := hcheck
  classes := by
    intro e he
    exact (h.classes _ (Frozen.mem_classEntries_of_opposite hop he)).symm
  fieldOwners := by
    intro e he
    exact (h.fieldOwners _ (Frozen.mem_fieldEntries_of_opposite hop he)).symm
  methodOwners := by
    intro e he
    exact (h.methodOwners _ (Frozen.mem_methodEntries_of_opposite hop he)).symm
  descriptors := by
    intro e he
    exact (h.descriptors _ (Frozen.mem_methodEntries_of_opposite hop he)).symm
  fieldNames := by
    intro e he
    exact (h.fieldNames _ (Frozen.mem_fieldEntries_of_opposite hop he)).symm
  methodNames := by
    intro e he
    exact (h.methodNames _ (Frozen.mem_methodEntries_of_opposite hop he)).symm
  -- a line of the tagged format opens with its tag
  firstClasses _ _ hf := by cases hf
  firstFields _ _ hf := by cases hf
  firstMethods _ _ hf := by cases hf

/-- What a text is read as is representable in its format. -/
theorem representable_of_parse {f : Format} {text : String} {m : Frozen}
    (h : (f.parse text).value = .ok m) : f.Representable m :=
  representable_of_readLines h

/-- What is read is read in the direction in which it was built. -/
theorem inverted_of_readLines {f : Format} {lines : List (Option String)} {m : Frozen}
    (h : (f.readLines lines).value = .ok m) : m.inverted = false := by
  cases f with
  | tagged =>
    obtain ⟨s, -, rfl⟩ := Tagged.reader.value_read_eq_ok_iff.1 h
    rfl
  | compact =>
    obtain ⟨b, -, rfl⟩ := Compact.reader.value_read_eq_ok_iff.1 h
    rfl

/-- The tagged format reads back the consistent ones among the mappings whose entries
backwards it has read. -/
theorem sameEntries_toLines_iff_of_opposite {m n : Frozen} (h : tagged.Representable m)
    (hop : m.tables.Opposite n.tables) :
    (∃ n', (tagged.parse ("\n".intercalate (tagged.toLines n.contract))).value = .ok n' ∧
      n'.sameEntries n = true) ↔ n.contract.checkTypes = .ok () := by
  constructor
  · rintro ⟨n', hread, hsame⟩
    have hrep : tagged.Representable n' := representable_of_parse hread
    exact Frozen.checkTypes_of_sameEntries hsame hrep.checkTypes
  · intro hcheck
    have hrep := h.of_opposite hop hcheck
    obtain ⟨n', hread, htables⟩ := hrep.value_parseLines
    refine ⟨n', ?_, Frozen.sameEntries_of_tables_eq htables⟩
    rw [parse, hrep.lines_intercalate]
    exact hread

/-! ### Using the inverse -/

open SymbolRenaming.Composition

/-- **When an inverse can be used.**  Mappings that are read in the tagged format and
whose values are not shared have a consistent inverse, and one that the format reads
back, exactly if no member carries a taken class; and the inverse composes alone
exactly if no member that changes carries one. -/
theorem usable_invert_iff {text : String} {m : Frozen} (h : (tagged.parse text).value = .ok m)
    (hinj : m.tables.Injective) :
    (m.invert.contract.checkTypes = .ok () ↔ m.tables.Reversible) ∧
    ((∃ r, (compose [.ofMappings (.frozen m.invert)]).value = .ok r) ↔
      m.tables.dropFixedMembers.Reversible) ∧
    ((∃ m', (tagged.parse ("\n".intercalate (tagged.toLines m.invert.contract))).value = .ok m' ∧
      m'.sameEntries m.invert = true) ↔ m.tables.Reversible) := by
  have hrep : tagged.Representable m := representable_of_parse h
  have hs : m.tables.contract.Consistent := (Renaming.checkTypes_eq_ok_iff _).1 hrep.checkTypes
  have hop : m.tables.Opposite m.invert.tables :=
    Frozen.opposite_invert (inverted_of_readLines h) hinj
  have hcheck : m.invert.contract.checkTypes = .ok () ↔ m.tables.Reversible := by
    rw [Renaming.checkTypes_eq_ok_iff]
    exact SymbolTables.consistent_iff_reversible hop hs
  refine ⟨hcheck, isOk_compose_singleton_iff hop hs rfl, ?_⟩
  rw [← hcheck]
  exact sameEntries_toLines_iff_of_opposite hrep hop

/-- A class takes the name of another one, which is renamed too. -/
theorem usable_invert_iff_chain :
    ∃ m, (tagged.parse "CL: a b\nCL: c a\nFD: c/f a/g").value = .ok m ∧ m.tables.Injective ∧
      m.invert.contract.checkTypes = .ok () ∧
      (∃ r, (compose [.ofMappings (.frozen m.invert)]).value = .ok r) ∧
      ∃ m', (tagged.parse ("\n".intercalate (tagged.toLines m.invert.contract))).value = .ok m' ∧
        m'.sameEntries m.invert = true := by
  have hread : (tagged.parse "CL: a b\nCL: c a\nFD: c/f a/g").value
      = .ok (.ofNames [(⟨"a"⟩, ⟨"b"⟩), (⟨"c"⟩, ⟨"a"⟩)] [] [(⟨⟨"c"⟩, "f"⟩, "g")]) := rfl
  have hinj : (Frozen.ofNames [(⟨"a"⟩, ⟨"b"⟩), (⟨"c"⟩, ⟨"a"⟩)] []
      [(⟨⟨"c"⟩, "f"⟩, "g")]).tables.Injective := ⟨by decide, by decide, by decide⟩
  obtain ⟨hcheck, hcompose, hreread⟩ := usable_invert_iff hread hinj
  exact ⟨_, hread, hinj, hcheck.2 ⟨by decide, by decide⟩, hcompose.2 ⟨by decide, by decide⟩,
    hreread.2 ⟨by decide, by decide⟩⟩

/-- The class `a` takes the name `b`, and the class `b`, which keeps it, has a field. -/
def namesake : Frozen := .ofNames [(⟨"a"⟩, ⟨"b"⟩)] [] [(⟨⟨"b"⟩, "f"⟩, "g")]

/-- No two symbols share a new one, and the inverse still sends the class `b` to `a`
and its field to another field of `b`: it is inconsistent, it does not compose, and
it is refused when it is read. -/
theorem not_usable_invert_namesake :
    (tagged.parse "CL: a b\nFD: b/f b/g").value = .ok namesake ∧ namesake.tables.Injective ∧
      namesake.invert.contract.checkTypes = .error (.inconsistent .field "b/g" "b/f") ∧
      (compose [.ofMappings (.frozen namesake.invert)]).value
        = .error (.inconsistent .field "b/g" "b/f") ∧
      (tagged.parse ("\n".intercalate (tagged.toLines namesake.invert.contract))).value
        = .error (.invalidEntry 2 "FD: b/g b/f" (.inconsistent .field "b/g" "b/f")) := by
  have hinj : namesake.tables.Injective := ⟨by decide, by decide, by decide⟩
  exact ⟨rfl, hinj, rfl, rfl, rfl⟩

end Format

end SymbolRenaming
