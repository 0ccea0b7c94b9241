/-
SymbolRenaming/Proofs/Format/Conversion.lean

Mappings that are read in one format and written in another.

Design.  Whatever a format has read is representable in it, and the formats ask
for the same in all points but two: the tagged one for names without a slash, the
compact one for lines that do not open like a comment.  Mappings that come from
any format are therefore representable in another one exactly if that one carries
them (`Representable.iff_carries`).

Carried mappings come back in the order of their tables, by the round trip of the
format they were written in.  Conversely, what comes back was read in that format,
so that it is carried, and mappings with the same entries are carried alike
(`Carries.of_sameEntries`).  What happens to an entry that is not carried need not
be known for this: its line may be a comment, or be split in another place, but no
reader can give the entry back.

Main result: `sameEntries_iff_carries`.
-/
import SymbolRenaming.Proofs.Format.RoundTrip

namespace SymbolRenaming

/-! ### Mappings with the same entries -/

theorem Table.mem_entries_iff_of_sameEntries {α β : Type} [DecidableEq α] [DecidableEq β]
    {s t : Table α β} (h : s.sameEntries t = true) (e : α × β) :
    e ∈ s.entries ↔ e ∈ t.entries := by
  have hget := sameEntries_iff.1 h e.1
  have hs : s.get? e.1 = some e.2 ↔ e ∈ s.entries := get?_eq_some_iff
  have ht : t.get? e.1 = some e.2 ↔ e ∈ t.entries := get?_eq_some_iff
  rw [← hs, ← ht, hget]

namespace Frozen

/-- The entries of each kind are the same. -/
theorem mem_entries_iff_of_sameEntries {m n : Frozen} (h : m.sameEntries n = true) :
    (∀ e, e ∈ m.contract.classEntries ↔ e ∈ n.contract.classEntries) ∧
    (∀ e, e ∈ m.contract.fieldEntries ↔ e ∈ n.contract.fieldEntries) ∧
    ∀ e, e ∈ m.contract.methodEntries ↔ e ∈ n.contract.methodEntries := by
  simp only [sameEntries, SymbolTables.sameEntries, Bool.and_eq_true] at h
  obtain ⟨⟨hclasses, hmethods⟩, hfields⟩ := h
  simp only [contract, SymbolTables.classEntries_contract, SymbolTables.fieldEntries_contract,
    SymbolTables.methodEntries_contract]
  exact ⟨Table.mem_entries_iff_of_sameEntries hclasses,
    Table.mem_entries_iff_of_sameEntries hfields,
    Table.mem_entries_iff_of_sameEntries hmethods⟩

end Frozen

namespace Format

/-! ### Mappings that a format carries -/

/-- Mappings none of whose names the format would take for something else: the
tagged one splits a member at its last slash, and the compact one reads past a line
that opens with a number sign. -/
def Carries : Format → Frozen → Prop
  | tagged, m =>
    (∀ e ∈ m.contract.fieldEntries, '/' ∉ e.1.name.toList ∧ '/' ∉ e.2.name.toList) ∧
    ∀ e ∈ m.contract.methodEntries, '/' ∉ e.1.name.toList ∧ '/' ∉ e.2.name.toList
  | compact, m =>
    (∀ e ∈ m.contract.classEntries, ¬ StartsComment e.1.text) ∧
    (∀ e ∈ m.contract.fieldEntries, ¬ StartsComment e.1.owner.text) ∧
    ∀ e ∈ m.contract.methodEntries, ¬ StartsComment e.1.owner.text

instance : (f : Format) → (m : Frozen) → Decidable (f.Carries m)
  | tagged, _ => inferInstanceAs (Decidable (_ ∧ _))
  | compact, _ => inferInstanceAs (Decidable (_ ∧ _ ∧ _))

theorem Carries.of_sameEntries {f : Format} {m n : Frozen} (h : f.Carries m)
    (hsame : m.sameEntries n = true) : f.Carries n := by
  obtain ⟨hclasses, hfields, hmethods⟩ := Frozen.mem_entries_iff_of_sameEntries hsame
  cases f with
  | tagged =>
    obtain ⟨hf, hm⟩ := h
    refine ⟨?_, ?_⟩
    · intro e he
      exact hf e ((hfields e).2 he)
    · intro e he
      exact hm e ((hmethods e).2 he)
  | compact =>
    obtain ⟨hc, hf, hm⟩ := h
    refine ⟨?_, ?_, ?_⟩
    · intro e he
      exact hc e ((hclasses e).2 he)
    · intro e he
      exact hf e ((hfields e).2 he)
    · intro e he
      exact hm e ((hmethods e).2 he)

namespace Representable

variable {f g : Format} {m : Frozen}

theorem carries (h : f.Representable m) : f.Carries m := by
  cases f with
  | tagged =>
    refine ⟨?_, ?_⟩
    · intro e he
      obtain ⟨hold, hnew⟩ := h.fieldNames e he
      exact ⟨hold.not_mem rfl, hnew.not_mem rfl⟩
    · intro e he
      obtain ⟨hold, hnew⟩ := h.methodNames e he
      exact ⟨hold.not_mem rfl, hnew.not_mem rfl⟩
  | compact =>
    refine ⟨?_, ?_, ?_⟩
    · intro e he
      exact h.firstClasses e he rfl
    · intro e he
      exact h.firstFields e he rfl
    · intro e he
      exact h.firstMethods e he rfl

/-- The columns of a format can hold all that another format can, if it carries
the mappings. -/
theorem of_carries (h : f.Representable m) (hg : g.Carries m) : g.Representable m where
  checkTypes := h.checkTypes
  classes := h.classes
  fieldOwners := h.fieldOwners
  methodOwners := h.methodOwners
  descriptors := h.descriptors
  -- names and first columns are where the formats differ
  fieldNames := by
    intro e he
    obtain ⟨hold, hnew⟩ := h.fieldNames e he
    refine ⟨⟨hold.isWord, ?_⟩, ⟨hnew.isWord, ?_⟩⟩
    · rintro rfl
      exact (hg.1 e he).1
    · rintro rfl
      exact (hg.1 e he).2
  methodNames := by
    intro e he
    obtain ⟨hold, hnew⟩ := h.methodNames e he
    refine ⟨⟨hold.isWord, ?_⟩, ⟨hnew.isWord, ?_⟩⟩
    · rintro rfl
      exact (hg.2 e he).1
    · rintro rfl
      exact (hg.2 e he).2
  firstClasses := by
    rintro e he rfl
    exact hg.1 e he
  firstFields := by
    rintro e he rfl
    exact hg.2.1 e he
  firstMethods := by
    rintro e he rfl
    exact hg.2.2 e he

/-- What one format can write another one can write exactly if it carries it. -/
theorem iff_carries (h : f.Representable m) : g.Representable m ↔ g.Carries m :=
  ⟨carries, h.of_carries⟩

end Representable

/-! ### Conversion -/

/-- **Conversion.**  Mappings that are read in one format, written in another one
and read again come back with the same entries exactly if the other format carries
them. -/
theorem sameEntries_iff_carries {f g : Format} {text : String} {m : Frozen}
    (h : (f.parse text).value = .ok m) :
    (∃ m', (g.parse ("\n".intercalate (g.toLines m.contract))).value = .ok m' ∧
      m'.sameEntries m = true) ↔ g.Carries m := by
  constructor
  · rintro ⟨m', hread, hsame⟩
    have hrep : g.Representable m' := representable_of_readLines hread
    exact hrep.carries.of_sameEntries hsame
  · intro hg
    have hrep : g.Representable m := (representable_of_readLines h).iff_carries.2 hg
    obtain ⟨m', hread, htables⟩ := hrep.value_parseLines
    refine ⟨m', ?_, Frozen.sameEntries_of_tables_eq htables⟩
    rw [parse, hrep.lines_intercalate]
    exact hread

/-- A class with a field. -/
def cow : Frozen := .ofNames [(⟨"ab"⟩, ⟨"Cow"⟩)] [] [(⟨⟨"ab"⟩, "b"⟩, "age")]

theorem sameEntries_iff_carries_cow :
    (tagged.parse "CL: ab Cow\nFD: ab/b Cow/age").value = .ok cow ∧ compact.Carries cow ∧
      ∃ m', (compact.parse ("\n".intercalate (compact.toLines cow.contract))).value = .ok m' ∧
        m'.sameEntries cow = true := by
  have hread : (tagged.parse "CL: ab Cow\nFD: ab/b Cow/age").value = .ok cow := rfl
  have hcarries : compact.Carries cow := by decide
  exact ⟨hread, hcarries, (sameEntries_iff_carries hread).2 hcarries⟩

/-- A class whose name opens with a number sign. -/
def numbered : Frozen := .ofNames [(⟨"#a"⟩, ⟨"b"⟩)] [] []

/-- A field whose name has a slash. -/
def slashed : Frozen := .ofNames [] [] [(⟨⟨"a"⟩, "b/c"⟩, "d")]

/-- The class is lost in the compact format, and the field is refused in the tagged
one, where its owner is `a/b` and its new owner is `a`. -/
theorem parse_toLines_not_carried :
    ((tagged.parse "CL: #a b").value = .ok numbered ∧
      ∃ m', (compact.parse ("\n".intercalate (compact.toLines numbered.contract))).value = .ok m' ∧
        m'.sameEntries numbered = false) ∧
    (compact.parse "a b/c d").value = .ok slashed ∧
      (tagged.parse ("\n".intercalate (tagged.toLines slashed.contract))).value
        = .error (.invalidEntry 1 "FD: a/b/c a/d" (.inconsistent .field "a/b/c" "a/d")) := by
  refine ⟨⟨rfl, .empty, rfl, ?_⟩, rfl, rfl⟩
  decide

end Format

end SymbolRenaming
