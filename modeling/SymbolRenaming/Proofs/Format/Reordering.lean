/-
SymbolRenaming/Proofs/Format/Reordering.lean

Lines in another order.

Design.  A record is about one symbol, the old one, and its kind (`Format.subject?`).
Lines may be rearranged as long as the records about one symbol keep their order
(`Format.Rearranged`).  What reading makes of a symbol is said by the last change of
just this symbol (`Entries.last?_filterMap_filter`), and so nothing of it is lost.

The compact reader accepts each line or refuses it, whatever it has read before, so
that lines in any order are accepted alike.  The tagged reader checks a member against
the class records before it, and may refuse the one order and accept the other; but of
a record that it accepts it takes the new name only.

Main result: `Format.parseLines_rearranged`.
-/
import SymbolRenaming.Proofs.Format.Changes
import SymbolRenaming.Proofs.Mappings.Agreement

namespace SymbolRenaming

open Editable (Change after)

/-! ### What a record is about -/

/-- A symbol of one of the three kinds. -/
inductive Subject where
  | ofClass (c : ClassName)
  | ofMethod (x : MethodSymbol)
  | ofField (x : FieldSymbol)
  deriving DecidableEq

/-- The old symbol of a record of the tagged format, if it can be read. -/
def Tagged.Record.subject? : Record → Option Subject
  | .ofClass old _ => (Compact.classOf old).toOption.map .ofClass
  | .ofField old _ => (FieldSymbol.ofInternalName old).toOption.map .ofField
  | .ofMethod old oldTypes _ _ => (MethodSymbol.ofInternalName old oldTypes).toOption.map .ofMethod
  | .ofPackage => none

/-- The old symbol of a record of the compact format, if it can be read. -/
def Compact.Record.subject? : Record → Option Subject
  | .ofClass old _ => (classOf old).toOption.map .ofClass
  | .ofField owner name _ => (classOf owner).toOption.map fun c => .ofField ⟨c, name⟩
  | .ofMethod owner name types _ => do
    let c ← (classOf owner).toOption
    let d ← (Descriptor.parse types).toOption
    some (.ofMethod ⟨c, name, d⟩)

/-- The change is one that can always be made, and is about the symbol. -/
inductive Editable.Change.IsAbout : Change → Subject → Prop where
  | ofClass {c d : ClassName} : IsAbout (.ofClass c d) (.ofClass c)
  | ofMethodName {x : MethodSymbol} {name : String} : IsAbout (.ofMethodName x name) (.ofMethod x)
  | ofFieldName {x : FieldSymbol} {name : String} : IsAbout (.ofFieldName x name) (.ofField x)

namespace Editable.Change.IsAbout

variable {e : Change} {s : Subject} (h : e.IsAbout s)
include h

theorem admissible (image : ClassName → ClassName) : e.Admissible image := by
  cases h <;> trivial

theorem eq_ofClass {a : ClassName × ClassName} (hpair : e.classPair? = some a) :
    s = .ofClass a.1 := by
  cases h <;> cases hpair
  rfl

theorem eq_ofMethod {a : MethodSymbol × String} (hpair : e.methodPair? = some a) :
    s = .ofMethod a.1 := by
  cases h <;> cases hpair
  rfl

theorem eq_ofField {a : FieldSymbol × String} (hpair : e.fieldPair? = some a) :
    s = .ofField a.1 := by
  cases h <;> cases hpair
  rfl

end Editable.Change.IsAbout

namespace Tagged

theorem Record.exists_subject {record : Record} {e : Change} (h : record.change? = some e) :
    ∃ s, record.subject? = some s ∧ e.IsAbout s := by
  cases record with
  | ofClass old renamed =>
    obtain ⟨c, hc, h⟩ := Option.bind_eq_some_iff.1 h
    obtain ⟨d, -, h⟩ := Option.bind_eq_some_iff.1 h
    cases h
    exact ⟨.ofClass c, by rw [subject?, hc]; rfl, .ofClass⟩
  | ofField old renamed =>
    obtain ⟨x, hx, h⟩ := Option.bind_eq_some_iff.1 h
    obtain ⟨y, -, h⟩ := Option.bind_eq_some_iff.1 h
    cases h
    exact ⟨.ofField x, by rw [subject?, hx]; rfl, .ofFieldName⟩
  | ofMethod old oldTypes renamed renamedTypes =>
    obtain ⟨x, hx, h⟩ := Option.bind_eq_some_iff.1 h
    obtain ⟨y, -, h⟩ := Option.bind_eq_some_iff.1 h
    cases h
    exact ⟨.ofMethod x, by rw [subject?, hx]; rfl, .ofMethodName⟩
  | ofPackage => cases h

end Tagged

namespace Compact

theorem Record.exists_subject {record : Record} {e : Change} (h : record.change? = some e) :
    ∃ s, record.subject? = some s ∧ e.IsAbout s := by
  cases record with
  | ofClass old renamed =>
    obtain ⟨c, hc, h⟩ := Option.bind_eq_some_iff.1 h
    obtain ⟨d, -, h⟩ := Option.bind_eq_some_iff.1 h
    cases h
    exact ⟨.ofClass c, by rw [subject?, hc]; rfl, .ofClass⟩
  | ofField owner name newName =>
    obtain ⟨c, hc, h⟩ := Option.bind_eq_some_iff.1 h
    cases h
    exact ⟨.ofField ⟨c, name⟩, by rw [subject?, hc]; rfl, .ofFieldName⟩
  | ofMethod owner name types newName =>
    obtain ⟨c, hc, h⟩ := Option.bind_eq_some_iff.1 h
    obtain ⟨d, hd, h⟩ := Option.bind_eq_some_iff.1 h
    cases h
    exact ⟨.ofMethod ⟨c, name, d⟩, by rw [subject?, hc, hd]; rfl, .ofMethodName⟩

end Compact

/-! ### Lines that are accepted in any order -/

namespace LineReader

variable {ρ σ : Type} (r : LineReader ρ σ)

/-- A reader that accepts a line or refuses it, whatever its state is, accepts lines if
it accepts each of them. -/
theorem exists_value_readLines_iff {p : String → Prop}
    (hstep : ∀ s number line, (∃ next, r.step s number line = .ok next) ↔ p line)
    (s : σ) (number : Nat) (lines : List String) :
    (∃ s', (r.readLines s number (lines.map some)).value = .ok s') ↔ ∀ line ∈ lines, p line := by
  induction lines generalizing s number with
  | nil => simp [readLines]
  | cons line lines ih =>
    rw [List.map_cons, readLines, List.forall_mem_cons, ← hstep s number line]
    -- the rest is read in whatever state the line has led to
    rcases r.step s number line with err | ⟨next, notices⟩
    · simp
    · simpa using ih next (number + 1)

end LineReader

namespace Compact

/-- Whether a record is accepted does not depend on the records before it. -/
theorem exists_accept_eq_ok {b b' next : Buffer} {number number' : Nat} {notices : List Notice}
    {record : Record} (h : accept b number record = .ok (next, notices)) :
    ∃ next' notices', accept b' number' record = .ok (next', notices') := by
  cases record with
  | ofClass old renamed =>
    obtain ⟨c, d, hc, hd, -, -⟩ := acceptClass_eq_ok_iff.1 h
    exact ⟨_, _, acceptClass_eq_ok_iff.2 ⟨c, d, hc, hd, rfl, rfl⟩⟩
  | ofField owner name newName =>
    obtain ⟨c, hc, -⟩ := acceptField_eq_ok_iff.1 (map_pair_eq_ok_iff.1 h).1
    exact ⟨_, [], map_pair_eq_ok_iff.2 ⟨acceptField_eq_ok_iff.2 ⟨c, hc, rfl⟩, rfl⟩⟩
  | ofMethod owner name types newName =>
    obtain ⟨c, d, hc, hd, -⟩ := acceptMethod_eq_ok_iff.1 (map_pair_eq_ok_iff.1 h).1
    exact ⟨_, [], map_pair_eq_ok_iff.2 ⟨acceptMethod_eq_ok_iff.2 ⟨c, d, hc, hd, rfl⟩, rfl⟩⟩

theorem exists_step_eq_ok {b b' : Buffer} {number number' : Nat} {line : String}
    (h : ∃ next, reader.step b number line = .ok next) :
    ∃ next, reader.step b' number' line = .ok next := by
  obtain ⟨⟨next, notices⟩, h⟩ := h
  rcases reader.step_eq_ok_iff.1 h with ⟨hline, -, -⟩ | ⟨record, hline, haccept⟩
  · exact ⟨(b', []), reader.step_eq_ok_iff.2 (Or.inl ⟨hline, rfl, rfl⟩)⟩
  · have haccept' : ∃ next' notices', accept b' number' record = .ok (next', notices') :=
      exists_accept_eq_ok haccept
    obtain ⟨next', notices', haccept'⟩ := haccept'
    exact ⟨(next', notices'), reader.step_eq_ok_iff.2 (Or.inr ⟨record, hline, haccept'⟩)⟩

end Compact

/-! ### Lines in another order -/

namespace Format

variable {f : Format} {ls ls' : List String}

/-- The symbol that a line is about, if it holds a record that is about one. -/
def subject? : Format → String → Option Subject
  | tagged, line => (LineContent.ofLine Tagged.recordOf line).bind? Tagged.Record.subject?
  | compact, line => (LineContent.ofLine Compact.recordOf line).bind? Compact.Record.subject?

/-- The change of a line is about the symbol that the line is about. -/
theorem exists_subject {line : String} {e : Change} (h : f.change? line = some e) :
    ∃ s, f.subject? line = some s ∧ e.IsAbout s := by
  cases f with
  | tagged =>
    obtain ⟨record, hline, h⟩ := LineContent.bind?_eq_some_iff.1 h
    obtain ⟨s, hs, habout⟩ := record.exists_subject h
    exact ⟨s, LineContent.bind?_eq_some_iff.2 ⟨record, hline, hs⟩, habout⟩
  | compact =>
    obtain ⟨record, hline, h⟩ := LineContent.bind?_eq_some_iff.1 h
    obtain ⟨s, hs, habout⟩ := record.exists_subject h
    exact ⟨s, LineContent.bind?_eq_some_iff.2 ⟨record, hline, hs⟩, habout⟩

/-- The same lines in another order, in which the records about each symbol stand in
the same order as before. -/
structure Rearranged (f : Format) (ls ls' : List String) : Prop where
  perm : ls.Perm ls'
  order : ∀ s, ls.filter (f.subject? · = some s) = ls'.filter (f.subject? · = some s)

/-- Only the symbols that the lines are about have to be looked at. -/
theorem rearranged_iff :
    f.Rearranged ls ls' ↔ ls.Perm ls' ∧ ∀ s ∈ ls.filterMap f.subject?,
      ls.filter (f.subject? · = some s) = ls'.filter (f.subject? · = some s) := by
  constructor
  · intro h
    exact ⟨h.perm, fun s _ => h.order s⟩
  · rintro ⟨hperm, horder⟩
    refine ⟨hperm, fun s => ?_⟩
    by_cases hs : s ∈ ls.filterMap f.subject?
    · exact horder s hs
    · -- no line is about the symbol, in either order
      have hnone : ∀ line ∈ ls, f.subject? line ≠ some s := by
        intro line hline hsubject
        exact hs (List.mem_filterMap.2 ⟨line, hline, hsubject⟩)
      rw [List.filter_eq_nil_iff.2 (by simpa using hnone),
        List.filter_eq_nil_iff.2 (by simpa [hperm.mem_iff] using hnone)]

instance (f : Format) (ls ls' : List String) : Decidable (f.Rearranged ls ls') :=
  decidable_of_iff _ rearranged_iff.symm

/-- No line makes a change that could be refused. -/
theorem changes_accepted (f : Format) (ls : List String) :
    Editable.accepted (ls.filterMap f.change?) = ls.filterMap f.change? := by
  refine Editable.accepted_eq_self fun e he image => ?_
  obtain ⟨line, -, hchange⟩ := List.mem_filterMap.1 he
  obtain ⟨s, -, habout⟩ := exists_subject hchange
  exact habout.admissible image

namespace Rearranged

/-- What is said of a symbol last is said of it last after the lines are rearranged. -/
theorem last?_eq {α β : Type} [DecidableEq α] (h : f.Rearranged ls ls')
    {pair? : Change → Option (α × β)} {about : α → Subject}
    (habout : ∀ {e s a}, e.IsAbout s → pair? e = some a → s = about a.1) (k : α) :
    Entries.last? k ((ls.filterMap f.change?).filterMap pair?)
      = Entries.last? k ((ls'.filterMap f.change?).filterMap pair?) := by
  -- the lines that say anything of the symbol are about it, and these keep their order
  have hdecide : ∀ line a, ((f.change? line).bind pair?) = some a → a.1 = k →
      decide (f.subject? line = some (about k)) = true := by
    rintro line a hpair rfl
    obtain ⟨e, hchange, hpair⟩ := Option.bind_eq_some_iff.1 hpair
    obtain ⟨s, hs, he⟩ := exists_subject hchange
    rw [decide_eq_true_iff, hs, habout he hpair]
  rw [List.filterMap_filterMap, List.filterMap_filterMap,
    ← Entries.last?_filterMap_filter hdecide ls, ← Entries.last?_filterMap_filter hdecide ls',
    h.order]

/-- Rearranged lines lead to mappings with the same entries. -/
theorem sameEntries_after (h : f.Rearranged ls ls') :
    (after (ls.filterMap f.change?)).freeze.sameEntries
      (after (ls'.filterMap f.change?)).freeze = true := by
  refine Editable.sameEntries_freeze (fun c => ?_) (fun x => ?_) fun x => ?_
  · rw [Editable.renameClass_after, Editable.renameClass_after, Editable.classImage,
      Editable.classImage, h.last?_eq fun he hpair => he.eq_ofClass hpair]
  · rw [Editable.get?_methodNames_after, Editable.get?_methodNames_after, Editable.methodName?,
      Editable.methodName?, changes_accepted, changes_accepted,
      h.last?_eq fun he hpair => he.eq_ofMethod hpair]
  · rw [Editable.get?_fieldNames_after, Editable.get?_fieldNames_after, Editable.fieldName?,
      Editable.fieldName?, changes_accepted, changes_accepted,
      h.last?_eq fun he hpair => he.eq_ofField hpair]

end Rearranged

/-- The compact format accepts lines if it accepts each of them. -/
theorem exists_value_parseLines_compact_iff (ls : List String) :
    (∃ m, (compact.parseLines ls).value = .ok m) ↔
      ∀ line ∈ ls, ∃ next, Compact.reader.step {} 0 line = .ok next := by
  have hrun := Compact.reader.exists_value_readLines_iff
    (p := fun line => ∃ next, Compact.reader.step {} 0 line = .ok next)
    (fun _ _ _ => ⟨Compact.exists_step_eq_ok, Compact.exists_step_eq_ok⟩) {} 1 ls
  rw [← hrun]
  constructor
  · rintro ⟨m, hm⟩
    obtain ⟨b, hb, -⟩ := Compact.reader.value_read_eq_ok_iff.1 hm
    exact ⟨b, hb⟩
  · rintro ⟨b, hb⟩
    exact ⟨_, Compact.reader.value_read_eq_ok_iff.2 ⟨b, hb, rfl⟩⟩

/-- **The order of records matters for each symbol only.**  If lines are rearranged so
that the records about each symbol keep their order, then the compact format accepts
them exactly if it accepted them before, and in both formats, if the lines are accepted
before and after, the mappings have the same entries. -/
theorem parseLines_rearranged (h : f.Rearranged ls ls') :
    (f = compact → ((∃ m, (f.parseLines ls).value = .ok m) ↔
      ∃ m', (f.parseLines ls').value = .ok m')) ∧
    ∀ m m', (f.parseLines ls).value = .ok m → (f.parseLines ls').value = .ok m' →
      m.sameEntries m' = true := by
  constructor
  · rintro rfl
    rw [exists_value_parseLines_compact_iff, exists_value_parseLines_compact_iff]
    exact forall_congr' fun line => by rw [h.perm.mem_iff]
  · intro m m' hm hm'
    have hlines := sameEntries_after_changes hm
    have hlines' := sameEntries_after_changes hm'
    exact Frozen.sameEntries_trans (Frozen.sameEntries_trans hlines h.sameEntries_after)
      (Frozen.sameEntries_symm hlines')

/-- A class that is renamed and then given its own name again, and a field that is
renamed twice. -/
def interleaved : List String :=
  ["CL: c d", "FD: c/h d/i", "CL: a b", "FD: a/f b/g", "CL: a a", "FD: c/h d/j"]

/-- The same, symbol by symbol. -/
def grouped : List String :=
  ["CL: a b", "FD: a/f b/g", "CL: a a", "CL: c d", "FD: c/h d/i", "FD: c/h d/j"]

/-- The fields come in another order, but with the same new names.  With the member
first, the tagged format refuses what the compact one accepts. -/
theorem parseLines_rearranged_interleaved :
    tagged.Rearranged interleaved grouped ∧
      (∃ m m', (tagged.parseLines interleaved).value = .ok m ∧
        (tagged.parseLines grouped).value = .ok m' ∧ m.sameEntries m' = true ∧
        m.contract.fieldEntries
          = [(⟨⟨"c"⟩, "h"⟩, ⟨⟨"d"⟩, "j"⟩), (⟨⟨"a"⟩, "f"⟩, ⟨⟨"a"⟩, "g"⟩)] ∧
        m'.contract.fieldEntries = m.contract.fieldEntries.reverse) ∧
      compact.Rearranged ["a b", "a f g"] ["a f g", "a b"] ∧
      (∃ m, (compact.parseLines ["a f g", "a b"]).value = .ok m) ∧
      tagged.Rearranged ["CL: a b", "FD: a/f b/g"] ["FD: a/f b/g", "CL: a b"] ∧
      (∃ m, (tagged.parseLines ["CL: a b", "FD: a/f b/g"]).value = .ok m) ∧
      ¬ ∃ m, (tagged.parseLines ["FD: a/f b/g", "CL: a b"]).value = .ok m := by
  have hgrouped : tagged.Rearranged interleaved grouped := by decide
  have hturned : compact.Rearranged ["a b", "a f g"] ["a f g", "a b"] := by decide
  have hread : (tagged.parseLines interleaved).value
      = .ok (.ofNames [(⟨"c"⟩, ⟨"d"⟩)] [] [(⟨⟨"c"⟩, "h"⟩, "j"), (⟨⟨"a"⟩, "f"⟩, "g")]) := rfl
  have hread' : (tagged.parseLines grouped).value
      = .ok (.ofNames [(⟨"c"⟩, ⟨"d"⟩)] [] [(⟨⟨"a"⟩, "f"⟩, "g"), (⟨⟨"c"⟩, "h"⟩, "j")]) := rfl
  have hsame := (parseLines_rearranged hgrouped).2 _ _ hread hread'
  refine ⟨hgrouped, ⟨_, _, hread, hread', hsame, rfl, rfl⟩, hturned, ?_, by decide, ⟨_, rfl⟩, ?_⟩
  · exact ((parseLines_rearranged hturned).1 rfl).1 ⟨_, rfl⟩
  · rintro ⟨m, hm⟩
    cases hm

end Format

end SymbolRenaming
