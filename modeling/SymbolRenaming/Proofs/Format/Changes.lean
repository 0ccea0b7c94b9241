/-
SymbolRenaming/Proofs/Format/Changes.lean

Reading lines as a history of changes.

Design.  What a line changes is said by the line alone: a class record gives a class
its new name, a member record gives a member its new name, and every other line
changes nothing (`Format.change?`).  Whether the line is accepted is another matter,
and in the tagged format depends on the lines before it; but if it is, then it makes
just this change.

So a run over accepted lines is a history of changes of editable mappings.  The tagged
reader holds the state after this history, and the compact reader holds the same
records (`Tagged.SameRecords`).  Both end with mappings that have the entries of the
state after the history.

Main result: `Format.sameEntries_after_changes`.
-/
import SymbolRenaming.Proofs.Format.CompactForm
import SymbolRenaming.Proofs.Mappings.History

namespace SymbolRenaming

open Editable (Change after)

/-! ### Runs over records -/

/-- What a record gives, if the line holds one. -/
def LineContent.bind? {ρ ε : Type} (g : ρ → Option ε) : LineContent ρ → Option ε
  | record r => g r
  | _ => none

theorem LineContent.bind?_eq_some_iff {ρ ε : Type} {g : ρ → Option ε} {content : LineContent ρ}
    {x : ε} :
    content.bind? g = some x ↔ ∃ record, content = .record record ∧ g record = some x := by
  cases content <;> simp [bind?]

namespace LineReader

variable {ρ σ ε : Type} (r : LineReader ρ σ)

/-- If every accepted record adds its change to the history of the state, then a run
adds the changes of its lines. -/
theorem history_readLines {change? : ρ → Option ε} {R : σ → List ε → Prop}
    (haccept : ∀ {s s' number notices record history}, R s history →
      r.accept s number record = .ok (s', notices) → R s' (history ++ (change? record).toList))
    {s s' : σ} {number : Nat} {lines : List String} {history : List ε} (hR : R s history)
    (h : (r.readLines s number (lines.map some)).value = .ok s') :
    R s' (history ++ lines.filterMap fun line =>
      (LineContent.ofLine r.recordOf line).bind? change?) := by
  induction lines generalizing s number history with
  | nil =>
    rw [List.filterMap_nil, List.append_nil]
    exact Except.ok.inj h ▸ hR
  | cons line lines ih =>
    rw [List.map_cons, readLines] at h
    rcases e : r.step s number line with err | ⟨next, notices⟩
    · rw [e] at h
      cases h
    · rw [e] at h
      -- the history that stands for the state grows by the change of this line
      rcases r.step_eq_ok_iff.1 e with ⟨hline, rfl, -⟩ | ⟨record, hline, hrecord⟩
      · rw [List.filterMap_cons, hline]
        exact ih hR h
      · have hnext := ih (haccept hR hrecord) h
        rw [List.filterMap_cons, hline]
        rcases hchange : change? record with - | x
        · simpa [LineContent.bind?, hchange] using hnext
        · simpa [LineContent.bind?, hchange] using hnext

end LineReader

/-! ### The change of a record -/

/-- The change that a record of the tagged format makes when it is accepted. -/
def Tagged.Record.change? : Record → Option Change
  | .ofClass old renamed => do
    let c ← (Compact.classOf old).toOption
    let d ← (Compact.classOf renamed).toOption
    some (.ofClass c d)
  | .ofField old renamed => do
    let x ← (FieldSymbol.ofInternalName old).toOption
    let y ← (FieldSymbol.ofInternalName renamed).toOption
    some (.ofFieldName x y.name)
  | .ofMethod old oldTypes renamed renamedTypes => do
    let x ← (MethodSymbol.ofInternalName old oldTypes).toOption
    let y ← (MethodSymbol.ofInternalName renamed renamedTypes).toOption
    some (.ofMethodName x y.name)
  | .ofPackage => none

/-- The change that a record of the compact format makes when it is accepted. -/
def Compact.Record.change? : Record → Option Change
  | .ofClass old renamed => do
    let c ← (classOf old).toOption
    let d ← (classOf renamed).toOption
    some (.ofClass c d)
  | .ofField owner name newName => do
    let c ← (classOf owner).toOption
    some (.ofFieldName ⟨c, name⟩ newName)
  | .ofMethod owner name types newName => do
    let c ← (classOf owner).toOption
    let d ← (Descriptor.parse types).toOption
    some (.ofMethodName ⟨c, name, d⟩ newName)

/-- The change that a line makes when it is accepted. -/
def Format.change? : Format → String → Option Change
  | tagged, line => (LineContent.ofLine Tagged.recordOf line).bind? Tagged.Record.change?
  | compact, line => (LineContent.ofLine Compact.recordOf line).bind? Compact.Record.change?

namespace Tagged

/-- An accepted record of the tagged format makes its change. -/
theorem eq_of_accept {m m' : Editable} {number : Nat} {notices : List Notice} {record : Record}
    (h : accept m number record = .ok (m', notices)) :
    m' = record.change?.toList.foldl Editable.step m := by
  cases record with
  | ofClass old renamed =>
    obtain ⟨c, d, hc, hd, rfl, -⟩ := acceptClass_eq_ok_iff.1 h
    rw [Record.change?, Compact.classOf_eq_ok_iff.2 hc, Compact.classOf_eq_ok_iff.2 hd]
    rfl
  | ofField old renamed =>
    -- that the owners agree is no part of the change
    obtain ⟨x, y, hx, hy, -, rfl⟩ := acceptField_eq_ok_iff.1 (map_pair_eq_ok_iff.1 h).1
    rw [Record.change?, FieldSymbol.ofInternalName_eq_ok_iff.2 hx,
      FieldSymbol.ofInternalName_eq_ok_iff.2 hy]
    rfl
  | ofMethod old oldTypes renamed renamedTypes =>
    obtain ⟨x, y, hx, hy, -, rfl⟩ := acceptMethod_eq_ok_iff.1 (map_pair_eq_ok_iff.1 h).1
    rw [Record.change?, MethodSymbol.ofInternalName_eq_ok_iff.2 hx,
      MethodSymbol.ofInternalName_eq_ok_iff.2 hy]
    rfl
  | ofPackage =>
    obtain ⟨rfl, -⟩ := Prod.mk.inj (Except.ok.inj h)
    rfl

/-- An accepted record of the compact format keeps what its change sets. -/
theorem SameRecords.accept_compact {m : Editable} {b b' : Compact.Buffer} (hsame : SameRecords m b)
    {number : Nat} {notices : List Notice} {record : Compact.Record}
    (h : Compact.accept b number record = .ok (b', notices)) :
    SameRecords (record.change?.toList.foldl Editable.step m) b' := by
  cases record with
  | ofClass old renamed =>
    obtain ⟨c, d, hc, hd, rfl, -⟩ := Compact.acceptClass_eq_ok_iff.1 h
    rw [Compact.Record.change?, Compact.classOf_eq_ok_iff.2 hc, Compact.classOf_eq_ok_iff.2 hd]
    exact hsame.setClass c d
  | ofField owner name newName =>
    obtain ⟨c, hc, rfl⟩ := Compact.acceptField_eq_ok_iff.1 (map_pair_eq_ok_iff.1 h).1
    rw [Compact.Record.change?, Compact.classOf_eq_ok_iff.2 hc]
    exact hsame.setFieldName ⟨c, name⟩ newName
  | ofMethod owner name types newName =>
    obtain ⟨c, d, hc, hd, rfl⟩ := Compact.acceptMethod_eq_ok_iff.1 (map_pair_eq_ok_iff.1 h).1
    rw [Compact.Record.change?, Compact.classOf_eq_ok_iff.2 hc, Descriptor.parse_eq_ok_iff.2 hd]
    exact hsame.setMethodName ⟨c, name, d⟩ newName

end Tagged

/-! ### The end of the run -/

namespace Editable

theorem after_append (history changes : List Change) :
    after (history ++ changes) = changes.foldl step (after history) :=
  List.foldl_append

end Editable

namespace Format

/-- What was read has the entries of editable mappings after the changes of the
lines. -/
theorem sameEntries_after_changes {f : Format} {lines : List String} {m : Frozen}
    (h : (f.parseLines lines).value = .ok m) :
    m.sameEntries (after (lines.filterMap f.change?)).freeze = true := by
  cases f with
  | tagged =>
    obtain ⟨s, hs, rfl⟩ := Tagged.reader.value_read_eq_ok_iff.1 h
    have hafter : s = after ([] ++ lines.filterMap tagged.change?) := by
      refine Tagged.reader.history_readLines (R := fun s history => s = after history) ?_ rfl hs
      intro s s' number notices record history hR haccept
      rw [Editable.after_append, ← hR]
      exact Tagged.eq_of_accept haccept
    rw [List.nil_append] at hafter
    rw [← hafter]
    exact Frozen.sameEntries_of_tables_eq rfl
  | compact =>
    obtain ⟨b, hb, rfl⟩ := Compact.reader.value_read_eq_ok_iff.1 h
    have hsame : Tagged.SameRecords (after ([] ++ lines.filterMap compact.change?)) b := by
      refine Compact.reader.history_readLines
        (R := fun b history => Tagged.SameRecords (after history) b) ?_ .empty hb
      intro s s' number notices record history hR haccept
      rw [Editable.after_append]
      exact hR.accept_compact haccept
    exact hsame.sameEntries_finish

end Format

end SymbolRenaming
