/-
SymbolRenaming/Proofs/Format/Reading.lean

Runs of the two readers, and the records that they accept.

Design.  What holds of a run is shown line by line.  A property of the state
that every accepted record keeps holds at the end of the run
(`LineReader.invariant_readLines`), and lines that are accepted one after the
other make the run a fold (`LineReader.value_readLines_map`).

A record is accepted exactly if its columns are the spellings of symbols that
the reader can read, and then it changes the state by these symbols alone.  Each
kind of record has such an equivalence, once for the tagged format and once for
the compact one.
-/
import SymbolRenaming.Format.Codec
import SymbolRenaming.Proofs.Basic
import SymbolRenaming.Proofs.Symbols.Reading

namespace SymbolRenaming

open Text

/-! ### Lines and records -/

/-- A column that makes its line a comment when it stands first. -/
def StartsComment (column : String) : Prop := column.toList.head? = some '#'

instance (column : String) : Decidable (StartsComment column) :=
  inferInstanceAs (Decidable (_ = _))

theorem LineContent.ofLine_eq_record_iff {ρ : Type} {recordOf : List String → Option ρ}
    {line : String} {record : ρ} :
    ofLine recordOf line = .record record ↔ ∃ first rest, columns line = first :: rest ∧
      ¬ StartsComment first ∧ recordOf (first :: rest) = some record := by
  rw [ofLine]
  rcases columns line with - | ⟨first, rest⟩
  · simp
  · by_cases hcomment : first.toList.head? = some '#'
    · simp only [hcomment, if_true, reduceCtorEq, false_iff, not_exists, not_and]
      rintro f r hfr hne
      obtain ⟨rfl, -⟩ := List.cons.inj hfr
      exact absurd hcomment hne
    · simp only [hcomment, if_false]
      refine ⟨fun h => ?_, ?_⟩
      · refine ⟨first, rest, rfl, hcomment, ?_⟩
        split at h
        · rename_i r hr
          cases h
          exact hr
        · cases h
      · rintro ⟨f, r, hfr, -, hr⟩
        rw [hfr, hr]

namespace LineReader

variable {ρ σ : Type} (r : LineReader ρ σ)

/-- A line with single blanks between the columns of a record is accepted as
the record is. -/
theorem step_intercalate {s s' : σ} {number : Nat} {notices : List Notice} {record : ρ}
    {first : String} {rest : List String} (hwords : ∀ w ∈ first :: rest, IsWord w)
    (hfirst : ¬ StartsComment first) (hrecord : r.recordOf (first :: rest) = some record)
    (haccept : r.accept s number record = .ok (s', notices)) :
    r.step s number (" ".intercalate (first :: rest)) = .ok (s', notices) := by
  have hline : LineContent.ofLine r.recordOf (" ".intercalate (first :: rest))
      = .record record :=
    LineContent.ofLine_eq_record_iff.2 ⟨first, rest, columns_intercalate hwords, hfirst, hrecord⟩
  rw [step, hline]
  simp only [haccept]

/-- An accepted line is blank, or its record is accepted. -/
theorem step_eq_ok_iff {s s' : σ} {number : Nat} {line : String} {notices : List Notice} :
    r.step s number line = .ok (s', notices) ↔
      (LineContent.ofLine r.recordOf line = .blank ∧ s' = s ∧ notices = []) ∨
      ∃ record, LineContent.ofLine r.recordOf line = .record record ∧
        r.accept s number record = .ok (s', notices) := by
  rw [step]
  rcases LineContent.ofLine r.recordOf line with - | record | -
  · simp [eq_comm]
  · rcases haccept : r.accept s number record with err | next <;> simp [haccept]
  · simp

/-- A line that is accepted leaves the state alone or is a record. -/
theorem step_eq_ok {s s' : σ} {number : Nat} {line : String} {notices : List Notice}
    (h : r.step s number line = .ok (s', notices)) :
    s' = s ∨ ∃ first rest record, (∀ w ∈ first :: rest, IsWord w) ∧ ¬ StartsComment first ∧
      r.recordOf (first :: rest) = some record ∧
      r.accept s number record = .ok (s', notices) := by
  rcases r.step_eq_ok_iff.1 h with ⟨-, hs, -⟩ | ⟨record, hline, haccept⟩
  · exact Or.inl hs
  · obtain ⟨first, rest, hcolumns, hfirst, hrecord⟩ := LineContent.ofLine_eq_record_iff.1 hline
    refine Or.inr ⟨first, rest, record, ?_, hfirst, hrecord, haccept⟩
    intro w hw
    rw [← hcolumns] at hw
    exact isWord_of_mem_columns hw

/-- A property that every accepted record keeps holds after a run. -/
theorem invariant_readLines {I : σ → Prop}
    (hstep : ∀ {s s' number notices first rest record}, I s →
      (∀ w ∈ first :: rest, IsWord w) → ¬ StartsComment first →
      r.recordOf (first :: rest) = some record →
      r.accept s number record = .ok (s', notices) → I s')
    {s s' : σ} {number : Nat} {lines : List (Option String)} (hs : I s)
    (h : (r.readLines s number lines).value = .ok s') : I s' := by
  induction lines generalizing s number with
  | nil => exact Except.ok.inj h ▸ hs
  | cons line lines ih =>
    rcases line with - | line
    · cases h
    · rw [readLines] at h
      rcases e : r.step s number line with err | ⟨next, notices⟩
      · rw [e] at h
        cases h
      · rw [e] at h
        refine ih ?_ h
        rcases r.step_eq_ok e with rfl | ⟨first, rest, record, hwords, hfirst, hrecord, haccept⟩
        · exact hs
        · exact hstep hs hwords hfirst hrecord haccept

/-- Lines that are accepted, each with a known effect on some part of the state,
make the run a fold over that part. -/
theorem value_readLines_map {β τ : Type} {line : β → String} {place : τ → σ} {next : τ → β → τ}
    {xs : List β}
    (hstep : ∀ t number, ∀ x ∈ xs, ∃ notices,
      r.step (place t) number (line x) = .ok (place (next t x), notices))
    (t : τ) (number : Nat) :
    (r.readLines (place t) number (xs.map fun x => some (line x))).value
      = .ok (place (xs.foldl next t)) := by
  induction xs generalizing t number with
  | nil => rfl
  | cons x xs ih =>
    obtain ⟨notices, hx⟩ := hstep t number x (List.mem_cons_self ..)
    rw [List.map_cons, readLines, hx]
    refine ih ?_ (next t x) (number + 1)
    intro u n y hy
    exact hstep u n y (List.mem_cons_of_mem _ hy)

theorem value_read_eq_ok_iff {lines : List (Option String)} {m : Frozen} :
    (r.read lines).value = .ok m ↔
      ∃ s, (r.readLines r.start 1 lines).value = .ok s ∧ (r.finish s).value = m := by
  rw [read]
  rcases (r.readLines r.start 1 lines).value with err | s
  · simp
  · simp

theorem value_read_eq_error_iff {lines : List (Option String)} {e : ReadError} :
    (r.read lines).value = .error e ↔ (r.readLines r.start 1 lines).value = .error e := by
  rw [read]
  rcases (r.readLines r.start 1 lines).value with err | s
  · simp
  · simp

end LineReader

/-! ### Records of the tagged format -/

namespace Tagged

theorem recordOf_eq_ofField_iff {columns : List String} {old renamed : String} :
    recordOf columns = some (.ofField old renamed) ↔ columns = ["FD:", old, renamed] := by
  refine ⟨fun h => ?_, ?_⟩
  · rw [recordOf.eq_def] at h
    split at h <;> simp_all
  · rintro rfl
    rfl

theorem recordOf_eq_ofMethod_iff {columns : List String}
    {old oldTypes renamed renamedTypes : String} :
    recordOf columns = some (.ofMethod old oldTypes renamed renamedTypes) ↔
      columns = ["MD:", old, oldTypes, renamed, renamedTypes] := by
  refine ⟨fun h => ?_, ?_⟩
  · rw [recordOf.eq_def] at h
    split at h <;> simp_all
  · rintro rfl
    rfl

theorem acceptClass_eq_ok_iff {m m' : Editable} {number : Nat} {old renamed : String}
    {notices : List Notice} :
    acceptClass m number old renamed = .ok (m', notices) ↔
      ∃ c d : ClassName, (old = c.text ∧ c.isWellFormed = true) ∧
        (renamed = d.text ∧ d.isWellFormed = true) ∧ m' = m.setClass c d ∧
        notices = overrideNotices m number c d := by
  simp only [acceptClass, bind_eq_ok_iff, mapError_eq_ok_iff,
    ← VmType.ofInternalName_eq_ok_reference_iff]
  constructor
  · rintro ⟨t, ht, u, hu, next, hnext, h⟩
    rw [Editable.setClassType] at hnext
    split at hnext
    · rename_i c d hc hd
      cases t with
      | primitive p => cases hc
      | array t => cases hc
      | reference c' =>
        cases u with
        | primitive p => cases hd
        | array u => cases hd
        | reference d' =>
          obtain ⟨rfl, rfl⟩ := Prod.mk.inj (Except.ok.inj h)
          cases hc
          cases hd
          exact ⟨_, _, ht, hu, (Except.ok.inj hnext).symm, rfl⟩
    · cases hnext
    · cases hnext
  · rintro ⟨c, d, hc, hd, rfl, rfl⟩
    exact ⟨_, hc, _, hd, _, rfl, rfl⟩

theorem acceptField_eq_ok_iff {m m' : Editable} {old renamed : String} :
    acceptField m old renamed = .ok m' ↔
      ∃ x y : FieldSymbol, (old = x.internalName ∧ IsMemberName x.owner x.name) ∧
        (renamed = y.internalName ∧ IsMemberName y.owner y.name) ∧
        m.renameClass x.owner = y.owner ∧ m' = m.setFieldName x y.name := by
  simp only [acceptField, bind_eq_ok_iff, mapError_eq_ok_iff,
    ← FieldSymbol.ofInternalName_eq_ok_iff]
  refine exists_congr fun x => ?_
  rw [← exists_and_left]
  refine exists_congr fun y => and_congr_right fun _ => and_congr_right fun _ => ?_
  have hagree : m.contract.fieldAgrees (x, y) = true ↔ m.renameClass x.owner = y.owner :=
    FieldSymbol.sameTypes_iff
  rw [Editable.setField, ← hagree]
  split
  · rename_i h
    simp [h, eq_comm]
  · rename_i h
    simp [h]

theorem acceptMethod_eq_ok_iff {m m' : Editable} {old oldTypes renamed renamedTypes : String} :
    acceptMethod m old oldTypes renamed renamedTypes = .ok m' ↔
      ∃ x y : MethodSymbol,
        ((old = x.internalName ∧ IsMemberName x.owner x.name) ∧
          x.descriptor.Readable ∧ oldTypes = x.descriptor.text) ∧
        ((renamed = y.internalName ∧ IsMemberName y.owner y.name) ∧
          y.descriptor.Readable ∧ renamedTypes = y.descriptor.text) ∧
        (m.renameClass x.owner = y.owner ∧
          x.descriptor.mapClasses m.renameClass = y.descriptor) ∧
        m' = m.setMethodName x y.name := by
  simp only [acceptMethod, bind_eq_ok_iff, mapError_eq_ok_iff,
    ← MethodSymbol.ofInternalName_eq_ok_iff]
  refine exists_congr fun x => ?_
  rw [← exists_and_left]
  refine exists_congr fun y => and_congr_right fun _ => and_congr_right fun _ => ?_
  have hagree : m.contract.methodAgrees (x, y) = true ↔ m.renameClass x.owner = y.owner ∧
      x.descriptor.mapClasses m.renameClass = y.descriptor :=
    MethodSymbol.sameTypes_iff
  rw [Editable.setMethod, ← hagree]
  split
  · rename_i h
    simp [h, eq_comm]
  · rename_i h
    simp [h]

end Tagged

/-! ### Records of the compact format -/

namespace Compact

theorem recordOf_eq_ofClass_iff {columns : List String} {old renamed : String} :
    recordOf columns = some (.ofClass old renamed) ↔ columns = [old, renamed] := by
  refine ⟨fun h => ?_, ?_⟩
  · rw [recordOf.eq_def] at h
    split at h <;> simp_all
  · rintro rfl
    rfl

theorem recordOf_eq_ofField_iff {columns : List String} {owner name newName : String} :
    recordOf columns = some (.ofField owner name newName) ↔ columns = [owner, name, newName] := by
  refine ⟨fun h => ?_, ?_⟩
  · rw [recordOf.eq_def] at h
    split at h <;> simp_all
  · rintro rfl
    rfl

theorem recordOf_eq_ofMethod_iff {columns : List String} {owner name types newName : String} :
    recordOf columns = some (.ofMethod owner name types newName) ↔
      columns = [owner, name, types, newName] := by
  refine ⟨fun h => ?_, ?_⟩
  · rw [recordOf.eq_def] at h
    split at h <;> simp_all
  · rintro rfl
    rfl

theorem classOf_eq_ok_iff {s : String} {c : ClassName} :
    classOf s = .ok c ↔ s = c.text ∧ c.isWellFormed = true := by
  rw [← VmType.ofInternalName_eq_ok_reference_iff, classOf]
  rcases VmType.ofInternalName s with e | t
  · simp
  · cases t <;> simp [VmType.asClass]

theorem acceptClass_eq_ok_iff {b b' : Buffer} {number : Nat} {old renamed : String}
    {notices : List Notice} :
    acceptClass b number old renamed = .ok (b', notices) ↔
      ∃ c d : ClassName, (old = c.text ∧ c.isWellFormed = true) ∧
        (renamed = d.text ∧ d.isWellFormed = true) ∧
        b' = { b with classes := b.classes.insert c d } ∧
        notices = overrideNotices b number c d := by
  simp only [acceptClass, bind_eq_ok_iff, classOf_eq_ok_iff]
  refine exists_congr fun c => ?_
  rw [← exists_and_left]
  refine exists_congr fun d => and_congr_right fun _ => and_congr_right fun _ => ?_
  simp [pure, Except.pure, eq_comm]

theorem acceptField_eq_ok_iff {b b' : Buffer} {owner name newName : String} :
    acceptField b owner name newName = .ok b' ↔
      ∃ c : ClassName, (owner = c.text ∧ c.isWellFormed = true) ∧
        b' = { b with fieldNames := b.fieldNames.insert ⟨c, name⟩ newName } := by
  simp only [acceptField, bind_eq_ok_iff, classOf_eq_ok_iff]
  refine exists_congr fun c => and_congr_right fun _ => ?_
  simp [pure, Except.pure, eq_comm]

theorem acceptMethod_eq_ok_iff {b b' : Buffer} {owner name types newName : String} :
    acceptMethod b owner name types newName = .ok b' ↔
      ∃ (c : ClassName) (d : Descriptor), (owner = c.text ∧ c.isWellFormed = true) ∧
        (d.Readable ∧ types = d.text) ∧
        b' = { b with methodNames := b.methodNames.insert ⟨c, name, d⟩ newName } := by
  simp only [acceptMethod, bind_eq_ok_iff, mapError_eq_ok_iff, classOf_eq_ok_iff,
    Descriptor.parse_eq_ok_iff]
  refine exists_congr fun c => ?_
  rw [← exists_and_left]
  refine exists_congr fun d => and_congr_right fun _ => and_congr_right fun _ => ?_
  simp [pure, Except.pure, eq_comm]

end Compact

end SymbolRenaming
