/-
SymbolRenaming/Proofs/Format/Refusal.lean

The first line that a format refuses.

Design.  Whether a line is refused, and why, is said by the line and the lines before it
(`Format.refusal?`), without the state of a reader.  A line is malformed if its columns
are no record.  A record is judged by its symbols in the order in which they stand: the
first one that cannot be read is named.  In the tagged format the types of a renamed member
also have to be those that the class records before it give the old one; what lines of
other kinds have said does not matter, and in the compact format no line matters to another.

The state of a reader after lines that fit is described by these lines, so that one step
accepts a line or refuses it as it is said here (`exists_step_of_refusal?_eq_none`,
`step_of_refusal?_eq_some`).  From the step follows the run: lines that fit are read, and
otherwise reading ends with the first line that does not, whatever comes behind it.  The
entry points differ in where lines come from, and the lines of an encoded text are the
lines of the text.

Main result: `Format.parse_refuses_first`.
-/
import SymbolRenaming.Proofs.Format.Changes
import SymbolRenaming.Proofs.Text.LineBreaks

namespace SymbolRenaming

open Editable (after classImage)
open Text (BreaksInto)

/-! ### Why a line is refused -/

/-- What is wrong with a line. -/
inductive Refusal where
  /-- The line is no record. -/
  | malformed
  /-- The line is a record that does not fit. -/
  | invalid (cause : RenamingError)
  deriving DecidableEq, Repr

/-- The error for a line with a number. -/
def Refusal.error (number : Nat) (line : String) : Refusal → ReadError
  | malformed => .malformedLine number line
  | invalid cause => .invalidEntry number line cause

/-- What is wrong with a line, if its records are judged in some way. -/
def LineContent.refusal? {ρ : Type} (judge : ρ → Except RenamingError Unit) :
    LineContent ρ → Option Refusal
  | blank => none
  | malformed => some .malformed
  | record r =>
    match judge r with
    | .ok () => none
    | .error cause => some (.invalid cause)

/-- Judges a record of the tagged format, when classes are renamed in some way. -/
def Tagged.Record.judge (image : ClassName → ClassName) : Record → Except RenamingError Unit
  | .ofClass old renamed => do
    let old ← (VmType.ofInternalName old).mapError .symbol
    let renamed ← (VmType.ofInternalName renamed).mapError .symbol
    let _ ← old.asClass.mapError .symbol
    let _ ← renamed.asClass.mapError .symbol
  | .ofField old renamed => do
    let x ← (FieldSymbol.ofInternalName old).mapError .symbol
    let y ← (FieldSymbol.ofInternalName renamed).mapError .symbol
    if y.owner = image x.owner then pure () else throw (Renaming.fieldError (x, y))
  | .ofMethod old oldTypes renamed renamedTypes => do
    let x ← (MethodSymbol.ofInternalName old oldTypes).mapError .symbol
    let y ← (MethodSymbol.ofInternalName renamed renamedTypes).mapError .symbol
    if y.owner = image x.owner ∧ y.descriptor = x.descriptor.mapClasses image then pure ()
    else throw (Renaming.methodError (x, y))
  | .ofPackage => pure ()

/-- Judges a record of the compact format. -/
def Compact.Record.judge : Record → Except RenamingError Unit
  | .ofClass old renamed => do
    let _ ← classOf old
    let _ ← classOf renamed
  | .ofField owner _ _ => do
    let _ ← classOf owner
  | .ofMethod owner _ types _ => do
    let _ ← classOf owner
    let _ ← (Descriptor.parse types).mapError .symbol

/-- Nothing is wrong with any of the lines behind the lines before it. -/
def AllFit (refusal? : List String → String → Option Refusal) (lines : List String) : Prop :=
  ∀ before line after, lines = before ++ line :: after → refusal? before line = none

namespace Format

/-- What is wrong with a line behind other lines, if anything is. -/
def refusal? (f : Format) (before : List String) (line : String) : Option Refusal :=
  match f with
  | tagged => (LineContent.ofLine Tagged.recordOf line).refusal?
      (Tagged.Record.judge (classImage (before.filterMap tagged.change?)))
  | compact => (LineContent.ofLine Compact.recordOf line).refusal? Compact.Record.judge

/-- Each line fits behind the lines before it. -/
def Fits (f : Format) (lines : List String) : Prop := AllFit f.refusal? lines

end Format

/-! ### One record -/

namespace Tagged

/-- A record is accepted as it is judged by the classes of the store. -/
theorem map_accept (m : Editable) (number : Nat) (record : Record) :
    (accept m number record).map (fun _ => ()) = record.judge m.renameClass := by
  cases record with
  | ofClass old renamed =>
    rw [accept, acceptClass, Record.judge]
    rcases VmType.ofInternalName old with e | t
    · rfl
    · rcases VmType.ofInternalName renamed with e | u
      · rfl
      · cases t <;> cases u <;> rfl
  | ofField old renamed =>
    rw [accept, acceptField, Record.judge]
    rcases FieldSymbol.ofInternalName old with e | x
    · rfl
    · rcases FieldSymbol.ofInternalName renamed with e | y
      · rfl
      · have hagree : m.contract.fieldAgrees (x, y) = true ↔ y.owner = m.renameClass x.owner :=
          FieldSymbol.sameTypes_iff.trans eq_comm
        show ((m.setField x y).map (·, [])).map (fun _ => ())
          = if y.owner = m.renameClass x.owner then pure () else throw (Renaming.fieldError (x, y))
        rw [Editable.setField]
        by_cases h : y.owner = m.renameClass x.owner
        · rw [if_pos (hagree.2 h), if_pos h]
          rfl
        · rw [if_neg (mt hagree.1 h), if_neg h]
          rfl
  | ofMethod old oldTypes renamed renamedTypes =>
    rw [accept, acceptMethod, Record.judge]
    rcases MethodSymbol.ofInternalName old oldTypes with e | x
    · rfl
    · rcases MethodSymbol.ofInternalName renamed renamedTypes with e | y
      · rfl
      · have hagree : m.contract.methodAgrees (x, y) = true ↔
            y.owner = m.renameClass x.owner ∧
              y.descriptor = x.descriptor.mapClasses m.renameClass :=
          MethodSymbol.sameTypes_iff.trans (and_congr eq_comm eq_comm)
        show ((m.setMethod x y).map (·, [])).map (fun _ => ())
          = if y.owner = m.renameClass x.owner ∧
                y.descriptor = x.descriptor.mapClasses m.renameClass then pure ()
            else throw (Renaming.methodError (x, y))
        rw [Editable.setMethod]
        by_cases h : y.owner = m.renameClass x.owner ∧
            y.descriptor = x.descriptor.mapClasses m.renameClass
        · rw [if_pos (hagree.2 h), if_pos h]
          rfl
        · rw [if_neg (mt hagree.1 h), if_neg h]
          rfl
  | ofPackage => rfl

end Tagged

namespace Compact

/-- A record is accepted as it is judged. -/
theorem map_accept (b : Buffer) (number : Nat) (record : Record) :
    (accept b number record).map (fun _ => ()) = record.judge := by
  cases record with
  | ofClass old renamed =>
    rw [accept, acceptClass, Record.judge]
    rcases classOf old with e | c
    · rfl
    · rcases classOf renamed with e | d <;> rfl
  | ofField owner name newName =>
    rw [accept, acceptField, Record.judge]
    rcases classOf owner with e | c <;> rfl
  | ofMethod owner name types newName =>
    rw [accept, acceptMethod, Record.judge]
    rcases classOf owner with e | c
    · rfl
    · rcases Descriptor.parse types with e | d <;> rfl

end Compact

/-! ### One line -/

namespace LineReader

variable {ρ σ : Type} {r : LineReader ρ σ} {judge : ρ → Except RenamingError Unit} {s : σ}
  {number : Nat}

/-- A reader whose records are accepted as they are judged accepts a line if nothing is
wrong with it. -/
theorem exists_step_of_refusal?_eq_none
    (haccept : ∀ record, (r.accept s number record).map (fun _ => ()) = judge record)
    {line : String} (h : (LineContent.ofLine r.recordOf line).refusal? judge = none) :
    ∃ s' notices, r.step s number line = .ok (s', notices) := by
  rw [step]
  generalize LineContent.ofLine r.recordOf line = content at h ⊢
  cases content with
  | blank => exact ⟨s, [], rfl⟩
  | malformed => cases h
  | record record =>
    -- a record that is judged to be right is accepted
    rw [LineContent.refusal?, ← haccept record] at h
    rcases hrecord : r.accept s number record with cause | ⟨s', notices⟩
    · rw [hrecord] at h
      cases h
    · exact ⟨s', notices, by simp [hrecord]⟩

/-- It refuses any other line for what is wrong with it. -/
theorem step_of_refusal?_eq_some
    (haccept : ∀ record, (r.accept s number record).map (fun _ => ()) = judge record)
    {line : String} {refusal : Refusal}
    (h : (LineContent.ofLine r.recordOf line).refusal? judge = some refusal) :
    r.step s number line = .error (refusal.error number line) := by
  rw [step]
  generalize LineContent.ofLine r.recordOf line = content at h ⊢
  cases content with
  | blank => cases h
  | malformed =>
    cases h
    rfl
  | record record =>
    rw [LineContent.refusal?, ← haccept record] at h
    rcases hrecord : r.accept s number record with cause | ⟨s', notices⟩
    · rw [hrecord] at h
      cases h
      simp [hrecord, Refusal.error]
    · rw [hrecord] at h
      cases h

end LineReader

/-! ### The first line that is refused -/

section AllFit

variable {refusal? : List String → String → Option Refusal} {lines : List String}

theorem allFit_nil : AllFit refusal? [] := by
  intro before line after h
  simp at h

theorem allFit_concat_iff {line : String} :
    AllFit refusal? (lines ++ [line]) ↔ AllFit refusal? lines ∧ refusal? lines line = none := by
  constructor
  · intro h
    refine ⟨fun before x after hcut => ?_, h lines line [] rfl⟩
    exact h before x (after ++ [line]) (by simp [hcut])
  · rintro ⟨h, hline⟩ before x after hcut
    -- the cut is before the last line, or one of the lines without it
    rcases after.eq_nil_or_concat with rfl | ⟨back, y, rfl⟩
    · obtain ⟨rfl, hx⟩ := List.append_inj' hcut rfl
      rw [← List.singleton_inj.1 hx]
      exact hline
    · rw [List.concat_eq_append, ← List.cons_append, ← List.append_assoc] at hcut
      exact h before x back (List.append_inj' hcut rfl).1

/-- If not all lines fit, there is a first line that does not. -/
theorem exists_first_refused (h : ¬ AllFit refusal? lines) :
    ∃ before line after refusal, lines = before ++ line :: after ∧ AllFit refusal? before ∧
      refusal? before line = some refusal := by
  induction lines using List.reverseRecOn with
  | nil => exact absurd allFit_nil h
  | append_singleton lines line ih =>
    by_cases hlines : AllFit refusal? lines
    · rcases hline : refusal? lines line with - | refusal
      · exact absurd (allFit_concat_iff.2 ⟨hlines, hline⟩) h
      · exact ⟨lines, line, [], refusal, rfl, hlines, hline⟩
    · obtain ⟨before, x, after, refusal, rfl, hbefore, hx⟩ := ih hlines
      exact ⟨before, x, after ++ [line], refusal, by simp, hbefore, hx⟩

end AllFit

namespace LineReader

variable {ρ σ : Type} {r : LineReader ρ σ}

/-- A reader that accepts a line or refuses it as it is said of the line and the lines
before it, where a relation describes its state by these lines. -/
structure Follows (r : LineReader ρ σ) (refusal? : List String → String → Option Refusal)
    (Holds : List String → σ → Prop) : Prop where
  start : Holds [] r.start
  accepts : ∀ {before s line} (number), Holds before s → refusal? before line = none →
    ∃ s' notices, r.step s number line = .ok (s', notices) ∧ Holds (before ++ [line]) s'
  refuses : ∀ {before s line refusal} (number), Holds before s →
    refusal? before line = some refusal →
    r.step s number line = .error (refusal.error number line)

namespace Follows

variable {refusal? : List String → String → Option Refusal} {Holds : List String → σ → Prop}
  (h : r.Follows refusal? Holds) {lines : List String}
include h

/-- Lines that fit are read. -/
theorem exists_value_readLines (hfit : AllFit refusal? lines) :
    ∃ s, (r.readLines r.start 1 (lines.map some)).value = .ok s ∧ Holds lines s := by
  induction lines using List.reverseRecOn with
  | nil => exact ⟨r.start, rfl, h.start⟩
  | append_singleton lines line ih =>
    obtain ⟨hlines, hline⟩ := allFit_concat_iff.1 hfit
    obtain ⟨s, hs, hholds⟩ := ih hlines
    obtain ⟨s', notices, hstep, hholds'⟩ := h.accepts (1 + lines.length) hholds hline
    refine ⟨s', ?_, hholds'⟩
    rw [List.map_append, value_readLines_append, hs]
    simp [readLines, hstep]

/-- Reading ends with the first line that does not fit, whatever comes behind it. -/
theorem value_readLines_refused (hfit : AllFit refusal? lines) {line : String}
    {refusal : Refusal} (hline : refusal? lines line = some refusal)
    (rest : List (Option String)) :
    (r.readLines r.start 1 (lines.map some ++ some line :: rest)).value
      = .error (refusal.error (lines.length + 1) line) := by
  obtain ⟨s, hs, hholds⟩ := h.exists_value_readLines hfit
  have hstep := h.refuses (1 + lines.length) hholds hline
  rw [value_readLines_append, hs]
  show (r.readLines s (1 + (lines.map some).length) (some line :: rest)).value = _
  rw [List.length_map, readLines, hstep, Nat.add_comm]

end Follows

end LineReader

namespace Tagged

/-- An accepted line makes its change. -/
theorem eq_of_step {m m' : Editable} {number : Nat} {line : String} {notices : List Notice}
    (h : reader.step m number line = .ok (m', notices)) :
    m' = (Format.tagged.change? line).toList.foldl Editable.step m := by
  rw [Format.change?]
  rcases reader.step_eq_ok_iff.1 h with ⟨hline, rfl, -⟩ | ⟨record, hline, haccept⟩
  · rw [show LineContent.ofLine recordOf line = .blank from hline]
    rfl
  · rw [show LineContent.ofLine recordOf line = .record record from hline]
    exact eq_of_accept haccept

/-- After lines that fit, the store is what their changes make. -/
theorem reader_follows : reader.Follows Format.tagged.refusal?
    fun before m => m = after (before.filterMap Format.tagged.change?) := by
  have haccept : ∀ history number record,
      (reader.accept (after history) number record).map (fun _ => ())
        = record.judge (classImage history) := by
    intro history number record
    rw [← funext (Editable.renameClass_after history)]
    exact map_accept _ number record
  refine ⟨rfl, ?_, ?_⟩
  · rintro before m line number rfl hline
    obtain ⟨m', notices, hstep⟩ :=
      LineReader.exists_step_of_refusal?_eq_none (haccept _ number) hline
    have hlast : [line].filterMap Format.tagged.change?
        = (Format.tagged.change? line).toList := by
      rcases hchange : Format.tagged.change? line with - | e <;> simp [hchange]
    refine ⟨m', notices, hstep, ?_⟩
    rw [List.filterMap_append, Editable.after_append, hlast]
    exact eq_of_step hstep
  · rintro before m line refusal number rfl hline
    exact LineReader.step_of_refusal?_eq_some (haccept _ number) hline

end Tagged

namespace Compact

/-- What was kept before does not matter. -/
theorem reader_follows : reader.Follows Format.compact.refusal? fun _ _ => True := by
  have haccept : ∀ b number record,
      (reader.accept b number record).map (fun _ => ()) = record.judge := map_accept
  refine ⟨trivial, ?_, ?_⟩
  · intro before b line number _ hline
    obtain ⟨b', notices, hstep⟩ :=
      LineReader.exists_step_of_refusal?_eq_none (haccept b number) hline
    exact ⟨b', notices, hstep, trivial⟩
  · intro before b line refusal number _ hline
    exact LineReader.step_of_refusal?_eq_some (haccept b number) hline

end Compact

/-! ### All entry points -/

namespace Format

variable (f : Format)

theorem exists_value_parseLines_of_fits {lines : List String} (h : f.Fits lines) :
    ∃ m, (f.parseLines lines).value = .ok m := by
  cases f with
  | tagged =>
    obtain ⟨s, hs, -⟩ := Tagged.reader_follows.exists_value_readLines h
    exact ⟨_, Tagged.reader.value_read_eq_ok_iff.2 ⟨s, hs, rfl⟩⟩
  | compact =>
    obtain ⟨b, hb, -⟩ := Compact.reader_follows.exists_value_readLines h
    exact ⟨_, Compact.reader.value_read_eq_ok_iff.2 ⟨b, hb, rfl⟩⟩

theorem value_readLines_of_refused {before : List String} {line : String} {refusal : Refusal}
    (hfits : f.Fits before) (hline : f.refusal? before line = some refusal)
    (rest : List (Option String)) :
    (f.readLines (before.map some ++ some line :: rest)).value
      = .error (refusal.error (before.length + 1) line) := by
  cases f with
  | tagged =>
    have hrun := Tagged.reader_follows.value_readLines_refused hfits hline rest
    exact Tagged.reader.value_read_eq_error_iff.2 hrun
  | compact =>
    have hrun := Compact.reader_follows.value_readLines_refused hfits hline rest
    exact Compact.reader.value_read_eq_error_iff.2 hrun

theorem value_parseLines_of_refused {before : List String} {line : String} {refusal : Refusal}
    (hfits : f.Fits before) (hline : f.refusal? before line = some refusal)
    (rest : List String) :
    (f.parseLines (before ++ line :: rest)).value
      = .error (refusal.error (before.length + 1) line) := by
  rw [parseLines, List.map_append, List.map_cons]
  exact f.value_readLines_of_refused hfits hline _

/-- Lines are read exactly if each fits behind the lines before it. -/
theorem exists_value_parseLines_iff_fits {lines : List String} :
    (∃ m, (f.parseLines lines).value = .ok m) ↔ f.Fits lines := by
  refine ⟨?_, f.exists_value_parseLines_of_fits⟩
  rintro ⟨m, hm⟩
  by_contra hfits
  obtain ⟨before, line, after, refusal, rfl, hbefore, hline⟩ := exists_first_refused hfits
  rw [f.value_parseLines_of_refused hbefore hline] at hm
  cases hm

/-- A line that is no text ends the reading, if no line before it does. -/
theorem value_readLines_invalidUtf8 (texts : List String) (rest : List (Option String)) :
    (f.readLines (texts.map some ++ none :: rest)).value
      = match (f.parseLines texts).value with
        | .error e => .error e
        | .ok _ => .error (.input .invalidUtf8) := by
  have hread : ∀ {ρ σ : Type} (r : LineReader ρ σ),
      (r.read (texts.map some ++ none :: rest)).value
        = match (r.read (texts.map some)).value with
          | .error e => .error e
          | .ok _ => .error (.input .invalidUtf8) := by
    intro ρ σ r
    have hrun := r.value_readLines_append r.start 1 (texts.map some) (none :: rest)
    rw [LineReader.read, LineReader.read, hrun]
    rcases (r.readLines r.start 1 (texts.map some)).value with e | s
    · rfl
    · rfl
  cases f with
  | tagged => exact hread Tagged.reader
  | compact => exact hread Compact.reader

/-- The first line that is refused gives the error. -/
theorem value_parseLines_eq_error_iff {lines : List String} {e : ReadError} :
    (f.parseLines lines).value = .error e ↔ ∃ before line after refusal,
      lines = before ++ line :: after ∧ f.Fits before ∧ f.refusal? before line = some refusal ∧
      e = refusal.error (before.length + 1) line := by
  constructor
  · intro h
    have hfits : ¬ f.Fits lines := by
      intro hfits
      obtain ⟨m, hm⟩ := f.exists_value_parseLines_of_fits hfits
      rw [hm] at h
      cases h
    obtain ⟨before, line, after, refusal, rfl, hbefore, hline⟩ := exists_first_refused hfits
    rw [f.value_parseLines_of_refused hbefore hline] at h
    exact ⟨before, line, after, refusal, rfl, hbefore, hline, (Except.error.inj h).symm⟩
  · rintro ⟨before, line, after, refusal, rfl, hbefore, hline, rfl⟩
    exact f.value_parseLines_of_refused hbefore hline after

/-- **Reading ends with the first line that is refused.**  Lines are read exactly if each
fits behind the lines before it.  Otherwise the first one that does not gives the error,
with its number, counted from one, and as it stands, whatever comes behind it.  Bytes break
into lines at line feeds and are read as these lines are, up to a line that is no text,
which gives the error if no line before it does.  For an encoded text it does not matter
whether its bytes, the text or its lines are read. -/
theorem parse_refuses_first :
    (∀ lines, (∃ m, (f.parseLines lines).value = .ok m) ↔ f.Fits lines) ∧
    (∀ lines e, (f.parseLines lines).value = .error e ↔ ∃ before line after refusal,
      lines = before ++ line :: after ∧ f.Fits before ∧ f.refusal? before line = some refusal ∧
      e = refusal.error (before.length + 1) line ∧
      ∀ rest, (f.parseLines (before ++ line :: rest)).value = .error e) ∧
    (∀ bytes,
      (∃ pieces, BreaksInto 10 13 bytes pieces ∧
        Text.decodedLines bytes = pieces.map fun l => String.fromUTF8? ⟨l.toArray⟩) ∧
      ((∃ texts, Text.decodedLines bytes = texts.map some ∧
          f.parseBytes bytes = f.parseLines texts) ∨
        ∃ texts rest, Text.decodedLines bytes = texts.map some ++ none :: rest ∧
          (f.parseBytes bytes).value = match (f.parseLines texts).value with
            | .error e => .error e
            | .ok _ => .error (.input .invalidUtf8))) ∧
    ∀ text : String,
      (∃ pieces, BreaksInto '\n' '\r' text.toList pieces ∧
        Text.lines text = pieces.map .ofList) ∧
      f.parseBytes text.toUTF8.toList = f.parse text ∧
      f.parse text = f.parseLines (Text.lines text) := by
  refine ⟨fun lines => f.exists_value_parseLines_iff_fits, ?_, ?_, ?_⟩
  · intro lines e
    rw [f.value_parseLines_eq_error_iff]
    constructor
    · rintro ⟨before, line, after, refusal, hlines, hbefore, hline, rfl⟩
      exact ⟨before, line, after, refusal, hlines, hbefore, hline, rfl,
        f.value_parseLines_of_refused hbefore hline⟩
    · rintro ⟨before, line, after, refusal, hlines, hbefore, hline, he, -⟩
      exact ⟨before, line, after, refusal, hlines, hbefore, hline, he⟩
  · intro bytes
    refine ⟨⟨_, Text.breaksInto_splitLines (by decide) bytes, rfl⟩, ?_⟩
    rcases eq_map_some_or_append_none (Text.decodedLines bytes) with
      ⟨texts, htexts⟩ | ⟨texts, rest, htexts⟩
    · refine Or.inl ⟨texts, htexts, ?_⟩
      rw [parseBytes, htexts, parseLines]
    · refine Or.inr ⟨texts, rest, htexts, ?_⟩
      rw [parseBytes, htexts, value_readLines_invalidUtf8]
  · intro text
    refine ⟨⟨_, Text.breaksInto_splitLines (by decide) text.toList, rfl⟩, ?_, rfl⟩
    rw [parseBytes, Text.decodedLines_toUTF8, parse, parseLines]

/-- Blank lines, comments and package records are counted, and the line is given back with
its blanks. -/
example : (tagged.parse "\n# note\r\nPK: p q\n CL: a\t").value
    = .error (.malformedLine 4 " CL: a\t") := rfl

end Format

end SymbolRenaming
