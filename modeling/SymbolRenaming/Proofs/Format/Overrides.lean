/-
SymbolRenaming/Proofs/Format/Overrides.lean

Warnings about class records that revise others.

Design.  A class record revises the last class record of the same class before it if
that one gives the class another name.  Which lines do so is said by the class records on
the lines alone (`revisions`), whether a class keeps its own name by them or not.

The compact reader keeps every class record, so it warns of every revision.  The tagged
reader only asks what its store makes of the class, and the store has no entry for a class
that was last given its own name: it cannot tell this class from one without records, and
is silent about a revision of such a record.  Each reader holds what the last records of
the classes say (`LineReader.Warns.start`, `LineReader.Warns.accepts`), so its notices for
one record are those of the revision, and by induction on the lines its notices for a run
are those of all revisions.

Main result: `Format.warnings_eq_revisions`.
-/
import SymbolRenaming.Proofs.Format.Changes

namespace SymbolRenaming

open Editable (Change)

/-! ### Revisions -/

/-- A class record that gives its class another name than the last one before it. -/
structure Revision where
  /-- The number of the line. -/
  number : Nat
  old : ClassName
  previous : ClassName
  renamed : ClassName
  deriving DecidableEq, Repr

/-- What is told of a revision. -/
def Revision.notice (r : Revision) : Notice :=
  .classRecordOverridden r.number r.old r.previous r.renamed

/-- The revision that a class record on a line with a number makes behind other class
records, if it makes one. -/
def revision? (before : List (ClassName × ClassName)) (number : Nat) :
    ClassName × ClassName → Option Revision
  | (old, renamed) =>
    match Entries.last? old before with
    | none => none
    | some previous => if previous = renamed then none else some ⟨number, old, previous, renamed⟩

/-- The revisions among the class records on lines, where a line may hold none. -/
def revisions (records : List (Option (ClassName × ClassName))) : List Revision :=
  (List.range records.length).filterMap fun i =>
    records[i]?.join.bind (revision? (records.take i).reduceOption (i + 1))

/-- The class and its new name on a line, if the line is a class record. -/
def Format.classRecord? (f : Format) (line : String) : Option (ClassName × ClassName) :=
  (f.change? line).bind Change.classPair?

/-- The warnings among notices. -/
def warnings (notices : List Notice) : List Notice := notices.filter fun n => n.level = .warn

theorem warnings_append (xs ys : List Notice) :
    warnings (xs ++ ys) = warnings xs ++ warnings ys := List.filter_append ..

theorem warnings_map_notice (rs : List Revision) :
    warnings (rs.map Revision.notice) = rs.map Revision.notice := by
  refine List.filter_eq_self.2 fun n hn => ?_
  obtain ⟨r, -, rfl⟩ := List.mem_map.1 hn
  rfl

/-- The last record may make a revision, and does not change the others. -/
theorem revisions_concat (records : List (Option (ClassName × ClassName)))
    (record : Option (ClassName × ClassName)) :
    revisions (records ++ [record]) = revisions records
      ++ (record.bind (revision? records.reduceOption (records.length + 1))).toList := by
  rw [revisions, revisions, List.length_append, List.length_singleton, List.range_succ,
    List.filterMap_append]
  congr 1
  · refine List.filterMap_congr fun i hi => ?_
    have hlt : i < records.length := List.mem_range.1 hi
    rw [List.getElem?_append_left hlt, List.take_append_of_le_length (Nat.le_of_lt hlt)]
  · rw [List.filterMap_cons, List.getElem?_concat_length, List.take_left]
    rcases h : record.bind (revision? records.reduceOption (records.length + 1)) with - | r
    · simp [h]
    · simp [h]

/-! ### Warnings of a run -/

namespace LineReader

variable {ρ σ : Type} {r : LineReader ρ σ}

/-- The notices of two stretches of lines are those of the first and then those of the
second, if the first is read. -/
theorem notices_readLines_append {s s' : σ} {number : Nat} {xs : List (Option String)}
    (h : (r.readLines s number xs).value = .ok s') (ys : List (Option String)) :
    (r.readLines s number (xs ++ ys)).notices
      = (r.readLines s number xs).notices
        ++ (r.readLines s' (number + xs.length) ys).notices := by
  induction xs generalizing s number with
  | nil =>
    cases h
    rfl
  | cons x xs ih =>
    rcases x with - | line
    · cases h
    · rcases e : r.step s number line with err | ⟨next, notices⟩
      · simp [readLines, e] at h
      · simp only [readLines, e] at h
        simp only [List.cons_append, readLines, e, ih h, List.append_assoc, List.length_cons]
        rw [Nat.add_right_comm, Nat.add_assoc]

/-- Nothing is told about a line at which reading ends. -/
theorem notices_readLines_of_error {s : σ} {number : Nat} {line : Option String} {e : ReadError}
    (h : (r.readLines s number [line]).value = .error e) (rest : List (Option String)) :
    (r.readLines s number (line :: rest)).notices = [] := by
  rcases line with - | line
  · rfl
  · rcases hstep : r.step s number line with err | ⟨next, notices⟩
    · simp [readLines, hstep]
    · -- an accepted line would have been read
      simp [readLines, hstep] at h

/-- The class and its new name on a line, by what the records say. -/
def lineRecord? (r : LineReader ρ σ) (classRecord? : ρ → Option (ClassName × ClassName))
    (line : String) : Option (ClassName × ClassName) :=
  (LineContent.ofLine r.recordOf line).bind? classRecord?

/-- A reader whose state follows the class records, and that warns of some of the
revisions that they make. -/
structure Warns (r : LineReader ρ σ) (classRecord? : ρ → Option (ClassName × ClassName))
    (told : Revision → Bool) (Holds : List (ClassName × ClassName) → σ → Prop) : Prop where
  start : Holds [] r.start
  accepts : ∀ {before s s' number record notices}, Holds before s →
    r.accept s number record = .ok (s', notices) →
    Holds (before ++ (classRecord? record).toList) s' ∧
      warnings notices = (((classRecord? record).bind (revision? before number)).toList.filter
        told).map Revision.notice
  finish : ∀ s, warnings (r.finish s).notices = []

namespace Warns

variable {classRecord? : ρ → Option (ClassName × ClassName)} {told : Revision → Bool}
  {Holds : List (ClassName × ClassName) → σ → Prop} (h : r.Warns classRecord? told Holds)
include h

/-- The warnings of one line are those of the revision that it makes behind the others. -/
theorem warnings_step {before : List (ClassName × ClassName)} {s s' : σ} {number : Nat}
    {line : String} {notices : List Notice} (hholds : Holds before s)
    (hstep : r.step s number line = .ok (s', notices)) :
    warnings notices
      = (((r.lineRecord? classRecord? line).bind (revision? before number)).toList.filter
        told).map Revision.notice := by
  rw [lineRecord?]
  rcases r.step_eq_ok_iff.1 hstep with ⟨hline, -, rfl⟩ | ⟨record, hline, haccept⟩
  · rw [hline]
    rfl
  · rw [hline]
    exact (h.accepts hholds haccept).2

/-- The warnings of lines that are read are those of the revisions on them. -/
theorem warnings_readLines {lines : List String} {s : σ}
    (hs : (r.readLines r.start 1 (lines.map some)).value = .ok s) :
    warnings (r.readLines r.start 1 (lines.map some)).notices
      = ((revisions (lines.map (r.lineRecord? classRecord?))).filter told).map
        Revision.notice := by
  induction lines using List.reverseRecOn generalizing s with
  | nil => rfl
  | append_singleton lines line ih =>
    rw [List.map_append, value_readLines_append] at hs
    rcases hrun : (r.readLines r.start 1 (lines.map some)).value with e | s₀
    · rw [hrun] at hs
      cases hs
    · rw [hrun] at hs
      -- the state before the last line holds the class records of the lines before it
      have hholds : Holds (lines.filterMap (r.lineRecord? classRecord?)) s₀ :=
        r.history_readLines (R := fun s before => Holds before s)
          (fun hs haccept => (h.accepts hs haccept).1) h.start hrun
      rcases hstep : r.step s₀ (1 + lines.length) line with e | ⟨s₁, notices⟩
      · simp [readLines, hstep] at hs
      · have hlast : (r.readLines s₀ (1 + (lines.map some).length) ([line].map some)).notices
            = notices := by simp [readLines, hstep]
        have hrecords : (lines.map (r.lineRecord? classRecord?)).reduceOption
            = lines.filterMap (r.lineRecord? classRecord?) := List.filterMap_map ..
        rw [List.map_append, notices_readLines_append hrun, warnings_append, ih hrun, hlast,
          h.warnings_step hholds hstep, List.map_append, List.map_singleton, revisions_concat,
          List.filter_append, List.map_append, hrecords, List.length_map, Nat.add_comm]

/-- So are the warnings of an input that begins with such lines, if reading ends with the
next one. -/
theorem warnings_read {front : List String} {rest : List (Option String)} {m : Frozen}
    (hfront : (r.read (front.map some)).value = .ok m)
    (hrest : ∀ line ∈ rest.head?, ∃ e, (r.read (front.map some ++ [line])).value = .error e) :
    warnings (r.read (front.map some ++ rest)).notices
      = ((revisions (front.map (r.lineRecord? classRecord?))).filter told).map
        Revision.notice := by
  obtain ⟨s, hs, -⟩ := r.value_read_eq_ok_iff.1 hfront
  have hread : ∀ lines, warnings (r.read lines).notices
      = warnings (r.readLines r.start 1 lines).notices := by
    intro lines
    rw [read]
    rcases (r.readLines r.start 1 lines).value with e | s
    · rfl
    · rw [warnings_append, h.finish, List.append_nil]
  have hnone : (r.readLines s (1 + (front.map some).length) rest).notices = [] := by
    rcases rest with - | ⟨line, rest⟩
    · rfl
    · obtain ⟨e, he⟩ := hrest line rfl
      rw [value_read_eq_error_iff, value_readLines_append, hs] at he
      exact notices_readLines_of_error he rest
  rw [hread, notices_readLines_append hs, hnone, List.append_nil, h.warnings_readLines hs]

end Warns

end LineReader

/-! ### The two readers -/

/-- The class and its new name in a record of the tagged format. -/
def Tagged.Record.classRecord? (record : Record) : Option (ClassName × ClassName) :=
  record.change?.bind Change.classPair?

/-- The class and its new name in a record of the compact format. -/
def Compact.Record.classRecord? (record : Record) : Option (ClassName × ClassName) :=
  record.change?.bind Change.classPair?

namespace Tagged

/-- The store is silent about a record that revises one which gave a class its own name. -/
theorem overrideNotices_eq {m : Editable} {before : List (ClassName × ClassName)}
    {old : ClassName} (h : m.renameClass old = (Entries.last? old before).getD old)
    (number : Nat) (renamed : ClassName) :
    overrideNotices m number old renamed
      = ((revision? before number (old, renamed)).toList.filter
        fun r => r.previous ≠ r.old).map Revision.notice := by
  rw [overrideNotices, h, revision?]
  rcases Entries.last? old before with - | previous
  · simp
  · by_cases hsame : previous = renamed
    · simp [hsame]
    · by_cases hown : previous = old
      · simp [hown]
      · simp [hown, hsame, Revision.notice]

/-- An accepted record is a class record that the store takes in, or it leaves the classes
as they are and is not warned of. -/
theorem accept_classes {m m' : Editable} {number : Nat} {record : Record}
    {notices : List Notice} (h : accept m number record = .ok (m', notices)) :
    (∃ c d, record.classRecord? = some (c, d) ∧ m' = m.setClass c d ∧
        notices = overrideNotices m number c d) ∨
      record.classRecord? = none ∧ m'.renameClass = m.renameClass ∧ warnings notices = [] := by
  cases record with
  | ofClass old renamed =>
    obtain ⟨c, d, hc, hd, hm', hnotices⟩ := acceptClass_eq_ok_iff.1 h
    refine Or.inl ⟨c, d, ?_, hm', hnotices⟩
    rw [Record.classRecord?, Record.change?, Compact.classOf_eq_ok_iff.2 hc,
      Compact.classOf_eq_ok_iff.2 hd]
    rfl
  | ofField old renamed =>
    obtain ⟨hfield, rfl⟩ := map_pair_eq_ok_iff.1 h
    obtain ⟨x, y, hx, hy, -, rfl⟩ := acceptField_eq_ok_iff.1 hfield
    refine Or.inr ⟨?_, rfl, rfl⟩
    rw [Record.classRecord?, Record.change?, FieldSymbol.ofInternalName_eq_ok_iff.2 hx,
      FieldSymbol.ofInternalName_eq_ok_iff.2 hy]
    rfl
  | ofMethod old oldTypes renamed renamedTypes =>
    obtain ⟨hmethod, rfl⟩ := map_pair_eq_ok_iff.1 h
    obtain ⟨x, y, hx, hy, -, rfl⟩ := acceptMethod_eq_ok_iff.1 hmethod
    refine Or.inr ⟨?_, rfl, rfl⟩
    rw [Record.classRecord?, Record.change?, MethodSymbol.ofInternalName_eq_ok_iff.2 hx,
      MethodSymbol.ofInternalName_eq_ok_iff.2 hy]
    rfl
  | ofPackage =>
    obtain ⟨rfl, rfl⟩ := Prod.mk.inj (Except.ok.inj h)
    exact Or.inr ⟨rfl, rfl, rfl⟩

/-- The store renames a class as its last record says, or not at all. -/
theorem reader_warns : reader.Warns Record.classRecord? (fun r => r.previous ≠ r.old)
    fun before m => ∀ c, m.renameClass c = (Entries.last? c before).getD c := by
  refine ⟨fun c => rfl, ?_, fun m => rfl⟩
  intro before m m' number record notices hholds haccept
  rcases accept_classes haccept with ⟨c, d, hrecord, rfl, rfl⟩ | ⟨hrecord, hm', hnotices⟩
  · constructor
    · intro x
      rw [hrecord, Option.toList_some, Entries.last?_concat, Editable.renameClass_setClass,
        hholds]
      show (if c = x then d else _) = Option.getD (if c = x then some d else _) x
      split <;> rfl
    · rw [hrecord, overrideNotices_eq (hholds c), warnings_map_notice]
      rfl
  · rw [hrecord, hm', Option.toList_none, List.append_nil]
    exact ⟨hholds, hnotices⟩

end Tagged

namespace Compact

/-- The compact reader keeps every class record. -/
theorem overrideNotices_eq {b : Buffer} {before : List (ClassName × ClassName)}
    {old : ClassName} (h : b.classes.get? old = Entries.last? old before)
    (number : Nat) (renamed : ClassName) :
    overrideNotices b number old renamed
      = (revision? before number (old, renamed)).toList.map Revision.notice := by
  rw [overrideNotices, h, revision?]
  rcases Entries.last? old before with - | previous
  · rfl
  · by_cases hsame : previous = renamed
    · simp [hsame]
    · simp [hsame, Revision.notice]

/-- An accepted record is a class record that is kept, or it leaves the kept ones as they
are and is not warned of. -/
theorem accept_classes {b b' : Buffer} {number : Nat} {record : Record}
    {notices : List Notice} (h : accept b number record = .ok (b', notices)) :
    (∃ c d, record.classRecord? = some (c, d) ∧ b'.classes = b.classes.insert c d ∧
        notices = overrideNotices b number c d) ∨
      record.classRecord? = none ∧ b'.classes = b.classes ∧ warnings notices = [] := by
  cases record with
  | ofClass old renamed =>
    obtain ⟨c, d, hc, hd, rfl, hnotices⟩ := acceptClass_eq_ok_iff.1 h
    refine Or.inl ⟨c, d, ?_, rfl, hnotices⟩
    rw [Record.classRecord?, Record.change?, classOf_eq_ok_iff.2 hc, classOf_eq_ok_iff.2 hd]
    rfl
  | ofField owner name newName =>
    obtain ⟨hfield, rfl⟩ := map_pair_eq_ok_iff.1 h
    obtain ⟨c, hc, rfl⟩ := acceptField_eq_ok_iff.1 hfield
    refine Or.inr ⟨?_, rfl, rfl⟩
    rw [Record.classRecord?, Record.change?, classOf_eq_ok_iff.2 hc]
    rfl
  | ofMethod owner name types newName =>
    obtain ⟨hmethod, rfl⟩ := map_pair_eq_ok_iff.1 h
    obtain ⟨c, d, hc, hd, rfl⟩ := acceptMethod_eq_ok_iff.1 hmethod
    refine Or.inr ⟨?_, rfl, rfl⟩
    rw [Record.classRecord?, Record.change?, classOf_eq_ok_iff.2 hc,
      Descriptor.parse_eq_ok_iff.2 hd]
    rfl

/-- What is kept for a class is its last record. -/
theorem reader_warns : reader.Warns Record.classRecord? (fun _ => true)
    fun before b => ∀ c, b.classes.get? c = Entries.last? c before := by
  refine ⟨fun c => rfl, ?_, fun b => rfl⟩
  intro before b b' number record notices hholds haccept
  rcases accept_classes haccept with ⟨c, d, hrecord, hb', rfl⟩ | ⟨hrecord, hb', hnotices⟩
  · constructor
    · intro x
      rw [hrecord, Option.toList_some, Entries.last?_concat, hb', Table.get?_insert, hholds]
    · rw [hrecord, overrideNotices_eq (hholds c), warnings_map_notice]
      show _ = (List.filter _ _).map _
      rw [List.filter_true]
      rfl
  · rw [hrecord, hb', Option.toList_none, List.append_nil]
    exact ⟨hholds, hnotices⟩

end Compact

/-! ### All entry points -/

namespace Format

/-- Reading takes the lines in front, and ends with the next one, if there is one. -/
structure ReadsUpTo (f : Format) (front : List String) (rest : List (Option String)) : Prop where
  reads : ∃ m, (f.parseLines front).value = .ok m
  stops : ∀ line ∈ rest.head?, ∃ e, (f.readLines (front.map some ++ [line])).value = .error e

theorem classRecord?_tagged :
    tagged.classRecord? = Tagged.reader.lineRecord? Tagged.Record.classRecord? := by
  funext line
  show ((LineContent.ofLine Tagged.recordOf line).bind? _).bind _
    = (LineContent.ofLine Tagged.recordOf line).bind? _
  cases LineContent.ofLine Tagged.recordOf line <;> rfl

theorem classRecord?_compact :
    compact.classRecord? = Compact.reader.lineRecord? Compact.Record.classRecord? := by
  funext line
  show ((LineContent.ofLine Compact.recordOf line).bind? _).bind _
    = (LineContent.ofLine Compact.recordOf line).bind? _
  cases LineContent.ofLine Compact.recordOf line <;> rfl

theorem warnings_tagged {front : List String} {rest : List (Option String)}
    (h : tagged.ReadsUpTo front rest) :
    warnings (tagged.readLines (front.map some ++ rest)).notices
      = ((revisions (front.map tagged.classRecord?)).filter fun r => r.previous ≠ r.old).map
        Revision.notice := by
  obtain ⟨m, hm⟩ := h.reads
  rw [classRecord?_tagged]
  exact Tagged.reader_warns.warnings_read hm h.stops

theorem warnings_compact {front : List String} {rest : List (Option String)}
    (h : compact.ReadsUpTo front rest) :
    warnings (compact.readLines (front.map some ++ rest)).notices
      = (revisions (front.map compact.classRecord?)).map Revision.notice := by
  obtain ⟨m, hm⟩ := h.reads
  rw [classRecord?_compact]
  refine (Compact.reader_warns.warnings_read hm h.stops).trans ?_
  rw [List.filter_true]

theorem map_notice_filter_eq_iff {told : Revision → Bool} {rs : List Revision} :
    (rs.filter told).map Revision.notice = rs.map Revision.notice ↔ ∀ r ∈ rs, told r = true := by
  rw [← List.filter_eq_self]
  refine ⟨fun h => ?_, fun h => by rw [h]⟩
  -- a list with as many members as a list that it is taken from is this list
  have hlength := congrArg List.length h
  rw [List.length_map, List.length_map] at hlength
  exact List.filter_sublist.eq_of_length hlength

/-- **The compact reader warns of every revision, and the tagged one of those that revise a
proper renaming.**  The lines that are read may end with the input or with a line at which
reading ends.  The tagged reader so warns of all revisions exactly if none of them revises
a record by which a class keeps its own name.  When two inputs have the same class records
line by line, the readers give the same warnings exactly in this case. -/
theorem warnings_eq_revisions {xs ys : List String} {rest rest' : List (Option String)}
    (hx : tagged.ReadsUpTo xs rest) (hy : compact.ReadsUpTo ys rest') :
    warnings (compact.readLines (ys.map some ++ rest')).notices
      = (revisions (ys.map compact.classRecord?)).map Revision.notice ∧
    warnings (tagged.readLines (xs.map some ++ rest)).notices
      = ((revisions (xs.map tagged.classRecord?)).filter fun r => r.previous ≠ r.old).map
        Revision.notice ∧
    (warnings (tagged.readLines (xs.map some ++ rest)).notices
        = (revisions (xs.map tagged.classRecord?)).map Revision.notice ↔
      ∀ r ∈ revisions (xs.map tagged.classRecord?), r.previous ≠ r.old) ∧
    (xs.map tagged.classRecord? = ys.map compact.classRecord? →
      (warnings (tagged.readLines (xs.map some ++ rest)).notices
          = warnings (compact.readLines (ys.map some ++ rest')).notices ↔
        ∀ r ∈ revisions (xs.map tagged.classRecord?), r.previous ≠ r.old)) := by
  have hall : warnings (tagged.readLines (xs.map some ++ rest)).notices
        = (revisions (xs.map tagged.classRecord?)).map Revision.notice ↔
      ∀ r ∈ revisions (xs.map tagged.classRecord?), r.previous ≠ r.old := by
    rw [warnings_tagged hx, map_notice_filter_eq_iff]
    exact forall₂_congr fun r _ => decide_eq_true_iff
  refine ⟨warnings_compact hy, warnings_tagged hx, hall, ?_⟩
  intro hsame
  rw [warnings_compact hy, ← hsame]
  exact hall

/-- Both readers tell of the second record; the tagged one ends with the line behind it. -/
theorem warnings_eq_revisions_renamed :
    warnings (tagged.parseLines ["CL: a b", "CL: a c", "CL: a"]).notices
        = [.classRecordOverridden 2 ⟨"a"⟩ ⟨"b"⟩ ⟨"c"⟩] ∧
      warnings (compact.parseLines ["a b", "a c"]).notices
        = warnings (tagged.parseLines ["CL: a b", "CL: a c", "CL: a"]).notices := by
  have hx : tagged.ReadsUpTo ["CL: a b", "CL: a c"] [some "CL: a"] := by
    refine ⟨⟨_, rfl⟩, ?_⟩
    rintro line ⟨⟩
    exact ⟨_, rfl⟩
  have hy : compact.ReadsUpTo ["a b", "a c"] [] := by
    refine ⟨⟨_, rfl⟩, ?_⟩
    rintro line ⟨⟩
  obtain ⟨-, htagged, -, hsame⟩ := warnings_eq_revisions hx hy
  refine ⟨htagged, ((hsame rfl).2 ?_).symm⟩
  show ∀ r ∈ [(⟨2, ⟨"a"⟩, ⟨"b"⟩, ⟨"c"⟩⟩ : Revision)], r.previous ≠ r.old
  simp

/-- A class that was given its own name has a record, and the tagged reader does not tell
that the next one revises it. -/
theorem warnings_tagged_silent :
    (∃ m, (tagged.parseLines ["CL: a a", "CL: a b"]).value = .ok m) ∧
    revisions (["CL: a a", "CL: a b"].map tagged.classRecord?)
      = [⟨2, ⟨"a"⟩, ⟨"a"⟩, ⟨"b"⟩⟩] ∧
    warnings (tagged.parseLines ["CL: a a", "CL: a b"]).notices = [] ∧
    ["CL: a a", "CL: a b"].map tagged.classRecord?
      = ["a a", "a b"].map compact.classRecord? ∧
    warnings (compact.parseLines ["a a", "a b"]).notices
      = [.classRecordOverridden 2 ⟨"a"⟩ ⟨"a"⟩ ⟨"b"⟩] :=
  ⟨⟨_, rfl⟩, rfl, rfl, rfl, rfl⟩

end Format

end SymbolRenaming
