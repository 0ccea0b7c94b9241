/-
SymbolRenaming/Proofs/Text/Records.lean

Texts built from lines, and lines built from words.

Design.  Both cuts are undone piece by piece.  A word in front of a blank is the
first column, whatever comes behind the blank (`words_append`), and a line in
front of a line feed is the first line (`splitLines_append`).  So the words of a
line with single blanks between words are those words (`columns_intercalate`),
and the lines of a text are the lines it was joined from, with a line feed
behind each line (`lines_records`) or between lines only (`lines_intercalate`).

A line must not end in a carriage return, which the line feed would take with
it.  A line of words ends in a character that is not blank.
-/
import SymbolRenaming.Text.Blank
import SymbolRenaming.Text.Lines

namespace SymbolRenaming.Text

/-! ### Words -/

/-- A text that can be a column. -/
structure IsWord (s : String) : Prop where
  ne_empty : s ≠ ""
  not_isBlank : ∀ c ∈ s.toList, isBlank c = false

theorem isWord_iff {s : String} :
    IsWord s ↔ s ≠ "" ∧ s.toList.all (fun c => !isBlank c) = true := by
  rw [List.all_eq_true]
  refine ⟨fun h => ⟨h.ne_empty, fun c hc => by simp [h.not_isBlank c hc]⟩, fun h => ⟨h.1, ?_⟩⟩
  intro c hc
  simpa using h.2 c hc

instance (s : String) : Decidable (IsWord s) := decidable_of_iff _ isWord_iff.symm

theorem IsWord.toList_ne_nil {s : String} (h : IsWord s) : s.toList ≠ [] := by
  intro hs
  exact h.ne_empty (String.toList_eq_nil_iff.1 hs)

/-- Words, as characters. -/
theorem IsWord.forall_mem_map_toList {ws : List String} (h : ∀ w ∈ ws, IsWord w) :
    ∀ cs ∈ ws.map String.toList, cs ≠ [] ∧ ∀ c ∈ cs, isBlank c = false := by
  intro cs hcs
  obtain ⟨w, hw, rfl⟩ := List.mem_map.1 hcs
  exact ⟨(h w hw).toList_ne_nil, (h w hw).not_isBlank⟩

/-- The columns of a line are words. -/
theorem isWord_of_mem_columns {line w : String} (h : w ∈ columns line) : IsWord w := by
  obtain ⟨cs, hcs, rfl⟩ := List.mem_map.1 h
  refine ⟨fun he => ?_, ?_⟩
  · refine word_ne_nil hcs ?_
    rw [← String.toList_ofList (l := cs), he]
    rfl
  · intro c hc
    rw [String.toList_ofList] at hc
    exact not_isBlank_of_mem_words hcs c hc

theorem words_cons_of_isBlank {c : Char} (h : isBlank c = true) (cs : List Char) :
    words (c :: cs) = words cs := by
  rcases cs with - | ⟨d, cs⟩
  · simp [words, h]
  · simp [words, h]

/-- Without a blank there is one word. -/
theorem words_eq_singleton {w : List Char} (hne : w ≠ []) (hw : ∀ c ∈ w, isBlank c = false) :
    words w = [w] := by
  induction w with
  | nil => exact absurd rfl hne
  | cons c cs ih =>
    have hc : isBlank c = false := hw c (List.mem_cons_self ..)
    rcases cs with - | ⟨d, cs⟩
    · simp [words, hc]
    · have hd : isBlank d = false := hw d (by simp)
      have hrest : words (d :: cs) = [d :: cs] :=
        ih (by simp) fun x hx => hw x (List.mem_cons_of_mem _ hx)
      simp [words, hc, hd, hrest, extendFirst]

/-- A word in front of a blank is the first word. -/
theorem words_append {w : List Char} (hne : w ≠ []) (hw : ∀ c ∈ w, isBlank c = false)
    {b : Char} (hb : isBlank b = true) (cs : List Char) :
    words (w ++ b :: cs) = w :: words cs := by
  induction w with
  | nil => exact absurd rfl hne
  | cons c w ih =>
    have hc : isBlank c = false := hw c (List.mem_cons_self ..)
    rcases w with - | ⟨d, w⟩
    · simp [words, hc, hb, words_cons_of_isBlank hb]
    · have hd : isBlank d = false := hw d (by simp)
      have hrest : words (d :: w ++ b :: cs) = (d :: w) :: words cs :=
        ih (by simp) fun x hx => hw x (List.mem_cons_of_mem _ hx)
      rw [List.cons_append] at hrest
      simp [words, hc, hd, hrest, extendFirst]

/-- The words of a line with single blanks between words. -/
theorem words_intercalate {ws : List (List Char)}
    (h : ∀ w ∈ ws, w ≠ [] ∧ ∀ c ∈ w, isBlank c = false) :
    words ([' '].intercalate ws) = ws := by
  induction ws with
  | nil => rfl
  | cons w ws ih =>
    obtain ⟨hne, hw⟩ := h w (List.mem_cons_self ..)
    rcases ws with - | ⟨v, vs⟩
    · rw [List.intercalate_singleton, words_eq_singleton hne hw]
    · rw [List.intercalate_cons_cons, List.append_assoc, List.singleton_append,
        words_append hne hw (by decide), ih fun x hx => h x (List.mem_cons_of_mem _ hx)]

/-- The columns of a line with single blanks between words. -/
theorem columns_intercalate {ws : List String} (h : ∀ w ∈ ws, IsWord w) :
    columns (" ".intercalate ws) = ws := by
  have hws : words ([' '].intercalate (ws.map String.toList)) = ws.map String.toList :=
    words_intercalate (IsWord.forall_mem_map_toList h)
  have hlist : (" ".intercalate ws).toList = [' '].intercalate (ws.map String.toList) :=
    String.toList_intercalate
  rw [columns, hlist, hws, List.map_map]
  simp [Function.comp_def]

/-! ### Lines -/

section Lines

variable {α : Type} [DecidableEq α] {lf cr : α}

/-- A line in front of a line feed is the first line. -/
theorem splitLines_append {l : List α} (hlf : lf ∉ l) (hcr : l.getLast? ≠ some cr)
    (rest : List α) : splitLines lf cr (l ++ lf :: rest) = l :: splitLines lf cr rest := by
  induction l with
  | nil =>
    rcases rest with - | ⟨b, rest⟩
    · simp [splitLines]
    · simp [splitLines]
  | cons a l ih =>
    simp only [List.mem_cons, not_or] at hlf
    rcases l with - | ⟨b, l⟩
    · -- the last character of the line is followed by the line feed
      have ha : a ≠ cr := by
        rintro rfl
        exact hcr rfl
      have hrest := ih (by simp) (by simp)
      rw [List.nil_append] at hrest
      simp [splitLines, Ne.symm hlf.1, ha, hrest, extendLine]
    · have hb : b ≠ lf := by
        rintro rfl
        exact hlf.2 (List.mem_cons_self ..)
      have hrest := ih hlf.2 (by simpa using hcr)
      rw [List.cons_append] at hrest
      simp [splitLines, Ne.symm hlf.1, hb, hrest, extendLine]

/-- Without a line feed there is one line. -/
theorem splitLines_eq_singleton {l : List α} (hne : l ≠ []) (hlf : lf ∉ l) :
    splitLines lf cr l = [l] := by
  induction l with
  | nil => exact absurd rfl hne
  | cons a l ih =>
    simp only [List.mem_cons, not_or] at hlf
    rcases l with - | ⟨b, l⟩
    · simp [splitLines, Ne.symm hlf.1]
    · have hb : b ≠ lf := by
        rintro rfl
        exact hlf.2 (List.mem_cons_self ..)
      have hrest : splitLines lf cr (b :: l) = [b :: l] := ih (by simp) hlf.2
      simp [splitLines, Ne.symm hlf.1, hb, hrest, extendLine]

/-- The lines of a text with a line feed behind each line. -/
theorem splitLines_flatten {ls : List (List α)}
    (h : ∀ l ∈ ls, lf ∉ l ∧ l.getLast? ≠ some cr) :
    splitLines lf cr (ls.map fun l => l ++ [lf]).flatten = ls := by
  induction ls with
  | nil => rfl
  | cons l ls ih =>
    obtain ⟨hlf, hcr⟩ := h l (List.mem_cons_self ..)
    rw [List.map_cons, List.flatten_cons, List.append_assoc, List.singleton_append,
      splitLines_append hlf hcr, ih fun x hx => h x (List.mem_cons_of_mem _ hx)]

/-- The lines of a text with a line feed between lines. -/
theorem splitLines_intercalate {ls : List (List α)}
    (h : ∀ l ∈ ls, l ≠ [] ∧ lf ∉ l ∧ l.getLast? ≠ some cr) :
    splitLines lf cr ([lf].intercalate ls) = ls := by
  induction ls with
  | nil => rfl
  | cons l ls ih =>
    obtain ⟨hne, hlf, hcr⟩ := h l (List.mem_cons_self ..)
    rcases ls with - | ⟨l', ls⟩
    · rw [List.intercalate_singleton, splitLines_eq_singleton hne hlf]
    · rw [List.intercalate_cons_cons, List.append_assoc, List.singleton_append,
        splitLines_append hlf hcr, ih fun x hx => h x (List.mem_cons_of_mem _ hx)]

end Lines

/-- A text that is a line of its own and stays one when lines are joined. -/
structure IsLine (s : String) : Prop where
  ne_nil : s.toList ≠ []
  not_mem : '\n' ∉ s.toList
  getLast?_ne : s.toList.getLast? ≠ some '\r'

/-- Joined words have no line feed and do not end in a blank. -/
theorem not_mem_intercalate_words {ws : List (List Char)} (hne : ws ≠ [])
    (h : ∀ w ∈ ws, w ≠ [] ∧ ∀ c ∈ w, isBlank c = false) :
    [' '].intercalate ws ≠ [] ∧ '\n' ∉ [' '].intercalate ws ∧
      ∀ c ∈ ([' '].intercalate ws).getLast?, isBlank c = false := by
  induction ws with
  | nil => exact absurd rfl hne
  | cons w ws ih =>
    obtain ⟨hw, hblank⟩ := h w (List.mem_cons_self ..)
    have hnl : '\n' ∉ w := by
      intro hm
      have hn := hblank _ hm
      revert hn
      decide
    rcases ws with - | ⟨v, vs⟩
    · rw [List.intercalate_singleton]
      exact ⟨hw, hnl, fun c hc => hblank c (List.mem_of_getLast? hc)⟩
    · -- the end of the line is the end of the words behind the first one
      obtain ⟨hne', hnl', hlast⟩ := ih (by simp) fun x hx => h x (List.mem_cons_of_mem _ hx)
      rw [List.intercalate_cons_cons]
      refine ⟨by simp, by simp [hnl, hnl'], ?_⟩
      intro c hc
      rw [List.getLast?_append, List.getLast?_eq_some_getLast hne'] at hc
      exact hlast c ((List.getLast?_eq_some_getLast hne').trans hc)

/-- Words with single blanks between them are a line. -/
theorem isLine_intercalate {ws : List String} (hne : ws ≠ []) (h : ∀ w ∈ ws, IsWord w) :
    IsLine (" ".intercalate ws) := by
  obtain ⟨h1, h2, h3⟩ := not_mem_intercalate_words (by simpa using hne : ws.map String.toList ≠ [])
    (IsWord.forall_mem_map_toList h)
  have hlist : (" ".intercalate ws).toList = [' '].intercalate (ws.map String.toList) :=
    String.toList_intercalate
  refine ⟨?_, ?_, ?_⟩
  · rwa [hlist]
  · rwa [hlist]
  · -- a carriage return is blank
    rw [hlist]
    intro hr
    have hn := h3 _ hr
    revert hn
    decide

/-- The lines of a text with a line feed behind each line. -/
theorem lines_records {ls : List String} (h : ∀ l ∈ ls, IsLine l) :
    lines (.ofList (ls.map fun l => l.toList ++ ['\n']).flatten) = ls := by
  have hls : splitLines '\n' '\r' ((ls.map String.toList).map fun l => l ++ ['\n']).flatten
      = ls.map String.toList := by
    refine splitLines_flatten fun cs hcs => ?_
    obtain ⟨l, hl, rfl⟩ := List.mem_map.1 hcs
    exact ⟨(h l hl).not_mem, (h l hl).getLast?_ne⟩
  rw [List.map_map] at hls
  rw [lines, String.toList_ofList]
  show List.map _ (splitLines '\n' '\r'
    (ls.map ((fun l => l ++ ['\n']) ∘ String.toList)).flatten) = ls
  rw [hls, List.map_map]
  simp [Function.comp_def]

/-- The lines of a text with a line feed between lines. -/
theorem lines_intercalate {ls : List String} (h : ∀ l ∈ ls, IsLine l) :
    lines ("\n".intercalate ls) = ls := by
  have hls : splitLines '\n' '\r' (['\n'].intercalate (ls.map String.toList))
      = ls.map String.toList := by
    refine splitLines_intercalate fun cs hcs => ?_
    obtain ⟨l, hl, rfl⟩ := List.mem_map.1 hcs
    exact ⟨(h l hl).ne_nil, (h l hl).not_mem, (h l hl).getLast?_ne⟩
  have hlist : ("\n".intercalate ls).toList = ['\n'].intercalate (ls.map String.toList) :=
    String.toList_intercalate
  rw [lines, hlist, hls, List.map_map]
  simp [Function.comp_def]

end SymbolRenaming.Text
