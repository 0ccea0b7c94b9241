/-
SymbolRenaming/Text/Blank.lean

Blank characters, trimming, and the words of a line.

Design.  A character is blank when it has the Unicode property `White_Space`;
the same class is used wherever a line is trimmed or cut into columns.  All
functions work on `List Char`, so that proofs follow the text character by
character, and have a `String` face for callers.

Main results: no word is empty and no word holds a blank (`word_ne_nil`,
`not_isBlank_of_mem_words`), and trimming leaves alone what has nothing to trim
at its ends (`trimBy_eq_self`).
-/

namespace SymbolRenaming.Text

/-! ### Blank characters -/

/-- The code points with the Unicode property `White_Space`. -/
def blankCodes : List Nat :=
  [0x09, 0x0A, 0x0B, 0x0C, 0x0D, 0x20, 0x85, 0xA0, 0x1680,
   0x2000, 0x2001, 0x2002, 0x2003, 0x2004, 0x2005, 0x2006, 0x2007, 0x2008, 0x2009, 0x200A,
   0x2028, 0x2029, 0x202F, 0x205F, 0x3000]

/-- Whether a character is white space. -/
def isBlank (c : Char) : Bool := blankCodes.contains c.toNat

/-! ### Trimming -/

/-- Drops the blanks at both ends. -/
def trim (cs : List Char) : List Char :=
  ((cs.dropWhile isBlank).reverse.dropWhile isBlank).reverse

/-- Drops the characters satisfying `p` at both ends. -/
def trimBy (p : Char → Bool) (cs : List Char) : List Char :=
  ((cs.dropWhile p).reverse.dropWhile p).reverse

theorem trim_eq_trimBy (cs : List Char) : trim cs = trimBy isBlank cs := rfl

/-- A text whose first and last characters stay is not changed. -/
theorem trimBy_eq_self {p : Char → Bool} {cs : List Char}
    (hf : ∀ c ∈ cs.head?, p c = false) (hl : ∀ c ∈ cs.getLast?, p c = false) :
    trimBy p cs = cs := by
  have h1 : cs.dropWhile p = cs := by
    rcases cs with - | ⟨c, r⟩
    · rfl
    · simp [hf c (by simp)]
  have h2 : cs.reverse.dropWhile p = cs.reverse := by
    rcases e : cs.reverse with - | ⟨c, r⟩
    · rfl
    · have : p c = false := hl c (by simp [← List.head?_reverse, e])
      simp [this]
  rw [trimBy, h1, h2, List.reverse_reverse]

/-! ### Words -/

/-- Puts a character in front of the first word; without a word it starts one. -/
def extendFirst (c : Char) : List (List Char) → List (List Char)
  | [] => [[c]]
  | w :: ws => (c :: w) :: ws

/-- The maximal runs of characters that are not blank, in order. -/
def words : List Char → List (List Char)
  | [] => []
  | [c] => if isBlank c then [] else [[c]]
  | c :: d :: cs =>
    if isBlank c then words (d :: cs)
    else if isBlank d then [c] :: words (d :: cs)
    else extendFirst c (words (d :: cs))

theorem word_ne_nil {cs w : List Char} (h : w ∈ words cs) : w ≠ [] := by
  fun_induction words cs with
  | case1 => simp at h
  | case2 c hc => simp at h
  | case3 c hc => simp_all
  | case4 c d cs hc ih => exact ih h
  | case5 c d cs hc hd ih =>
    rcases List.mem_cons.1 h with rfl | h
    · simp
    · exact ih h
  | case6 c d cs hc hd ih =>
    rcases e : words (d :: cs) with - | ⟨v, vs⟩
    · simp_all [extendFirst]
    · rw [e] at h ih
      rcases List.mem_cons.1 h with rfl | h
      · simp
      · exact ih (List.mem_cons_of_mem _ h)

theorem not_isBlank_of_mem_words {cs w : List Char} (h : w ∈ words cs) :
    ∀ c ∈ w, isBlank c = false := by
  fun_induction words cs generalizing w with
  | case1 => simp at h
  | case2 c hc => simp at h
  | case3 c hc => simp_all
  | case4 c d cs hc ih => exact ih h
  | case5 c d cs hc hd ih =>
    rcases List.mem_cons.1 h with rfl | h
    · simpa using hc
    · exact ih h
  | case6 c d cs hc hd ih =>
    rcases e : words (d :: cs) with - | ⟨v, vs⟩
    · simp_all [extendFirst]
    · rw [e] at h ih
      rcases List.mem_cons.1 h with rfl | h
      · intro x hx
        rcases List.mem_cons.1 hx with rfl | hx
        · simpa using hc
        · exact ih (List.mem_cons_self ..) x hx
      · exact ih (List.mem_cons_of_mem _ h)

/-! ### Strings -/

/-- The text without the blanks at both ends. -/
def trimmed (s : String) : String := .ofList (trim s.toList)

/-- The columns of a line: its maximal runs of characters that are not blank. -/
def columns (s : String) : List String := (words s.toList).map .ofList

end SymbolRenaming.Text
