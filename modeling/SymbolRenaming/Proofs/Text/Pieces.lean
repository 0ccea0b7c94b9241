/-
SymbolRenaming/Proofs/Text/Pieces.lean

What trimming leaves of a text, and what stands in the pieces of a cut one.

Design.  That pieces join to a text is a relation (`Joins`): each separator of the text
may be another one, so that no function of the pieces gives the text back.  A text is
joined from its pieces (`joins_pieces`), and from no other pieces without a separator
(`Joins.pieces_eq`).

Main results: a text is trimmed once and for all (`trimBy_trimBy`), whatever is dropped
may be put there again (`trimBy_append`), and a character that is neither dropped nor a
separator is found again (`mem_trimBy`, `exists_mem_pieces`).
-/
import Mathlib.Data.List.TakeWhile
import SymbolRenaming.Proofs.Basic
import SymbolRenaming.Text.Blank
import SymbolRenaming.Text.Split

namespace SymbolRenaming.Text

variable {p : Char → Bool} {cs : List Char} {c : Char}

/-! ### Trimming -/

/-- What is left of a text is not to be dropped at its front. -/
theorem head?_trimBy (p : Char → Bool) (cs : List Char) :
    ∀ c ∈ (trimBy p cs).head?, p c = false := by
  have hpre : trimBy p cs <+: cs.dropWhile p := by
    rw [← List.reverse_suffix, trimBy, List.reverse_reverse]
    exact List.dropWhile_suffix p
  intro c hc
  have hhead : (cs.dropWhile p).head? = some c := by
    obtain ⟨rest, hrest⟩ := hpre
    rw [← hrest, List.head?_append, hc]
    rfl
  have hnot := List.head?_dropWhile_not p cs
  rw [hhead] at hnot
  exact hnot

/-- What is left of a text is not to be dropped at its back. -/
theorem getLast?_trimBy (p : Char → Bool) (cs : List Char) :
    ∀ c ∈ (trimBy p cs).getLast?, p c = false := by
  intro c hc
  have hnot := List.head?_dropWhile_not p (cs.dropWhile p).reverse
  rw [trimBy, List.getLast?_reverse] at hc
  rw [hc] at hnot
  exact hnot

theorem trimBy_trimBy (p : Char → Bool) (cs : List Char) : trimBy p (trimBy p cs) = trimBy p cs :=
  trimBy_eq_self (head?_trimBy p cs) (getLast?_trimBy p cs)

theorem mem_trimBy (hc : c ∈ cs) (hp : p c = false) : c ∈ trimBy p cs := by
  rw [trimBy, List.mem_reverse]
  exact mem_dropWhile_of_mem (List.mem_reverse.2 (mem_dropWhile_of_mem hc hp)) hp

/-- A text is what trimming leaves of it, between characters that are dropped. -/
theorem exists_append_trimBy (p : Char → Bool) (cs : List Char) :
    ∃ left right, cs = left ++ trimBy p cs ++ right ∧ (∀ c ∈ left, p c = true) ∧
      ∀ c ∈ right, p c = true := by
  refine ⟨cs.takeWhile p, ((cs.dropWhile p).reverse.takeWhile p).reverse, ?_, ?_, ?_⟩
  · rw [trimBy, List.append_assoc, ← List.reverse_append, List.takeWhile_append_dropWhile,
      List.reverse_reverse, List.takeWhile_append_dropWhile]
  · intro c hc
    exact List.mem_takeWhile_imp hc
  · intro c hc
    exact List.mem_takeWhile_imp (List.mem_reverse.1 hc)

/-- Characters that are dropped may stand at both ends. -/
theorem trimBy_append {left right : List Char} (hleft : ∀ c ∈ left, p c = true)
    (hright : ∀ c ∈ right, p c = true) (cs : List Char) :
    trimBy p (left ++ cs ++ right) = trimBy p cs := by
  have hdrop : ∀ {ds : List Char}, (∀ c ∈ ds, p c = true) → ds.dropWhile p = [] :=
    fun h => List.dropWhile_eq_nil_iff.2 h
  have hfront : (left ++ cs ++ right).dropWhile p = (cs ++ right).dropWhile p := by
    rw [List.append_assoc, List.dropWhile_append_of_pos hleft]
  rw [trimBy, trimBy, hfront, List.dropWhile_append]
  split
  · rename_i hempty
    rw [hdrop hright, List.isEmpty_iff.1 hempty]
  · rw [List.reverse_append, List.dropWhile_append_of_pos]
    intro c hc
    exact hright c (List.mem_reverse.1 hc)

/-! ### Pieces -/

/-- What does not separate stands in a piece. -/
theorem exists_mem_pieces (hc : c ∈ cs) (hp : p c = false) : ∃ piece ∈ pieces p cs, c ∈ piece := by
  induction cs with
  | nil => cases hc
  | cons d cs ih =>
    rw [pieces]
    rcases List.mem_cons.1 hc with rfl | hc
    · rw [hp]
      rcases pieces p cs with - | ⟨first, rest⟩
      · exact ⟨[c], List.mem_singleton.2 rfl, List.mem_singleton.2 rfl⟩
      · exact ⟨c :: first, List.mem_cons_self .., List.mem_cons_self ..⟩
    · obtain ⟨piece, hpiece, hmem⟩ := ih hc
      split
      · exact ⟨piece, List.mem_cons_of_mem _ hpiece, hmem⟩
      · rcases e : pieces p cs with - | ⟨first, rest⟩
        · exact absurd e (pieces_ne_nil p cs)
        · rw [e] at hpiece
          rcases List.mem_cons.1 hpiece with rfl | hpiece
          · exact ⟨d :: piece, List.mem_cons_self .., List.mem_cons_of_mem _ hmem⟩
          · exact ⟨piece, List.mem_cons_of_mem _ hpiece, hmem⟩

theorem pieces_eq_singleton (h : ∀ c ∈ cs, p c = false) : pieces p cs = [cs] := by
  induction cs with
  | nil => rfl
  | cons c cs ih =>
    rw [pieces, h c (List.mem_cons_self ..), ih fun d hd => h d (List.mem_cons_of_mem _ hd)]
    rfl

/-- A cut at a separator leaves the pieces on both sides as they are. -/
theorem pieces_append {sep : Char} (hsep : p sep = true) (xs ys : List Char) :
    pieces p (xs ++ sep :: ys) = pieces p xs ++ pieces p ys := by
  induction xs with
  | nil => simp [pieces, hsep]
  | cons x xs ih =>
    rw [List.cons_append, pieces, pieces, ih]
    split
    · rfl
    · rcases e : pieces p xs with - | ⟨first, rest⟩
      · exact absurd e (pieces_ne_nil p xs)
      · rfl

/-! ### Joining -/

/-- Pieces with a separator between neighbours, any one of them. -/
inductive Joins (p : Char → Bool) : List (List Char) → List Char → Prop
  | nil : Joins p [] []
  | single (piece : List Char) : Joins p [piece] piece
  | cons {sep : Char} (piece : List Char) {next : List Char} {rest : List (List Char)}
      {text : List Char} (hsep : p sep = true) (h : Joins p (next :: rest) text) :
      Joins p (piece :: next :: rest) (piece ++ sep :: text)

/-- A text is joined from its pieces. -/
theorem joins_pieces (p : Char → Bool) (cs : List Char) : Joins p (pieces p cs) cs := by
  induction cs with
  | nil => exact .single []
  | cons c cs ih =>
    rw [pieces]
    rcases e : pieces p cs with - | ⟨first, rest⟩
    · exact absurd e (pieces_ne_nil p cs)
    · rw [e] at ih
      split
      · rename_i hc
        exact .cons [] hc ih
      · rw [extendPiece]
        cases ih with
        | single => exact .single (c :: cs)
        | cons _ hsep h => exact .cons (c :: first) hsep h

/-- With the same separator everywhere. -/
theorem joins_intercalate {sep : Char} (hsep : p sep = true) (segments : List (List Char)) :
    Joins p segments ([sep].intercalate segments) := by
  induction segments with
  | nil => exact .nil
  | cons segment rest ih =>
    rcases rest with - | ⟨next, rest⟩
    · rw [List.intercalate_singleton]
      exact .single segment
    · rw [List.intercalate_cons_cons, List.append_assoc, List.singleton_append]
      exact .cons segment hsep ih

namespace Joins

variable {segments : List (List Char)} {text : List Char}

/-- Pieces without a separator are those of the text. -/
theorem pieces_eq (h : Joins p segments text) (hne : segments ≠ [])
    (hfree : ∀ segment ∈ segments, ∀ c ∈ segment, p c = false) : pieces p text = segments := by
  induction h with
  | nil => exact absurd rfl hne
  | single piece => exact pieces_eq_singleton (hfree piece (List.mem_singleton.2 rfl))
  | cons piece hsep h ih =>
    rw [pieces_append hsep, pieces_eq_singleton (hfree piece (List.mem_cons_self ..)),
      ih (List.cons_ne_nil _ _) fun segment hs => hfree segment (List.mem_cons_of_mem _ hs)]
    rfl

/-- What does not separate comes from a piece. -/
theorem exists_mem (h : Joins p segments text) (hc : c ∈ text) (hp : p c = false) :
    ∃ segment ∈ segments, c ∈ segment := by
  induction h with
  | nil => cases hc
  | single piece => exact ⟨piece, List.mem_singleton.2 rfl, hc⟩
  | cons piece hsep h ih =>
    rcases List.mem_append.1 hc with hc | hc
    · exact ⟨piece, List.mem_cons_self .., hc⟩
    · rcases List.mem_cons.1 hc with rfl | hc
      · rw [hp] at hsep
        cases hsep
      · obtain ⟨segment, hs, hmem⟩ := ih hc
        exact ⟨segment, List.mem_cons_of_mem _ hs, hmem⟩

/-- One separator in the place of all. -/
theorem map_eq_intercalate {sep : Char} {f : Char → Char} (h : Joins p segments text)
    (hsep : ∀ c, p c = true → f c = sep)
    (hkeep : ∀ segment ∈ segments, ∀ c ∈ segment, f c = c) :
    text.map f = [sep].intercalate segments := by
  have hmap : ∀ {piece : List Char}, (∀ c ∈ piece, f c = c) → piece.map f = piece :=
    fun hpiece => (List.map_congr_left hpiece).trans (List.map_id _)
  induction h with
  | nil => rfl
  | single piece =>
    rw [List.intercalate_singleton, hmap (hkeep piece (List.mem_singleton.2 rfl))]
  | cons piece hc h ih =>
    rw [List.map_append, List.map_cons, hsep _ hc, hmap (hkeep piece (List.mem_cons_self ..)),
      ih fun segment hs => hkeep segment (List.mem_cons_of_mem _ hs),
      List.intercalate_cons_cons, List.append_assoc, List.singleton_append]

/-- A text of pieces that are not empty starts and ends in one of them. -/
theorem not_isSep_of_ends (h : Joins p segments text)
    (hfree : ∀ segment ∈ segments, segment ≠ [] ∧ ∀ c ∈ segment, p c = false) :
    (∀ c ∈ text.head?, p c = false) ∧ ∀ c ∈ text.getLast?, p c = false := by
  induction h with
  | nil => exact ⟨by simp, by simp⟩
  | single piece =>
    obtain ⟨-, hpiece⟩ := hfree piece (List.mem_singleton.2 rfl)
    exact ⟨fun c hc => hpiece c (List.mem_of_head? hc),
      fun c hc => hpiece c (List.mem_of_getLast? hc)⟩
  | @cons sep piece next rest text hsep h ih =>
    obtain ⟨hne, hpiece⟩ := hfree piece (List.mem_cons_self ..)
    obtain ⟨x, xs, rfl⟩ := List.exists_cons_of_ne_nil hne
    obtain ⟨-, hlast⟩ := ih fun segment hs => hfree segment (List.mem_cons_of_mem _ hs)
    -- an empty text would have an empty piece
    have htext : text ≠ [] := by
      rintro rfl
      have hpieces := h.pieces_eq (List.cons_ne_nil _ _) fun segment hs =>
        (hfree segment (List.mem_cons_of_mem _ hs)).2
      have hnil : [] = next := (List.cons.inj hpieces).1
      exact (hfree next (by simp)).1 hnil.symm
    constructor
    · intro c hc
      exact hpiece c (List.mem_of_head? hc)
    · intro c hc
      rw [List.getLast?_append, List.getLast?_cons, List.getLast?_eq_some_getLast htext] at hc
      exact hlast c ((List.getLast?_eq_some_getLast htext).trans hc)

end Joins

end SymbolRenaming.Text
