/-
SymbolRenaming/Text/Split.lean

Cutting a text at a separator: at the first one, at the last one, at all.

Main results: a cut at the last (first) separator is the one way to write the
text as two parts around a separator such that the second (first) part holds
none (`splitAtLast_eq_some_iff`, `splitAtFirst_eq_some_iff`); joining the pieces
of a full split gives the text back (`intercalate_pieces`).
-/

namespace SymbolRenaming.Text

/-! ### The last separator -/

/-- The parts before and after the last separator. -/
def splitAtLast (sep : Char) : List Char → Option (List Char × List Char)
  | [] => none
  | c :: cs =>
    match splitAtLast sep cs with
    | some (before, after) => some (c :: before, after)
    | none => if c = sep then some ([], cs) else none

theorem splitAtLast_eq_none_iff {sep : Char} {cs : List Char} :
    splitAtLast sep cs = none ↔ sep ∉ cs := by
  induction cs with
  | nil => simp [splitAtLast]
  | cons c cs ih =>
    rcases e : splitAtLast sep cs with - | ⟨a, b⟩
    · by_cases h : c = sep
      · simp [splitAtLast, e, h]
      · simp [splitAtLast, e, h, ih.1 e, Ne.symm h]
    · have : sep ∈ cs := Decidable.byContradiction fun hn => by simp [ih.2 hn] at e
      simp [splitAtLast, e, this]

theorem splitAtLast_eq_some_iff {sep : Char} {cs before after : List Char} :
    splitAtLast sep cs = some (before, after) ↔ cs = before ++ sep :: after ∧ sep ∉ after := by
  induction cs generalizing before after with
  | nil => simp [splitAtLast]
  | cons c cs ih =>
    rcases e : splitAtLast sep cs with - | ⟨a, b⟩
    · have hn := splitAtLast_eq_none_iff.1 e
      by_cases h : c = sep
      · subst h
        rcases before with - | ⟨x, before⟩
        · simp only [splitAtLast, e, ite_true, Option.some.injEq, Prod.mk.injEq, true_and,
            List.nil_append, List.cons.injEq]
          exact ⟨fun h => ⟨h, h ▸ hn⟩, fun h => h.1⟩
        · simp only [splitAtLast, e, ite_true, Option.some.injEq, Prod.mk.injEq, List.cons_append,
            List.cons.injEq]
          refine ⟨fun h => by simp at h, fun h => ?_⟩
          exact absurd (by rw [h.1.2]; simp) hn
      · simp only [splitAtLast, e, if_neg h]
        refine ⟨fun h => by simp at h, fun ⟨h1, _⟩ => ?_⟩
        rcases before with - | ⟨x, before⟩
        · exact absurd (List.cons.inj h1).1 h
        · exact absurd (by rw [(List.cons.inj h1).2]; simp) hn
    · simp only [splitAtLast, e, Option.some.injEq, Prod.mk.injEq]
      rcases before with - | ⟨x, before⟩
      · have hb := (ih.1 e)
        refine ⟨fun h => by simp at h, fun ⟨h1, h2⟩ => ?_⟩
        rw [(List.cons.inj (by simpa using h1 : c :: cs = sep :: after)).2] at hb
        exact absurd (by rw [hb.1]; simp) h2
      · simp only [List.cons.injEq, List.cons_append]
        constructor
        · rintro ⟨⟨rfl, rfl⟩, rfl⟩
          exact ⟨⟨rfl, (ih.1 e).1⟩, (ih.1 e).2⟩
        · rintro ⟨⟨rfl, h1⟩, h2⟩
          have := e.symm.trans (ih.2 ⟨h1, h2⟩)
          simp only [Option.some.injEq, Prod.mk.injEq] at this
          exact ⟨⟨rfl, this.1⟩, this.2⟩

/-! ### The first separator -/

/-- The parts before and after the first separator. -/
def splitAtFirst (sep : Char) : List Char → Option (List Char × List Char)
  | [] => none
  | c :: cs =>
    if c = sep then some ([], cs)
    else (splitAtFirst sep cs).map fun p => (c :: p.1, p.2)

theorem splitAtFirst_eq_some_iff {sep : Char} {cs before after : List Char} :
    splitAtFirst sep cs = some (before, after) ↔ cs = before ++ sep :: after ∧ sep ∉ before := by
  induction cs generalizing before with
  | nil => simp [splitAtFirst]
  | cons c cs ih =>
    by_cases h : c = sep
    · subst h
      rcases before with - | ⟨x, before⟩
      · simp [splitAtFirst]
      · simp only [splitAtFirst, ite_true, Option.some.injEq, Prod.mk.injEq, List.cons_append,
          List.cons.injEq, List.mem_cons, not_or]
        refine ⟨fun h => by simp at h, fun h => absurd h.1.1 h.2.1⟩
    · rcases before with - | ⟨x, before⟩
      · simp [splitAtFirst, h]
      · simp only [splitAtFirst, if_neg h, Option.map_eq_some_iff, Prod.exists, Prod.mk.injEq,
          List.cons.injEq, List.cons_append, List.mem_cons, not_or]
        constructor
        · rintro ⟨a, b, hab, ⟨rfl, rfl⟩, rfl⟩
          have := ih.1 hab
          exact ⟨⟨rfl, this.1⟩, Ne.symm h, this.2⟩
        · rintro ⟨⟨rfl, h1⟩, -, h2⟩
          exact ⟨before, after, ih.2 ⟨h1, h2⟩, ⟨rfl, rfl⟩, rfl⟩

/-- What follows a separator is shorter than the text. -/
theorem length_lt_of_splitAtFirst {sep : Char} {cs before after : List Char}
    (h : splitAtFirst sep cs = some (before, after)) : after.length < cs.length := by
  rw [(splitAtFirst_eq_some_iff.1 h).1]
  simp only [List.length_append, List.length_cons]
  omega

/-! ### All separators -/

/-- Puts a character in front of the first piece. -/
def extendPiece (c : Char) : List (List Char) → List (List Char)
  | [] => [[c]]
  | p :: ps => (c :: p) :: ps

/-- The pieces between the separators; there is always one piece more than
there are separators. -/
def pieces (isSep : Char → Bool) : List Char → List (List Char)
  | [] => [[]]
  | c :: cs => if isSep c then [] :: pieces isSep cs else extendPiece c (pieces isSep cs)

theorem pieces_ne_nil (isSep : Char → Bool) (cs : List Char) : pieces isSep cs ≠ [] := by
  induction cs with
  | nil => simp [pieces]
  | cons c cs ih =>
    rw [pieces]
    split
    · simp
    · rcases e : pieces isSep cs with - | ⟨p, ps⟩
      · exact absurd e ih
      · simp [extendPiece]

/-- Joining the pieces with the separator gives the text back. -/
theorem intercalate_pieces (sep : Char) (cs : List Char) :
    List.intercalate [sep] (pieces (· == sep) cs) = cs := by
  induction cs with
  | nil => simp [pieces]
  | cons c cs ih =>
    rcases e : pieces (· == sep) cs with - | ⟨p, ps⟩
    · exact absurd e (pieces_ne_nil _ _)
    · rw [e] at ih
      by_cases h : c = sep
      · subst h
        simp only [pieces, beq_self_eq_true, ite_true, e, List.intercalate_cons_cons]
        simp [ih]
      · simp only [pieces, beq_iff_eq, if_neg h, e, extendPiece]
        rcases ps with - | ⟨q, qs⟩
        · simpa using ih
        · simp only [List.intercalate_cons_cons, List.cons_append, List.append_assoc] at ih ⊢
          rw [ih]

theorem not_isSep_of_mem_pieces {isSep : Char → Bool} {cs p : List Char}
    (h : p ∈ pieces isSep cs) : ∀ c ∈ p, isSep c = false := by
  induction cs generalizing p with
  | nil => simp_all [pieces]
  | cons c cs ih =>
    rw [pieces] at h
    split at h
    · rcases List.mem_cons.1 h with rfl | h
      · simp
      · exact ih h
    · rcases e : pieces isSep cs with - | ⟨q, qs⟩
      · exact absurd e (pieces_ne_nil _ _)
      · rw [e] at h ih
        rcases List.mem_cons.1 h with rfl | h
        · intro x hx
          rcases List.mem_cons.1 hx with rfl | hx
          · simp_all
          · exact ih (List.mem_cons_self ..) x hx
        · exact ih (List.mem_cons_of_mem _ h)

end SymbolRenaming.Text
