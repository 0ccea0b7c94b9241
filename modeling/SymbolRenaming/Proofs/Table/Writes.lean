/-
SymbolRenaming/Proofs/Table/Writes.lean

Tables that are written one step after the other.

Design.  Of several pairs for a key the last one counts, in the place of the first,
and the list of pairs alone says what a table written from them finds (`get?_ofList`)
and holds (`entries_ofList_eq_settled`).  In tables that lose keys again, the order of
the keys is said by the steps too: a key stands where it came in when it was
last missing.  The step at which that happened is the one that has the key
missing before it and there ever after (`EnteredAt`), and the keys of a table
whose steps add a missing key at the end, or take keys out, stand in the order
of these steps (`pairwise_enteredAt`).
-/
import Mathlib.Data.List.Basic
import Mathlib.Data.List.Induction
import SymbolRenaming.Table

namespace SymbolRenaming

universe u v w

/-! ### The last pair for a key -/

namespace Entries

variable {α : Type u} {β : Type v} [DecidableEq α]

/-- The value of the last pair with a key. -/
def last? (k : α) (es : List (α × β)) : Option β := find? k es.reverse

theorem last?_concat (k : α) (es : List (α × β)) (e : α × β) :
    last? k (es ++ [e]) = if e.1 = k then some e.2 else last? k es := by
  rw [last?, List.reverse_append]
  rfl

theorem last?_eq_none_iff {k : α} {es : List (α × β)} :
    last? k es = none ↔ k ∉ es.map Prod.fst := by
  rw [last?, find?_eq_none_iff, List.map_reverse, List.mem_reverse]

/-- The last pair with a key is one behind which the key does not come again. -/
theorem last?_eq_some_iff {k : α} {v : β} {es : List (α × β)} :
    last? k es = some v ↔
      ∃ front back, es = front ++ (k, v) :: back ∧ ∀ e ∈ back, e.1 ≠ k := by
  constructor
  · intro h
    induction es using List.reverseRecOn with
    | nil => cases h
    | append_singleton es e ih =>
      rw [last?_concat] at h
      split at h
      · rename_i hk
        obtain rfl : e = (k, v) := Prod.ext hk (Option.some.inj h)
        exact ⟨es, [], rfl, by simp⟩
      · rename_i hk
        obtain ⟨front, back, rfl, hback⟩ := ih h
        refine ⟨front, back ++ [e], by simp, fun x hx => ?_⟩
        rcases List.mem_append.1 hx with hx | hx
        · exact hback x hx
        · obtain rfl := List.mem_singleton.1 hx
          exact hk
  · rintro ⟨front, back, rfl, hback⟩
    induction back using List.reverseRecOn with
    | nil => rw [last?_concat, if_pos rfl]
    | append_singleton back e ih =>
      have hcut : front ++ (k, v) :: (back ++ [e]) = (front ++ (k, v) :: back) ++ [e] := by simp
      rw [hcut, last?_concat, if_neg (hback e (by simp))]
      exact ih fun x hx => hback x (List.mem_append_left _ hx)

/-- Of the steps that give pairs, only those that give one for the key decide. -/
theorem last?_filterMap_filter {ε : Type w} {pair? : ε → Option (α × β)} {k : α} {p : ε → Bool}
    (h : ∀ x e, pair? x = some e → e.1 = k → p x = true) (xs : List ε) :
    last? k ((xs.filter p).filterMap pair?) = last? k (xs.filterMap pair?) := by
  induction xs using List.reverseRecOn with
  | nil => rfl
  | append_singleton xs x ih =>
    -- the last step decides if its pair has the key, and then it is not filtered out
    rw [List.filter_append, List.filterMap_append, List.filterMap_append]
    rcases hpair : pair? x with - | e
    · by_cases hp : p x = true
      · simpa [hp, hpair] using ih
      · simpa [hp, hpair] using ih
    · by_cases hk : e.1 = k
      · simp [h x e hpair hk, hpair, last?_concat, hk]
      · by_cases hp : p x = true
        · simpa [hp, hpair, last?_concat, hk] using ih
        · simpa [hp, hpair, last?_concat, hk] using ih

/-- The pairs that count: each key stands once, in its first place, with its last
value. -/
def settled (es : List (α × β)) : List (α × β) :=
  (es.map Prod.fst).eraseDups.filterMap fun k => (last? k es).map fun v => (k, v)

end Entries

namespace Table

variable {α : Type u} {β : Type v} {γ : Type w} [DecidableEq α]

theorem ofList_concat (es : List (α × β)) (e : α × β) :
    ofList (es ++ [e]) = (ofList es).insert e.1 e.2 :=
  List.foldl_append

theorem get?_ofList (es : List (α × β)) (k : α) : (ofList es).get? k = Entries.last? k es := by
  induction es using List.reverseRecOn with
  | nil => rfl
  | append_singleton es e ih => rw [ofList_concat, get?_insert, Entries.last?_concat, ih]

theorem keys_ofList (es : List (α × β)) : (ofList es).keys = (es.map Prod.fst).eraseDups := by
  induction es using List.reverseRecOn with
  | nil => rfl
  | append_singleton es e ih =>
    rw [ofList_concat, keys_insert, ih, List.map_append, List.eraseDups_append]
    by_cases he : e.1 ∈ es.map Prod.fst
    · rw [if_pos (List.mem_eraseDups.2 he)]
      simp [List.removeAll, he]
    · rw [if_neg (mt List.mem_eraseDups.1 he)]
      simp [List.removeAll, he, List.eraseDups_cons]

/-- A table is its keys with what is found for them. -/
theorem entries_eq_filterMap_keys (t : Table α β) :
    t.entries = t.keys.filterMap fun k => (t.get? k).map fun v => (k, v) := by
  rw [keys, List.filterMap_map]
  conv => lhs; rw [← List.filterMap_some (l := t.entries)]
  refine List.filterMap_congr fun e he => ?_
  have hget : t.get? e.1 = some e.2 := get?_eq_some_iff.2 he
  simp [hget]

/-- A table that is written from pairs has those that count. -/
theorem entries_ofList_eq_settled (es : List (α × β)) :
    (ofList es).entries = Entries.settled es := by
  rw [entries_eq_filterMap_keys, keys_ofList, Entries.settled]
  simp only [get?_ofList]

theorem mem_of_mem_settled {es : List (α × β)} {e : α × β} (h : e ∈ Entries.settled es) :
    e ∈ es := by
  rw [← entries_ofList_eq_settled] at h
  exact mem_of_mem_entries_ofList h

/-- Values that are computed from their pairs. -/
theorem get?_ofList_map (f : α → β → γ) (es : List (α × β)) (k : α) :
    (ofList (es.map fun e => (e.1, f e.1 e.2))).get? k = ((ofList es).get? k).map (f k) := by
  induction es using List.reverseRecOn with
  | nil => rfl
  | append_singleton es e ih =>
    rw [List.map_append, List.map_singleton, ofList_concat, ofList_concat, get?_insert,
      get?_insert, ih]
    split
    · rename_i hk
      rw [Option.map_some, hk]
    · rfl

theorem keys_ofList_map (f : α → β → γ) (t : Table α β) :
    (ofList (t.entries.map fun e => (e.1, f e.1 e.2))).keys = t.keys := by
  have hkeys : (t.entries.map fun e => (e.1, f e.1 e.2)).map Prod.fst = t.keys := by
    rw [List.map_map]
    rfl
  rw [keys, entries_ofList, hkeys]
  rw [hkeys]
  exact t.nodup_keys

theorem mem_keys_iff_isSome {t : Table α β} {k : α} : k ∈ t.keys ↔ (t.get? k).isSome = true :=
  contains_iff.symm

/-- Writes a pair, if there is one. -/
def write (t : Table α β) : Option (α × β) → Table α β
  | some e => t.insert e.1 e.2
  | none => t

theorem get?_write {ε : Type w} (pair? : ε → Option (α × β)) (t : Table α β) (es : List ε)
    (h : ∀ k, t.get? k = Entries.last? k (es.filterMap pair?)) (e : ε) (k : α) :
    (t.write (pair? e)).get? k = Entries.last? k ((es ++ [e]).filterMap pair?) := by
  rw [List.filterMap_append]
  rcases hpair : pair? e with - | ⟨a, v⟩
  · simpa [hpair, write] using h k
  · simp only [List.filterMap_cons, hpair, List.filterMap_nil, Entries.last?_concat]
    rw [write, get?_insert, h]

/-- Writing adds a missing key at the end, or no key. -/
theorem keys_write (t : Table α β) (e : Option (α × β)) :
    List.Sublist (t.write e).keys t.keys ∨
      ∃ k, k ∉ t.keys ∧ (t.write e).keys = t.keys ++ [k] := by
  rcases e with - | ⟨k, v⟩
  · exact Or.inl (List.Sublist.refl _)
  · rw [write, keys_insert]
    split
    · exact Or.inl (List.Sublist.refl _)
    · rename_i hk
      exact Or.inr ⟨k, hk, rfl⟩

end Table

/-! ### The step at which a key came in -/

section Entered

variable {ε : Type u} {α : Type v}

/-- What is missing after the first `i` steps, and there ever after. -/
structure EnteredAt (present : List ε → Prop) (steps : List ε) (i : Nat) : Prop where
  lt : i < steps.length
  missing : ¬ present (steps.take i)
  present : ∀ j, i < j → j ≤ steps.length → present (steps.take j)

namespace EnteredAt

variable {present : List ε → Prop} {steps : List ε} {i : Nat}

/-- One more step that leaves it there. -/
theorem concat (h : EnteredAt present steps i) {e : ε} (he : present (steps ++ [e])) :
    EnteredAt present (steps ++ [e]) i where
  lt := by
    have := h.lt
    simp only [List.length_append, List.length_singleton]
    omega
  missing := by
    rw [List.take_append_of_le_length (Nat.le_of_lt h.lt)]
    exact h.missing
  present := by
    intro j hij hj
    by_cases hle : j ≤ steps.length
    · rw [List.take_append_of_le_length hle]
      exact h.present j hij hle
    · rw [List.take_of_length_le]
      · exact he
      · simp only [List.length_append, List.length_singleton] at hj ⊢
        omega

/-- The step that brings it in. -/
theorem of_concat {e : ε} (hn : ¬ present steps) (he : present (steps ++ [e])) :
    EnteredAt present (steps ++ [e]) steps.length where
  lt := by simp
  missing := by
    rw [List.take_left']
    · exact hn
    · rfl
  present := by
    intro j hij hj
    rw [List.take_of_length_le]
    · exact he
    · simp only [List.length_append, List.length_singleton] at hj ⊢
      omega

/-- What is there in the end has come in at some step. -/
theorem exists_of_present (hnil : ¬ present []) (h : present steps) :
    ∃ i, EnteredAt present steps i := by
  induction steps using List.reverseRecOn with
  | nil => exact absurd h hnil
  | append_singleton steps e ih =>
    by_cases hp : present steps
    · obtain ⟨i, hi⟩ := ih hp
      exact ⟨i, hi.concat h⟩
    · exact ⟨steps.length, of_concat hp h⟩

end EnteredAt

/-- Keys of which each step takes some out, or adds a missing one at the end,
stand in the order in which they came in. -/
theorem pairwise_enteredAt {keysAfter : List ε → List α} (hnil : keysAfter [] = [])
    (hstep : ∀ steps e, List.Sublist (keysAfter (steps ++ [e])) (keysAfter steps) ∨
      ∃ k, k ∉ keysAfter steps ∧ keysAfter (steps ++ [e]) = keysAfter steps ++ [k])
    (steps : List ε) :
    (keysAfter steps).Pairwise fun a b => ∃ i j, i < j ∧
      EnteredAt (a ∈ keysAfter ·) steps i ∧ EnteredAt (b ∈ keysAfter ·) steps j := by
  induction steps using List.reverseRecOn with
  | nil =>
    rw [hnil]
    exact List.Pairwise.nil
  | append_singleton steps e ih =>
    rcases hstep steps e with hsub | ⟨k, hk, hadd⟩
    · -- what is left came in as before
      refine (ih.sublist hsub).imp_of_mem ?_
      rintro a b ha hb ⟨i, j, hij, hi, hj⟩
      exact ⟨i, j, hij, hi.concat ha, hj.concat hb⟩
    · have hmem : ∀ a ∈ keysAfter steps, a ∈ keysAfter (steps ++ [e]) := by
        intro a ha
        rw [hadd]
        exact List.mem_append_left _ ha
      have hold : (keysAfter steps).Pairwise fun a b => ∃ i j, i < j ∧
          EnteredAt (a ∈ keysAfter ·) (steps ++ [e]) i ∧
            EnteredAt (b ∈ keysAfter ·) (steps ++ [e]) j := by
        refine ih.imp_of_mem ?_
        rintro a b ha hb ⟨i, j, hij, hi, hj⟩
        exact ⟨i, j, hij, hi.concat (hmem a ha), hj.concat (hmem b hb)⟩
      rw [hadd]
      refine List.pairwise_append.2 ⟨hold, List.pairwise_singleton _ _, ?_⟩
      intro a ha b hb
      obtain rfl := List.mem_singleton.1 hb
      -- the new key comes in at the last step, the others came in before it
      have hlast : b ∈ keysAfter (steps ++ [e]) := by
        rw [hadd]
        simp
      have hentered : ∃ i, EnteredAt (a ∈ keysAfter ·) steps i :=
        EnteredAt.exists_of_present (by simp [hnil]) ha
      obtain ⟨i, hi⟩ := hentered
      exact ⟨i, steps.length, hi.lt, hi.concat (hmem a ha), EnteredAt.of_concat hk hlast⟩

end Entered

end SymbolRenaming
