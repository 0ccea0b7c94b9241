/-
SymbolRenaming/Table.lean

Tables: finite maps that remember the order in which their keys came in.

Design.  A table is the list of its entries, with a proof that no key occurs
twice.  Writing to a key that is there keeps the key's place; a new key goes to
the end; a key that was removed and is written again goes to the end too.  The
functions on bare entry lists come first, and the table operations wrap them.

Main results, one per operation: what is found (`get?_insert`, `get?_erase`,
`get?_filter`, `get?_mapValues`) and in which order the keys stand
(`keys_insert`, `keys_erase`, `keys_mapValues`).  Two tables find the same
values exactly when they have the same entries in some order (`sameEntries_iff`).
-/

namespace SymbolRenaming

universe u v w

/-! ### Entry lists -/

namespace Entries

variable {α : Type u} {β : Type v} {γ : Type w} [DecidableEq α]

/-- The value of the first entry with a key. -/
def find? (k : α) : List (α × β) → Option β
  | [] => none
  | (k', v) :: es => if k' = k then some v else find? k es

/-- Overwrites the first entry with a key, or adds an entry at the end. -/
def insert (k : α) (v : β) : List (α × β) → List (α × β)
  | [] => [(k, v)]
  | (k', v') :: es => if k' = k then (k', v) :: es else (k', v') :: insert k v es

theorem find?_eq_none_iff {k : α} {es : List (α × β)} :
    find? k es = none ↔ k ∉ es.map Prod.fst := by
  induction es with
  | nil => simp [find?]
  | cons e es ih =>
    by_cases h : e.1 = k
    · simp [find?, h]
    · simp [find?, h, ih, Ne.symm h]

theorem mem_of_find? {k : α} {v : β} {es : List (α × β)} (h : find? k es = some v) :
    (k, v) ∈ es := by
  induction es with
  | nil => simp [find?] at h
  | cons e es ih =>
    by_cases hk : e.1 = k
    · simp only [find?, hk, ite_true, Option.some.injEq] at h
      subst hk h
      simp
    · simp only [find?, hk, ite_false] at h
      exact List.mem_cons_of_mem _ (ih h)

theorem find?_eq_some_iff {k : α} {v : β} {es : List (α × β)} (hn : (es.map Prod.fst).Nodup) :
    find? k es = some v ↔ (k, v) ∈ es := by
  refine ⟨mem_of_find?, fun h => ?_⟩
  induction es with
  | nil => simp at h
  | cons e es ih =>
    simp only [List.map_cons, List.nodup_cons] at hn
    rcases List.mem_cons.1 h with rfl | h
    · simp [find?]
    · have : e.1 ≠ k := by
        rintro rfl
        exact hn.1 (List.mem_map.2 ⟨_, h, rfl⟩)
      simp [find?, this, ih hn.2 h]

theorem find?_insert (k k' : α) (v : β) (es : List (α × β)) :
    find? k' (insert k v es) = if k = k' then some v else find? k' es := by
  induction es with
  | nil => simp [insert, find?]
  | cons e es ih =>
    by_cases h : e.1 = k
    · subst h
      by_cases h' : e.1 = k' <;> simp [insert, find?, h']
    · by_cases h' : e.1 = k'
      · subst h'
        simp [insert, find?, h, Ne.symm h]
      · simp [insert, find?, h, h', ih]

theorem keys_insert (k : α) (v : β) (es : List (α × β)) :
    (insert k v es).map Prod.fst
      = if k ∈ es.map Prod.fst then es.map Prod.fst else es.map Prod.fst ++ [k] := by
  induction es with
  | nil => simp [insert]
  | cons e es ih =>
    by_cases h : e.1 = k
    · simp [insert, h]
    · simp only [insert, h, ite_false, List.map_cons, ih, List.mem_cons, Ne.symm h, false_or]
      split <;> simp

theorem nodup_keys_insert {es : List (α × β)} (h : (es.map Prod.fst).Nodup) (k : α) (v : β) :
    ((insert k v es).map Prod.fst).Nodup := by
  rw [keys_insert]
  split
  · exact h
  · rename_i hk
    refine List.nodup_append.2 ⟨h, by simp, ?_⟩
    rintro a ha b hb rfl
    exact hk (List.mem_singleton.1 hb ▸ ha)

end Entries

/-! ### Tables -/

/-- A finite map whose keys stand in a definite order. -/
structure Table (α : Type u) (β : Type v) where
  entries : List (α × β)
  nodup_keys : (entries.map Prod.fst).Nodup := by simp

namespace Table

variable {α : Type u} {β : Type v} {γ : Type w}

@[ext] theorem ext {s t : Table α β} (h : s.entries = t.entries) : s = t := by
  cases s
  cases t
  simpa using h

/-- The table without entries. -/
def empty : Table α β := { entries := [] }

instance : Inhabited (Table α β) := ⟨empty⟩
instance : EmptyCollection (Table α β) := ⟨empty⟩

/-- The keys in order. -/
def keys (t : Table α β) : List α := t.entries.map Prod.fst

/-- The values in the order of their keys. -/
def values (t : Table α β) : List β := t.entries.map Prod.snd

/-- How many entries the table has. -/
def size (t : Table α β) : Nat := t.entries.length

/-- Whether the table has no entry. -/
def isEmpty (t : Table α β) : Bool := t.entries.isEmpty

/-- Keeps the entries that satisfy `p`. -/
def filter (p : α × β → Bool) (t : Table α β) : Table α β where
  entries := t.entries.filter p
  nodup_keys := (List.filter_sublist.map Prod.fst).nodup t.nodup_keys

/-- Changes every value and keeps the keys. -/
def mapValues (f : β → γ) (t : Table α β) : Table α γ where
  entries := t.entries.map fun e => (e.1, f e.2)
  nodup_keys := by simpa [Function.comp_def] using t.nodup_keys

variable [DecidableEq α]

/-- The value of a key. -/
def get? (t : Table α β) (k : α) : Option β := Entries.find? k t.entries

/-- Whether the key is there. -/
def contains (t : Table α β) (k : α) : Bool := (t.get? k).isSome

/-- Sets the value of a key. -/
def insert (t : Table α β) (k : α) (v : β) : Table α β where
  entries := Entries.insert k v t.entries
  nodup_keys := Entries.nodup_keys_insert t.nodup_keys k v

/-- Sets the value of a key that is not there yet. -/
def insertNew (t : Table α β) (k : α) (v : β) : Table α β :=
  if t.contains k then t else t.insert k v

/-- Removes a key. -/
def erase (t : Table α β) (k : α) : Table α β := t.filter fun e => e.1 ≠ k

/-- Writes the pairs one after the other: the last value of a key wins, and its
first occurrence fixes its place. -/
def ofList (es : List (α × β)) : Table α β :=
  es.foldl (fun t e => t.insert e.1 e.2) empty

/-- Writes the entries the other way round, in order: of several keys with one
value, the last becomes the value's image. -/
def swap [DecidableEq β] (t : Table α β) : Table β α :=
  ofList (t.entries.map Prod.swap)

/-- Whether two tables have the same entries, in any order. -/
def sameEntries [DecidableEq β] (s t : Table α β) : Bool :=
  s.size == t.size && s.entries.all fun e => t.get? e.1 = some e.2

/-! ### What is found -/

theorem get?_eq_some_iff {t : Table α β} {k : α} {v : β} :
    t.get? k = some v ↔ (k, v) ∈ t.entries :=
  Entries.find?_eq_some_iff t.nodup_keys

theorem get?_eq_none_iff {t : Table α β} {k : α} : t.get? k = none ↔ k ∉ t.keys :=
  Entries.find?_eq_none_iff

theorem contains_iff {t : Table α β} {k : α} : t.contains k = true ↔ k ∈ t.keys := by
  rw [contains, Option.isSome_iff_ne_none, ne_eq, get?_eq_none_iff, Decidable.not_not]

@[simp] theorem get?_empty (k : α) : (empty : Table α β).get? k = none := rfl

theorem get?_insert (t : Table α β) (k k' : α) (v : β) :
    (t.insert k v).get? k' = if k = k' then some v else t.get? k' :=
  Entries.find?_insert k k' v t.entries

theorem get?_filter (p : α × β → Bool) (t : Table α β) (k : α) :
    (t.filter p).get? k = (t.get? k).filter fun v => p (k, v) := by
  refine Option.ext fun v => ?_
  rw [get?_eq_some_iff, Option.filter_eq_some_iff, get?_eq_some_iff]
  exact List.mem_filter

theorem get?_erase (t : Table α β) (k k' : α) :
    (t.erase k).get? k' = if k = k' then none else t.get? k' := by
  rw [erase, get?_filter]
  by_cases h : k = k'
  · simp [h]
  · rw [if_neg h]
    refine Option.ext fun v => ?_
    simp [Option.filter_eq_some_iff, Ne.symm h]

theorem get?_mapValues (f : β → γ) (t : Table α β) (k : α) :
    (t.mapValues f).get? k = (t.get? k).map f := by
  rcases t with ⟨es, hn⟩
  simp only [get?, mapValues]
  clear hn
  induction es with
  | nil => rfl
  | cons e es ih =>
    by_cases h : e.1 = k
    · simp [Entries.find?, h]
    · simp [Entries.find?, h, ih]

theorem insertNew_of_contains {t : Table α β} {k : α} (h : t.contains k) (v : β) :
    t.insertNew k v = t := if_pos h

/-- A value that is there is not overwritten by `insertNew`. -/
theorem get?_insertNew (t : Table α β) (k k' : α) (v : β) :
    (t.insertNew k v).get? k' = (t.get? k').or (if k = k' then some v else none) := by
  rcases e : t.get? k with - | w
  · have hn : t.contains k = false := by simp [contains, e]
    rw [insertNew, hn, if_neg Bool.false_ne_true, get?_insert]
    by_cases h : k = k'
    · subst h
      simp [e]
    · simp [h]
  · rw [insertNew_of_contains (by simp [contains, e])]
    by_cases h : k = k'
    · subst h
      simp [e]
    · simp [h]

/-- Several keys set by `insertNew`, each to its value under `f`. -/
theorem get?_foldl_insertNew (f : α → β) (ks : List α) (t : Table α β) (k : α) :
    (ks.foldl (fun t k => t.insertNew k (f k)) t).get? k
      = (t.get? k).or (if k ∈ ks then some (f k) else none) := by
  induction ks generalizing t with
  | nil => simp
  | cons x xs ih =>
    rw [List.foldl_cons, ih, get?_insertNew, Option.or_assoc]
    by_cases h : x = k
    · subst h
      simp
    · simp [h, Ne.symm h]

/-! ### The order of the keys -/

theorem keys_insert (t : Table α β) (k : α) (v : β) :
    (t.insert k v).keys = if k ∈ t.keys then t.keys else t.keys ++ [k] :=
  Entries.keys_insert k v t.entries

theorem keys_erase (t : Table α β) (k : α) : (t.erase k).keys = t.keys.filter (· ≠ k) := by
  simp only [erase, filter, keys, List.filter_map]
  rfl

omit [DecidableEq α] in
theorem keys_mapValues (f : β → γ) (t : Table α β) : (t.mapValues f).keys = t.keys := by
  simp [mapValues, keys, Function.comp_def]

/-! ### The entries of a list of pairs -/

theorem entries_insert_of_not_mem {t : Table α β} {k : α} (h : k ∉ t.keys) (v : β) :
    (t.insert k v).entries = t.entries ++ [(k, v)] := by
  have key : ∀ es : List (α × β), k ∉ es.map Prod.fst → Entries.insert k v es = es ++ [(k, v)] := by
    intro es
    induction es with
    | nil => intro _; rfl
    | cons e es ih =>
      intro hk
      simp only [List.map_cons, List.mem_cons, not_or] at hk
      simp [Entries.insert, Ne.symm hk.1, ih hk.2]
  exact key t.entries h

/-- New keys without repetition come in behind the entries that are there. -/
theorem entries_foldl_insert {t : Table α β} {es : List (α × β)}
    (h : (t.keys ++ es.map Prod.fst).Nodup) :
    (es.foldl (fun t e => t.insert e.1 e.2) t).entries = t.entries ++ es := by
  induction es generalizing t with
  | nil => simp
  | cons e es ih =>
    have hk : e.1 ∉ t.keys := fun hm =>
      (List.nodup_append.1 h).2.2 e.1 hm e.1 (by simp) rfl
    have hkeys : (t.insert e.1 e.2).keys = t.keys ++ [e.1] := by rw [keys_insert, if_neg hk]
    rw [List.foldl_cons, ih (by simpa [hkeys] using h), entries_insert_of_not_mem hk]
    simp

theorem entries_ofList {es : List (α × β)} (h : (es.map Prod.fst).Nodup) :
    (ofList es).entries = es :=
  entries_foldl_insert (t := empty) (by simpa [keys, empty] using h)

@[simp] theorem ofList_entries (t : Table α β) : ofList t.entries = t :=
  ext (entries_ofList t.nodup_keys)

/-- Writing the entries with changed values is changing the values. -/
theorem foldl_insert_mapValues (t : Table α β) (f : β → γ) :
    t.entries.foldl (fun u e => u.insert e.1 (f e.2)) empty = t.mapValues f := by
  rw [← ofList_entries (t.mapValues f), ofList, mapValues, List.foldl_map]

/-- Setting a value brings in one entry at most. -/
theorem mem_of_mem_entries_insert {t : Table α β} {k : α} {v : β} {e : α × β}
    (h : e ∈ (t.insert k v).entries) : e = (k, v) ∨ e ∈ t.entries := by
  have hget : (t.insert k v).get? e.1 = some e.2 := get?_eq_some_iff.2 h
  rw [get?_insert] at hget
  split at hget
  · rename_i hk
    exact Or.inl (Prod.ext hk.symm (Option.some.inj hget).symm)
  · exact Or.inr (get?_eq_some_iff.1 hget)

/-- Writing pairs brings in nothing but pairs. -/
theorem mem_of_get?_foldl_insert {es : List (α × β)} {t : Table α β} {k : α} {v : β}
    (h : (es.foldl (fun t e => t.insert e.1 e.2) t).get? k = some v) :
    t.get? k = some v ∨ (k, v) ∈ es := by
  induction es generalizing t with
  | nil => exact Or.inl h
  | cons e es ih =>
    rcases ih h with hx | hx
    · rw [get?_insert] at hx
      split at hx
      · rename_i hk
        exact Or.inr (List.mem_cons.2 (Or.inl (Prod.ext hk.symm (Option.some.inj hx).symm)))
      · exact Or.inl hx
    · exact Or.inr (List.mem_cons_of_mem _ hx)

theorem mem_of_mem_entries_ofList {es : List (α × β)} {e : α × β}
    (h : e ∈ (ofList es).entries) : e ∈ es := by
  rcases mem_of_get?_foldl_insert (get?_eq_some_iff.2 h) with h0 | h0
  · simp at h0
  · exact h0

omit [DecidableEq α] in
/-- An entry read backwards is an entry. -/
theorem mem_of_mem_entries_swap [DecidableEq β] {t : Table α β} {e : β × α}
    (h : e ∈ t.swap.entries) : (e.2, e.1) ∈ t.entries := by
  obtain ⟨x, hx, rfl⟩ := List.mem_map.1 (mem_of_mem_entries_ofList h)
  exact hx

/-! ### Tables with the same entries -/

omit [DecidableEq α] in
theorem nodup_entries (t : Table α β) : t.entries.Nodup :=
  List.Pairwise.of_map Prod.fst (fun _ _ h he => h (congrArg Prod.fst he)) t.nodup_keys

theorem sameEntries_iff [DecidableEq β] {s t : Table α β} :
    s.sameEntries t = true ↔ ∀ k, s.get? k = t.get? k := by
  simp only [sameEntries, Bool.and_eq_true, beq_iff_eq, List.all_eq_true, decide_eq_true_eq]
  constructor
  · rintro ⟨hs, hall⟩
    have hsub : s.entries ⊆ t.entries := fun e he => get?_eq_some_iff.1 (hall e he)
    have hsub' : t.entries ⊆ s.entries := by
      intro e he
      refine Decidable.byContradiction fun hn => ?_
      have := (List.nodup_cons.2 ⟨hn, s.nodup_entries⟩).length_le_of_subset
        (List.cons_subset.2 ⟨he, hsub⟩)
      simp only [size] at hs
      simp only [List.length_cons] at this
      omega
    intro k
    refine Option.ext fun v => ?_
    rw [get?_eq_some_iff, get?_eq_some_iff]
    exact ⟨fun h => hsub h, fun h => hsub' h⟩
  · intro h
    have hmem (e : α × β) : e ∈ s.entries ↔ e ∈ t.entries := by
      rw [← get?_eq_some_iff (k := e.1) (v := e.2), ← get?_eq_some_iff (k := e.1) (v := e.2), h]
    refine ⟨?_, fun e he => ?_⟩
    · have h1 := s.nodup_entries.length_le_of_subset fun e he => (hmem e).1 he
      have h2 := t.nodup_entries.length_le_of_subset fun e he => (hmem e).2 he
      exact Nat.le_antisymm h1 h2
    · rw [← h]
      exact get?_eq_some_iff.2 he

end Table

end SymbolRenaming
