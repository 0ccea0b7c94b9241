/-
SymbolRenaming/Proofs/Basic.lean

Results that may fail, and passes over lists, as far as no symbol, mapping or
format comes into it.

Design.  A computation that succeeds is taken apart from its end: each combinator
has an equivalence that says when its result is `.ok`, so that a whole chain of
them becomes a conjunction.  A search for what does not pass is the first failure
of a list (`IsFirstFailing`), and a pass that reads every element either reads them
all or stops at one that cannot be read.
-/
import Mathlib.Data.List.Forall2
import Mathlib.Data.List.TakeWhile

namespace SymbolRenaming

/-! ### Computations that succeed -/

section Success

variable {ε ε' α β : Type}

theorem bind_eq_ok_iff {x : Except ε α} {f : α → Except ε β} {b : β} :
    x >>= f = .ok b ↔ ∃ a, x = .ok a ∧ f a = .ok b := by
  cases x with
  | error e =>
    refine ⟨fun h => ?_, fun h => ?_⟩
    · cases h
    · obtain ⟨a, ha, -⟩ := h
      cases ha
  | ok a =>
    refine ⟨fun h => ⟨a, rfl, h⟩, fun h => ?_⟩
    obtain ⟨a', ha, h⟩ := h
    obtain rfl := Except.ok.inj ha
    exact h

theorem mapError_eq_ok_iff {f : ε → ε'} {x : Except ε α} {a : α} :
    x.mapError f = .ok a ↔ x = .ok a := by
  cases x with
  | error e =>
    refine ⟨fun h => ?_, fun h => ?_⟩
    · cases h
    · cases h
  | ok b =>
    refine ⟨fun h => ?_, fun h => ?_⟩
    · obtain rfl := Except.ok.inj h
      rfl
    · obtain rfl := Except.ok.inj h
      rfl

/-- A result that is paired with an empty list. -/
theorem map_pair_eq_ok_iff {x : Except ε α} {a : α} {bs : List β} :
    x.map (·, []) = .ok (a, bs) ↔ x = .ok a ∧ bs = [] := by
  cases x with
  | error e =>
    refine ⟨fun h => ?_, fun h => ?_⟩
    · cases h
    · cases h.1
  | ok t =>
    refine ⟨fun h => ?_, fun h => ?_⟩
    · obtain ⟨rfl, rfl⟩ := Prod.mk.inj (Except.ok.inj h)
      exact ⟨rfl, rfl⟩
    · obtain ⟨h, rfl⟩ := h
      obtain rfl := Except.ok.inj h
      rfl

end Success

/-! ### Passes over lists -/

section Passes

variable {α β : Type} {f : α → Option β} {xs : List α}

theorem mapM_eq_some_iff {ys : List β} :
    xs.mapM f = some ys ↔ List.Forall₂ (fun x y => f x = some y) xs ys := by
  induction xs generalizing ys with
  | nil => simp [eq_comm]
  | cons x xs ih =>
    simp only [List.mapM_cons, Option.bind_eq_bind, Option.bind_eq_some_iff, ih, Option.pure_def,
      Option.some.injEq, List.forall₂_cons_left_iff]
    constructor
    · rintro ⟨y, hy, zs, hzs, rfl⟩
      exact ⟨y, zs, hy, hzs, rfl⟩
    · rintro ⟨y, zs, hy, hzs, rfl⟩
      exact ⟨y, hy, zs, hzs, rfl⟩

theorem mapM_eq_none_iff : xs.mapM f = none ↔ ∃ x ∈ xs, f x = none := by
  induction xs with
  | nil => simp
  | cons x xs ih =>
    rcases hx : f x with - | y
    · simp [hx]
    · rcases hxs : xs.mapM f with - | ys
      · simp [List.mapM_cons, hx, hxs, ← ih]
      · simp [List.mapM_cons, hx, hxs, ← ih]

/-- All elements are there, or there is a first one that is missing. -/
theorem eq_map_some_or_append_none (os : List (Option α)) :
    (∃ as : List α, os = as.map some) ∨
      ∃ (as : List α) (rest : List (Option α)), os = as.map some ++ none :: rest := by
  induction os with
  | nil => exact Or.inl ⟨[], rfl⟩
  | cons o os ih =>
    rcases o with - | a
    · exact Or.inr ⟨[], os, rfl⟩
    · rcases ih with ⟨as, rfl⟩ | ⟨as, rest, rfl⟩
      · exact Or.inl ⟨a :: as, rfl⟩
      · exact Or.inr ⟨a :: as, rest, rfl⟩

/-- A pass that gives something for each element that does not pass. -/
theorem filterMap_eq_map_filter {p : α → Bool} {g : α → β} (xs : List α) :
    xs.filterMap (fun x => if p x then none else some (g x)) = (xs.filter fun x => !p x).map g := by
  induction xs with
  | nil => rfl
  | cons x xs ih =>
    rcases h : p x with - | -
    · simp [h, ih]
    · simp [h, ih]

end Passes

/-! ### The first failure -/

section First

variable {α : Type}

/-- An element that fails, behind elements that pass. -/
def IsFirstFailing (p : α → Prop) (es : List α) (e : α) : Prop :=
  ∃ front back, es = front ++ e :: back ∧ (∀ x ∈ front, p x) ∧ ¬ p e

/-- A search for what does not pass finds the first failure. -/
theorem find?_not_eq_some_iff {p : α → Bool} {es : List α} {e : α} :
    es.find? (fun x => !p x) = some e ↔ IsFirstFailing (p · = true) es e := by
  rw [List.find?_eq_some_iff_append]
  constructor
  · rintro ⟨he, front, back, rfl, hfront⟩
    refine ⟨front, back, rfl, fun x hx => ?_, ?_⟩
    · simpa using hfront x hx
    · simpa using he
  · rintro ⟨front, back, rfl, hfront, he⟩
    refine ⟨by simpa using he, front, back, rfl, fun x hx => ?_⟩
    simpa using hfront x hx

theorem find?_not_eq_none_iff {p : α → Bool} {es : List α} :
    es.find? (fun x => !p x) = none ↔ ∀ e ∈ es, p e = true := by
  simp [List.find?_eq_none]

end First

/-! ### Cutting and joining lists -/

section Lists

variable {α : Type}

theorem mem_dropWhile_of_mem {p : α → Bool} {a : α} {as : List α} (ha : a ∈ as)
    (hp : p a = false) : a ∈ as.dropWhile p := by
  rw [← List.takeWhile_append_dropWhile (p := p) (l := as), List.mem_append] at ha
  refine ha.resolve_left fun htake => ?_
  rw [List.mem_takeWhile_imp htake] at hp
  cases hp

/-- One more segment behind the others. -/
theorem intercalate_concat {sep : α} {segments : List (List α)} (hne : segments ≠ [])
    (last : List α) :
    [sep].intercalate (segments ++ [last]) = [sep].intercalate segments ++ sep :: last := by
  induction segments with
  | nil => exact absurd rfl hne
  | cons segment rest ih =>
    rcases rest with - | ⟨next, rest⟩
    · simp
    · simp only [List.cons_append, List.intercalate_cons_cons, List.append_assoc] at ih ⊢
      rw [ih (List.cons_ne_nil _ _)]

end Lists

end SymbolRenaming
