/-
SymbolRenaming/Format/Sink.lean

Places to write to that may refuse what they are offered.

Design.  A sink is offered characters one by one, and takes or refuses each;
after a refusal it may be in any state, even one in which it would take more.
A record is written in pieces and stops at the first refusal.  All records of a
section are visited, since a listing cannot be stopped; the first refusal is
remembered, and no record behind it is written.  One sink is given, which takes
a number of lines.

A place for bytes is offered many bytes at once and takes some of those at the
front.  What is left is offered again, until nothing is left or nothing is taken.

Main result: writing sections of records in pieces is writing their
concatenation (`writeSections_eq_write`).
-/
import SymbolRenaming.IoFailure

namespace SymbolRenaming

/-! ### Characters -/

/-- How a place to write to takes characters: its next state, and whether the
character was taken. -/
structure Sink (σ : Type) where
  offer : σ → Char → σ × Bool

namespace Sink

variable {σ : Type}

/-- Writes characters up to the first refusal. -/
def write (k : Sink σ) (s : σ) : List Char → σ × Bool
  | [] => (s, true)
  | c :: cs =>
    match k.offer s c with
    | (next, true) => k.write next cs
    | (next, false) => (next, false)

/-- Writes the pieces of a record up to the first refusal. -/
def writePieces (k : Sink σ) (s : σ) : List String → σ × Bool
  | [] => (s, true)
  | piece :: rest =>
    match k.write s piece.toList with
    | (next, true) => k.writePieces next rest
    | (next, false) => (next, false)

/-- Visits all records, and writes each one unless an earlier one was refused. -/
def writeAll (k : Sink σ) (s : σ) (records : List (List String)) : σ × Bool :=
  records.foldl (fun state record => if state.2 then k.writePieces state.1 record else state)
    (s, true)

/-- Writes sections of records; a section after a refusal is not visited. -/
def writeSections (k : Sink σ) (s : σ) : List (List (List String)) → σ × Bool
  | [] => (s, true)
  | records :: rest =>
    match k.writeAll s records with
    | (next, true) => k.writeSections next rest
    | (next, false) => (next, false)

/-! ### A sink with a limit -/

/-- What a sink with a limit holds: how much more it takes, and what it took. -/
structure Limited where
  remaining : Nat
  taken : List Char := []

/-- Takes a number of complete lines and refuses the first character after them. -/
def lineLimited : Sink Limited where
  offer s c :=
    if s.remaining = 0 then (s, false)
    else (⟨if c = '\n' then s.remaining - 1 else s.remaining, s.taken ++ [c]⟩, true)

/-! ### Small facts -/

section Steps

variable {k : Sink σ} {s : σ} {c : Char}

theorem write_cons_of_taken (h : (k.offer s c).2 = true) (cs : List Char) :
    k.write s (c :: cs) = k.write (k.offer s c).1 cs := by
  rcases e : k.offer s c with ⟨next, taken⟩
  rw [e] at h
  obtain rfl : taken = true := h
  simp only [write, e]

theorem write_cons_of_refused (h : (k.offer s c).2 = false) (cs : List Char) :
    k.write s (c :: cs) = ((k.offer s c).1, false) := by
  rcases e : k.offer s c with ⟨next, taken⟩
  rw [e] at h
  obtain rfl : taken = false := h
  simp only [write, e]

end Steps

theorem write_append (k : Sink σ) (s : σ) (xs ys : List Char) :
    k.write s (xs ++ ys)
      = if (k.write s xs).2 then k.write (k.write s xs).1 ys else k.write s xs := by
  induction xs generalizing s with
  | nil => rfl
  | cons x xs ih =>
    rcases h : (k.offer s x).2 with - | -
    · rw [List.cons_append, write_cons_of_refused h, write_cons_of_refused h]
      rfl
    · rw [List.cons_append, write_cons_of_taken h, write_cons_of_taken h]
      exact ih _

/-- Writing piece after piece is writing their concatenation. -/
theorem writePieces_eq_write (k : Sink σ) (s : σ) (pieces : List String) :
    k.writePieces s pieces = k.write s (pieces.flatMap String.toList) := by
  induction pieces generalizing s with
  | nil => rfl
  | cons piece rest ih =>
    rw [List.flatMap_cons, write_append, writePieces]
    rcases e : k.write s piece.toList with ⟨next, taken⟩
    rcases taken with - | -
    · rfl
    · exact ih next

theorem foldl_write_of_refused (k : Sink σ) (s : σ) (records : List (List String)) :
    records.foldl (fun state record => if state.2 then k.writePieces state.1 record else state)
      (s, false) = (s, false) := by
  induction records with
  | nil => rfl
  | cons r rs ih => simpa using ih

/-- Writing record after record is writing their concatenation: the records behind
a refusal are visited and left out. -/
theorem writeAll_eq_write (k : Sink σ) (s : σ) (records : List (List String)) :
    k.writeAll s records = k.write s (records.flatten.flatMap String.toList) := by
  induction records generalizing s with
  | nil => rfl
  | cons r rs ih =>
    rw [List.flatten_cons, List.flatMap_append, write_append, ← writePieces_eq_write]
    rcases e : k.writePieces s r with ⟨next, taken⟩
    rcases taken with - | -
    · simp only [writeAll, List.foldl_cons, ite_true, e]
      exact foldl_write_of_refused k next rs
    · have hrest := ih next
      simp only [writeAll] at hrest
      simpa [writeAll, e] using hrest

/-- Writing section after section is writing their concatenation. -/
theorem writeSections_eq_write (k : Sink σ) (s : σ) (sections : List (List (List String))) :
    k.writeSections s sections
      = k.write s (sections.flatten.flatten.flatMap String.toList) := by
  induction sections generalizing s with
  | nil => rfl
  | cons records rest ih =>
    rw [List.flatten_cons, List.flatten_append, List.flatMap_append, write_append, writeSections,
      writeAll_eq_write]
    rcases e : k.write s (records.flatten.flatMap String.toList) with ⟨next, taken⟩
    rcases taken with - | -
    · rfl
    · exact ih next

end Sink

/-! ### Bytes -/

/-- How a place for bytes takes them: its next state, and how many of the bytes at
the front of what it was offered were taken. -/
structure ByteSink (σ : Type) where
  offer : σ → List UInt8 → σ × Nat

namespace ByteSink

/-- Writes bytes: what was not taken is offered again, and writing fails when
nothing was taken. -/
def writeAll {σ : Type} (k : ByteSink σ) (s : σ) : List UInt8 → σ × Option IoFailure
  | [] => (s, none)
  | b :: bytes =>
    match k.offer s (b :: bytes) with
    | (next, 0) => (next, some .bufferFull)
    | (next, n + 1) => k.writeAll next (bytes.drop n)
  termination_by bytes => bytes.length
  decreasing_by
    rw [List.length_drop, List.length_cons]
    exact Nat.lt_succ_of_le (Nat.sub_le _ _)

/-- What a buffer of limited size holds: for how many more bytes there is room, and
those that it keeps. -/
structure Limited where
  room : Nat
  held : List UInt8 := []

/-- Keeps all bytes for which there is room. -/
def limited : ByteSink Limited where
  offer s bytes := (⟨s.room - bytes.length, s.held ++ bytes.take s.room⟩, min bytes.length s.room)

end ByteSink

end SymbolRenaming
