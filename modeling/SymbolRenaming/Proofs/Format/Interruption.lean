/-
SymbolRenaming/Proofs/Format/Interruption.lean

What a place holds when writing to it was broken off.

Design.  A sink is followed by a second one that notes every character it is offered
and whether it was taken (`Sink.logged`); the run is the same.  For a sink that takes
the first characters of a text and refuses the next one, the log of writing the text
is known (`Sink.offers`): nothing stands behind the refusal, whatever the sink would
take by then.  Writing mappings, piece by piece in records and sections, is writing
their text, so the log is the same.

A buffer is a place for bytes that keeps what it takes, and takes something unless it
is full (`ByteSink.IsBuffer`).  How many bytes it takes at once is left open; each
offer makes the rest shorter and leaves as much less room, so the bytes that are kept
in the end depend on the room alone (`ByteSink.IsBuffer.writeAll`).

Main results: `interrupted_write_leaves_front`, and what a buffer of a given size holds
(`writeBytes_eq`).
-/
import SymbolRenaming.Format.Codec

namespace SymbolRenaming

/-! ### Sinks that refuse a character -/

namespace Sink

variable {σ : Type} {k : Sink σ}

/-- The sink takes the first `n` characters of a text and refuses the one behind them,
if there is one.  What it would do after that is left open. -/
def StopsAfter (k : Sink σ) : Nat → σ → List Char → Prop
  | _, _, [] => True
  | 0, s, c :: _ => (k.offer s c).2 = false
  | n + 1, s, c :: cs => (k.offer s c).2 = true ∧ k.StopsAfter n (k.offer s c).1 cs

/-- What a sink was offered, in order, and whether it was taken. -/
abbrev Log := List (Char × Bool)

/-- The characters that were taken. -/
def Log.taken (log : Log) : List Char := (log.filter Prod.snd).map Prod.fst

/-- The same sink, with a log of what it is offered. -/
def logged (k : Sink σ) : Sink (σ × Log) where
  offer s c := (((k.offer s.1 c).1, s.2 ++ [(c, (k.offer s.1 c).2)]), (k.offer s.1 c).2)

/-- The first `n` characters of a text, all taken, and the refused one behind them. -/
def offers (n : Nat) (text : List Char) : Log :=
  (text.take n).map (·, true) ++ text[n]?.toList.map (·, false)

theorem taken_offers (n : Nat) (text : List Char) : (offers n text).taken = text.take n := by
  have htaken : ((text.take n).map (·, true)).filter Prod.snd = (text.take n).map (·, true) := by
    rw [List.filter_eq_self]
    intro offer hoffer
    obtain ⟨c, -, rfl⟩ := List.mem_map.1 hoffer
    rfl
  have hrefused : (text[n]?.toList.map (·, false)).filter Prod.snd = [] := by
    rw [List.filter_eq_nil_iff]
    intro offer hoffer
    obtain ⟨c, -, rfl⟩ := List.mem_map.1 hoffer
    exact Bool.false_ne_true
  rw [Log.taken, offers, List.filter_append, htaken, hrefused, List.append_nil, List.map_map]
  exact List.map_id _

theorem offer_logged (k : Sink σ) (s : σ) (log : Log) (c : Char) :
    k.logged.offer (s, log) c
      = (((k.offer s c).1, log ++ [(c, (k.offer s c).2)]), (k.offer s c).2) := rfl

/-- A log changes nothing. -/
theorem write_logged (k : Sink σ) (s : σ) (log : Log) (cs : List Char) :
    (k.logged.write (s, log) cs).1.1 = (k.write s cs).1 ∧
      (k.logged.write (s, log) cs).2 = (k.write s cs).2 := by
  induction cs generalizing s log with
  | nil => exact ⟨rfl, rfl⟩
  | cons c cs ih =>
    have hlogged : (k.logged.offer (s, log) c).2 = (k.offer s c).2 := rfl
    rcases h : (k.offer s c).2 with - | -
    · rw [write_cons_of_refused h, write_cons_of_refused (hlogged.trans h)]
      exact ⟨rfl, rfl⟩
    · rw [write_cons_of_taken h, write_cons_of_taken (hlogged.trans h)]
      exact ih _ _

/-- The log of writing to a sink that stops. -/
theorem log_write_logged {n : Nat} {s : σ} {cs : List Char} (h : k.StopsAfter n s cs) (log : Log) :
    (k.logged.write (s, log) cs).1.2 = log ++ offers n cs := by
  induction cs generalizing n s log with
  | nil => simp [write, offers]
  | cons c cs ih =>
    have hlogged : (k.logged.offer (s, log) c).2 = (k.offer s c).2 := rfl
    cases n with
    | zero =>
      -- the refusal is the last offer, however much text is left
      have hrefused : (k.offer s c).2 = false := h
      rw [write_cons_of_refused (hlogged.trans hrefused), offer_logged, hrefused]
      rfl
    | succ n =>
      obtain ⟨htaken, hrest⟩ := h
      rw [write_cons_of_taken (hlogged.trans htaken), offer_logged, htaken, ih hrest,
        List.append_assoc]
      rfl

/-- Writing to a sink that stops fails exactly if the text is longer. -/
theorem write_eq_false_iff {n : Nat} {s : σ} {cs : List Char} (h : k.StopsAfter n s cs) :
    (k.write s cs).2 = false ↔ n < cs.length := by
  induction cs generalizing n s with
  | nil => simp [write]
  | cons c cs ih =>
    cases n with
    | zero =>
      have hrefused : (k.offer s c).2 = false := h
      rw [write_cons_of_refused hrefused]
      simp
    | succ n =>
      obtain ⟨htaken, hrest⟩ := h
      rw [write_cons_of_taken htaken, List.length_cons, Nat.succ_lt_succ_iff]
      exact ih hrest

end Sink

/-! ### Buffers -/

namespace ByteSink

variable {σ : Type} {k : ByteSink σ} {held : σ → List UInt8} {room : σ → Nat}

/-- A place for bytes that keeps what it takes, for as long as it has room, and takes
something of what it is offered unless it is full. -/
structure IsBuffer (k : ByteSink σ) (held : σ → List UInt8) (room : σ → Nat) : Prop where
  held_offer : ∀ s bytes, held (k.offer s bytes).1 = held s ++ bytes.take (k.offer s bytes).2
  room_offer : ∀ s bytes, room (k.offer s bytes).1 + (k.offer s bytes).2 = room s
  le_length : ∀ s bytes, (k.offer s bytes).2 ≤ bytes.length
  room_eq_zero : ∀ s b bytes, (k.offer s (b :: bytes)).2 = 0 → room s = 0

theorem isBuffer_limited : limited.IsBuffer Limited.held Limited.room where
  held_offer s bytes := by
    show s.held ++ bytes.take s.room = s.held ++ bytes.take (min bytes.length s.room)
    rw [Nat.min_comm, ← List.take_eq_take_min]
  room_offer s bytes := by
    show s.room - bytes.length + min bytes.length s.room = s.room
    omega
  le_length s bytes := Nat.min_le_left _ _
  room_eq_zero s b bytes h := by
    have hmin : min (bytes.length + 1) s.room = 0 := h
    omega

/-- A buffer keeps the bytes for which there is room, and writing fails exactly if
there are more. -/
theorem IsBuffer.writeAll (h : k.IsBuffer held room) (s : σ) (bytes : List UInt8) :
    held (k.writeAll s bytes).1 = held s ++ bytes.take (room s) ∧
      (k.writeAll s bytes).2 = if room s < bytes.length then some .bufferFull else none := by
  fun_induction ByteSink.writeAll k s bytes with
  | case1 s =>
    rw [List.take_nil, List.append_nil]
    exact ⟨rfl, rfl⟩
  | case2 s b bytes next e =>
    -- nothing is taken, so the buffer is full
    have hheld := h.held_offer s (b :: bytes)
    have hroom := h.room_eq_zero s b bytes
    rw [e] at hheld hroom
    rw [hheld, hroom rfl]
    exact ⟨rfl, rfl⟩
  | case3 s b bytes next n e ih =>
    -- what is taken now makes the rest shorter and leaves as much less room for it
    have hheld := h.held_offer s (b :: bytes)
    have hroom := h.room_offer s (b :: bytes)
    have hlength := h.le_length s (b :: bytes)
    rw [e] at hheld hroom hlength
    obtain ⟨hkept, hfailure⟩ := ih
    rw [hkept, hfailure, hheld, ← hroom, List.length_drop]
    constructor
    · rw [Nat.add_comm (room next), List.take_add, List.append_assoc]
      rfl
    · have hlonger : room next < bytes.length - n ↔ room next + (n + 1) < (b :: bytes).length := by
        rw [List.length_cons] at hlength ⊢
        omega
      simp only [hlonger]

end ByteSink

/-! ### Writing that is broken off -/

namespace Format

open Sink

section Buffer

variable (f : Format) (r : Renaming)

/-- An empty buffer keeps the bytes of the text for which it has room, and writing fails
exactly if there are more. -/
theorem writeIo_of_isBuffer {σ : Type} {k : ByteSink σ} {held : σ → List UInt8} {room : σ → Nat}
    {s : σ} (h : k.IsBuffer held room) (hempty : held s = []) :
    held (f.writeIo r k s).1 = (f.render r).toUTF8.toList.take (room s) ∧
      (f.writeIo r k s).2
        = if room s < (f.render r).toUTF8.toList.length then some .bufferFull else none := by
  obtain ⟨hheld, hfailure⟩ := h.writeAll s (f.render r).toUTF8.toList
  rw [hempty, List.nil_append] at hheld
  exact ⟨hheld, hfailure⟩

/-- So a buffer of a number of bytes holds as many bytes of the text. -/
theorem writeBytes_eq (capacity : Nat) :
    f.writeBytes r capacity = ((f.render r).toUTF8.toList.take capacity,
      if capacity < (f.render r).toUTF8.toList.length then some .bufferFull else none) := by
  obtain ⟨hheld, hfailure⟩ := f.writeIo_of_isBuffer r ByteSink.isBuffer_limited
    (rfl : ByteSink.Limited.held ⟨capacity, []⟩ = [])
  exact Prod.ext hheld hfailure

end Buffer

/-- **What is left of a write that is broken off.**  A sink that takes the first `n`
characters of the text of mappings and refuses the next one has taken just these in the
end, and is offered nothing more, so no record is written behind the refusal; the write
fails exactly if the text is longer.  A buffer keeps the bytes of the text for which it
has room, and the write fails exactly if there are more. -/
theorem interrupted_write_leaves_front (f : Format) (r : Renaming) :
    (∀ {σ : Type} (k : Sink σ) (s : σ) (n : Nat), k.StopsAfter n s (f.render r).toList →
      ((f.writeTo r k s).2 = false ↔ n < (f.render r).toList.length) ∧
      ∃ log : Log,
        f.writeTo r k.logged (s, []) = (((f.writeTo r k s).1, log), (f.writeTo r k s).2) ∧
        log.taken = (f.render r).toList.take n ∧ log = offers n (f.render r).toList) ∧
    ∀ {σ : Type} (k : ByteSink σ) (held : σ → List UInt8) (room : σ → Nat) (s : σ),
      k.IsBuffer held room → held s = [] →
      held (f.writeIo r k s).1 = (f.render r).toUTF8.toList.take (room s) ∧
      (f.writeIo r k s).2
        = if room s < (f.render r).toUTF8.toList.length then some .bufferFull else none := by
  constructor
  · intro σ k s n h
    -- the sections with their records and pieces are the text, also with a log
    have hchars : f.renderChars r = (f.render r).toList := String.toList_ofList.symm
    rw [writeTo_eq_write, writeTo_eq_write, hchars]
    refine ⟨write_eq_false_iff h, _, ?_, taken_offers n _, rfl⟩
    obtain ⟨hstate, htaken⟩ := write_logged k s [] (f.render r).toList
    have hlog := log_write_logged h []
    rw [List.nil_append] at hlog
    rw [← hstate, ← htaken, ← hlog]
  · intro σ k held room s h hempty
    exact f.writeIo_of_isBuffer r h hempty

/-- A class and a field, both renamed. -/
def twoRecords : Frozen := .ofNames [(⟨"a"⟩, ⟨"b"⟩)] [] [(⟨⟨"a"⟩, "f"⟩, "g")]

/-- A sink that refuses one character and takes all before and all behind it. -/
def refusingOnce (n : Nat) : Sink (Nat × List Char) where
  offer s c := ((s.1 + 1, if s.1 = n then s.2 else s.2 ++ [c]), s.1 != n)

theorem stopsAfter_refusingOnce {n i m : Nat} (h : i + m = n) (taken cs : List Char) :
    (refusingOnce n).StopsAfter m (i, taken) cs := by
  induction cs generalizing i m taken with
  | nil => cases m <;> trivial
  | cons c cs ih =>
    cases m with
    | zero =>
      show (i != n) = false
      rw [bne_eq_false_iff_eq]
      exact h
    | succ m =>
      refine ⟨?_, ih ?_ _⟩
      · show (i != n) = true
        rw [bne_iff_ne]
        omega
      · show i + 1 + m = n
        omega

theorem interrupted_write_leaves_front_twoRecords :
    ((refusingOnce 14).StopsAfter 14 (0, []) (tagged.render twoRecords.contract).toList ∧
      (tagged.writeTo twoRecords.contract (refusingOnce 14) (0, [])).2 = false ∧
      (tagged.writeTo twoRecords.contract (refusingOnce 14).logged ((0, []), [])).1.2.taken
        = "CL: a b\nFD: a/".toList) ∧
    ByteSink.limited.IsBuffer ByteSink.Limited.held ByteSink.Limited.room ∧
      (tagged.writeIo twoRecords.contract ByteSink.limited ⟨14, []⟩).1.held
        = "CL: a b\nFD: a/".toUTF8.toList ∧
      (tagged.writeIo twoRecords.contract ByteSink.limited ⟨14, []⟩).2 = some .bufferFull := by
  obtain ⟨hsink, hbuffer⟩ := interrupted_write_leaves_front tagged twoRecords.contract
  have hstops :
      (refusingOnce 14).StopsAfter 14 (0, []) (tagged.render twoRecords.contract).toList :=
    stopsAfter_refusingOnce (Nat.zero_add 14) [] _
  obtain ⟨hfails, log, hrun, htaken, -⟩ := hsink (refusingOnce 14) (0, []) 14 hstops
  obtain ⟨hheld, hfull⟩ := hbuffer ByteSink.limited ByteSink.Limited.held ByteSink.Limited.room
    ⟨14, []⟩ ByteSink.isBuffer_limited rfl
  have hlonger : 14 < (tagged.render twoRecords.contract).toList.length := by
    decide +kernel
  refine ⟨⟨hstops, hfails.2 hlonger, ?_⟩, ByteSink.isBuffer_limited, ?_, ?_⟩
  · rw [hrun]
    refine htaken.trans ?_
    decide +kernel
  · refine hheld.trans ?_
    decide +kernel
  · refine hfull.trans ?_
    decide +kernel

end Format

end SymbolRenaming
