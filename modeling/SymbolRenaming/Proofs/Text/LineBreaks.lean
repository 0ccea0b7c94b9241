/-
SymbolRenaming/Proofs/Text/LineBreaks.lean

How a sequence breaks into lines, and the lines of an encoded text.

Design.  Where lines break is said by a relation between a sequence and its lines: a line
reaches up to the next line feed, and one carriage return at its end belongs to the line
feed; what stands behind the last line feed is a line if it is not empty, and keeps its
carriage return (`BreaksInto`).  The function that cuts is this relation
(`splitLines_eq_iff`).

In UTF-8 a byte below 128 stands for one character and is part of no other
(`mem_utf8EncodeChar_iff`).  The line feed and the carriage return are such bytes, so that
the bytes of a text break where its characters do (`BreaksInto.encode`), and each line of
the bytes is the code of a line of the text.

Main result: `decodedLines_toUTF8`.
-/
import SymbolRenaming.Proofs.Text.Records

namespace SymbolRenaming.Text

/-! ### Lines as a relation -/

section Breaks

variable {α : Type} [DecidableEq α] {lf cr : α}

/-- A line without the one carriage return that may stand at its end. -/
def dropReturn (cr : α) (l : List α) : List α := if l.getLast? = some cr then l.dropLast else l

/-- A sequence and the lines into which it breaks. -/
inductive BreaksInto (lf cr : α) : List α → List (List α) → Prop
  /-- Nothing has no lines. -/
  | nothing : BreaksInto lf cr [] []
  /-- What stands behind the last line feed is a line as it is. -/
  | last {l : List α} : l ≠ [] → lf ∉ l → BreaksInto lf cr l [l]
  /-- A line feed ends a line, with a carriage return before it. -/
  | line {l rest : List α} {ls : List (List α)} : lf ∉ l → BreaksInto lf cr rest ls →
      BreaksInto lf cr (l ++ lf :: rest) (dropReturn cr l :: ls)

/-- A carriage return in front of a line feed is no part of the line. -/
theorem splitLines_append_return (hne : cr ≠ lf) {l : List α} (hlf : lf ∉ l) (rest : List α) :
    splitLines lf cr (l ++ cr :: lf :: rest) = l :: splitLines lf cr rest := by
  have hempty : splitLines lf cr ([] ++ lf :: rest) = [] :: splitLines lf cr rest :=
    splitLines_append (by simp) (by simp) rest
  rw [List.nil_append] at hempty
  induction l with
  | nil => simp [splitLines, hne, hempty]
  | cons a l ih =>
    simp only [List.mem_cons, not_or] at hlf
    -- the next character is one of the line, or the carriage return at its end
    rcases l with - | ⟨b, l⟩
    · simp [splitLines, Ne.symm hlf.1, hne, hempty, extendLine]
    · have hrest := ih hlf.2
      have hb : b ≠ lf := by
        rintro rfl
        exact hlf.2 (List.mem_cons_self ..)
      rw [List.cons_append] at hrest
      simp [splitLines, Ne.symm hlf.1, hb, hrest, extendLine]

theorem splitLines_append_dropReturn (hne : cr ≠ lf) {l : List α} (hlf : lf ∉ l)
    (rest : List α) :
    splitLines lf cr (l ++ lf :: rest) = dropReturn cr l :: splitLines lf cr rest := by
  rw [dropReturn]
  split
  · rename_i hlast
    obtain ⟨front, rfl⟩ := List.getLast?_eq_some_iff.1 hlast
    have hfront : lf ∉ front := fun hm => hlf (List.mem_append_left _ hm)
    rw [List.append_assoc, List.singleton_append, List.dropLast_concat,
      splitLines_append_return hne hfront]
  · rename_i hlast
    exact splitLines_append hlf hlast rest

theorem BreaksInto.splitLines_eq (hne : cr ≠ lf) {as : List α} {ls : List (List α)}
    (h : BreaksInto lf cr as ls) : splitLines lf cr as = ls := by
  induction h with
  | nothing => rfl
  | last hnil hlf => exact splitLines_eq_singleton hnil hlf
  | line hlf _ ih => rw [splitLines_append_dropReturn hne hlf, ih]

theorem breaksInto_splitLines (hne : cr ≠ lf) (as : List α) :
    BreaksInto lf cr as (splitLines lf cr as) := by
  by_cases hlf : lf ∈ as
  · -- the first line feed ends the first line
    obtain ⟨l, rest, has, hl⟩ := List.eq_append_cons_of_mem hlf
    have hshorter : rest.length < as.length := by
      rw [has, List.length_append, List.length_cons]
      omega
    have hrest := breaksInto_splitLines hne rest
    rw [has, splitLines_append_dropReturn hne hl]
    exact .line hl hrest
  · by_cases hnil : as = []
    · subst hnil
      exact .nothing
    · rw [splitLines_eq_singleton hnil hlf]
      exact .last hnil hlf
termination_by as.length

/-- The lines are those into which the sequence breaks. -/
theorem splitLines_eq_iff (hne : cr ≠ lf) {as : List α} {ls : List (List α)} :
    splitLines lf cr as = ls ↔ BreaksInto lf cr as ls := by
  constructor
  · rintro rfl
    exact breaksInto_splitLines hne as
  · intro h
    exact h.splitLines_eq hne

end Breaks

/-! ### Encoded characters -/

/-- The bytes of characters in UTF-8. -/
def encode (cs : List Char) : List UInt8 := cs.flatMap String.utf8EncodeChar

theorem encode_append (cs ds : List Char) : encode (cs ++ ds) = encode cs ++ encode ds :=
  List.flatMap_append

theorem encode_eq_nil_iff {cs : List Char} : encode cs = [] ↔ cs = [] := by
  rcases cs with - | ⟨c, cs⟩
  · simp [encode]
  · simp [encode]

/-- A byte below 128 is the code of the character with its number, and no part of the
code of another one. -/
theorem mem_utf8EncodeChar_iff {c : Char} {b : UInt8} (hb : b.toNat < 128) :
    b ∈ String.utf8EncodeChar c ↔ c.toNat = b.toNat := by
  have hval : c.val.toNat = c.toNat := rfl
  fun_cases String.utf8EncodeChar c with
  | case1 v h =>
    rw [List.mem_singleton, ← UInt8.toNat_inj]
    simp
    omega
  | case2 v h =>
    simp [← UInt8.toNat_inj]
    omega
  | case3 v h =>
    simp [← UInt8.toNat_inj]
    omega
  | case4 v h =>
    simp [← UInt8.toNat_inj]
    omega

theorem mem_encode_iff {cs : List Char} {d : Char} {b : UInt8} (hd : d.toNat = b.toNat)
    (hb : b.toNat < 128) : b ∈ encode cs ↔ d ∈ cs := by
  rw [encode, List.mem_flatMap]
  constructor
  · rintro ⟨c, hc, hm⟩
    have hcd : c.toNat = d.toNat := ((mem_utf8EncodeChar_iff hb).1 hm).trans hd.symm
    rwa [← Char.toNat_inj.1 hcd]
  · intro hc
    exact ⟨d, hc, (mem_utf8EncodeChar_iff hb).2 hd⟩

theorem encode_lineFeed : encode ['\n'] = [10] := rfl

theorem encode_return : encode ['\r'] = [13] := rfl

/-- The bytes of characters end in a carriage return only if the characters do. -/
theorem getLast?_of_getLast?_encode {cs : List Char} (h : (encode cs).getLast? = some 13) :
    cs.getLast? = some '\r' := by
  rcases cs.eq_nil_or_concat with rfl | ⟨front, c, rfl⟩
  · cases h
  · rw [List.concat_eq_append] at h ⊢
    -- the last byte is one of the code of the last character
    have hne : encode [c] ≠ [] := by simp [encode_eq_nil_iff]
    rw [encode_append, List.getLast?_append, List.getLast?_eq_some_getLast hne] at h
    have hm : 13 ∈ encode [c] := Option.some.inj h ▸ List.getLast_mem hne
    have hc : '\r' ∈ [c] := (mem_encode_iff rfl (by decide)).1 hm
    rw [List.getLast?_concat, ← List.mem_singleton.1 hc]

theorem dropReturn_encode (cs : List Char) :
    dropReturn 13 (encode cs) = encode (dropReturn '\r' cs) := by
  by_cases hlast : cs.getLast? = some '\r'
  · obtain ⟨front, rfl⟩ := List.getLast?_eq_some_iff.1 hlast
    simp [dropReturn, encode_append, encode_return]
  · have hencoded : (encode cs).getLast? ≠ some 13 := fun h => hlast (getLast?_of_getLast?_encode h)
    rw [dropReturn, dropReturn, if_neg hlast, if_neg hencoded]

/-- The bytes of a text break where the text does. -/
theorem BreaksInto.encode {cs : List Char} {ls : List (List Char)}
    (h : BreaksInto '\n' '\r' cs ls) : BreaksInto 10 13 (encode cs) (ls.map Text.encode) := by
  have hfeed : ∀ l : List Char, '\n' ∉ l → 10 ∉ Text.encode l :=
    fun l hl hm => hl ((mem_encode_iff rfl (by decide)).1 hm)
  induction h with
  | nothing => exact .nothing
  | last hnil hlf => exact .last (by rwa [ne_eq, encode_eq_nil_iff]) (hfeed _ hlf)
  | @line l rest ls hlf _ ih =>
    have hbytes : Text.encode (l ++ '\n' :: rest) = Text.encode l ++ 10 :: Text.encode rest := by
      rw [encode_append, ← List.singleton_append, encode_append, encode_lineFeed]
      rfl
    rw [hbytes, List.map_cons, ← dropReturn_encode]
    exact .line (hfeed l hlf) ih

theorem toList_eq_toList_data (bytes : ByteArray) : bytes.toList = bytes.data.toList := by
  have hloop : ∀ i r, ByteArray.toList.loop bytes i r = r.reverse ++ bytes.data.toList.drop i := by
    intro i r
    fun_induction ByteArray.toList.loop bytes i r with
    | case1 i r h ih =>
      have hi : i < bytes.data.toList.length := by simpa using h
      rw [ih, List.drop_eq_getElem_cons hi]
      simp [ByteArray.get!, h]
    | case2 i r h =>
      rw [List.drop_eq_nil_of_le (by simpa using Nat.le_of_not_lt h), List.append_nil]
  rw [ByteArray.toList, hloop]
  rfl

/-- The bytes of a text are the codes of its characters. -/
theorem toList_toUTF8 (s : String) : s.toUTF8.toList = encode s.toList := by
  have hdata : (String.ofList s.toList).toByteArray.data.toList = encode s.toList := by
    rw [String.toByteArray_ofList]
    exact List.toList_data_toByteArray
  rw [toList_eq_toList_data, String.toUTF8_eq_toByteArray, ← hdata, String.ofList_toList]

/-- The bytes of characters are read as these characters. -/
theorem fromUTF8?_encode (cs : List Char) :
    String.fromUTF8? ⟨(encode cs).toArray⟩ = some (.ofList cs) := by
  have hbytes : (⟨(encode cs).toArray⟩ : ByteArray) = (String.ofList cs).toByteArray := by
    rw [String.toByteArray_ofList]
    exact ByteArray.ext List.data_toByteArray.symm
  rw [hbytes, String.fromUTF8?, dif_pos (String.isValidUTF8 _)]
  rfl

/-- **The lines of an encoded text are the lines of the text.** -/
theorem decodedLines_toUTF8 (s : String) : decodedLines s.toUTF8.toList = (lines s).map some := by
  have hbreaks : splitLines 10 13 (encode s.toList)
      = (splitLines '\n' '\r' s.toList).map encode :=
    (breaksInto_splitLines (by decide) s.toList).encode.splitLines_eq (by decide)
  rw [toList_toUTF8, decodedLines, hbreaks, lines, List.map_map, List.map_map]
  exact List.map_congr_left fun l _ => fromUTF8?_encode l

end SymbolRenaming.Text
