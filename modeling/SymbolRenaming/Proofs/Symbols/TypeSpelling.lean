/-
SymbolRenaming/Proofs/Symbols/TypeSpelling.lean

Types and their two spellings.

Design.  The reader of a spelling is described by what it gives: a type is read from
a text exactly if the text is the spelling of the type, and the type is one of those
that can be read.  By their shape these are the elements and the arrays over an element
of one to 255 layers (`IsArrayType`), and void too where the descriptor spelling is read.
In the internal spelling a class is its bare name, so that primitives have no place there.

The descriptor spelling tells all types apart, also those that no text is read as.  Its
first character tells the kind of a type, and the rest is a type again or, but for the
mark at its end, a name.

Main result: `spellings_exact`.
-/
import SymbolRenaming.Proofs.Symbols.Spelling

namespace SymbolRenaming

/-- The code of a primitive type opens neither an array nor a class. -/
theorem Primitive.code_ne_mark (p : Primitive) : p.code ≠ '[' ∧ p.code ≠ 'L' := by
  cases p <;> decide

namespace VmType

/-! ### What can be read -/

/-- An array that a value can have: one to 255 layers over an element. -/
def IsArrayType (t : VmType) : Prop :=
  ∃ layers element, 1 ≤ layers ∧ layers ≤ 255 ∧ IsElement element ∧ t = arrayOf layers element

theorem isValueType_iff {t : VmType} : t.IsValueType ↔ t.IsElement ∨ t.IsArrayType := by
  constructor
  · rintro ⟨layers, element, hle, helement, rfl⟩
    rcases layers with - | layers
    · exact Or.inl helement
    · exact Or.inr ⟨layers + 1, element, Nat.succ_pos layers, hle, helement, rfl⟩
  · rintro (helement | ⟨layers, element, -, hle, helement, rfl⟩)
    · exact ⟨0, t, Nat.zero_le _, helement, rfl⟩
    · exact ⟨layers, element, hle, helement, rfl⟩

theorem IsArrayType.ne_primitive {t : VmType} (h : t.IsArrayType) (p : Primitive) :
    t ≠ .primitive p := by
  obtain ⟨layers, element, hpos, -, -, rfl⟩ := h
  obtain ⟨n, rfl⟩ := Nat.exists_eq_add_of_le' hpos
  intro he
  cases he

/-- The descriptor spelling is read exactly for void and the types of values. -/
theorem ofDescriptor_eq_ok_iff {s : String} {t : VmType} :
    ofDescriptor s = .ok t ↔
      t.descriptor = s ∧ (t = .primitive .void ∨ t.IsElement ∨ t.IsArrayType) := by
  have hread : ofDescriptor s = .ok t ↔ readWhole? true s.toList = some t := by
    rw [ofDescriptor]
    rcases readWhole? true s.toList with - | u
    · simp
    · simp
  have hspelled : s.toList = t.descriptorChars ↔ t.descriptor = s := by
    rw [descriptor, eq_comm, ← String.toList_inj, String.toList_ofList]
  rw [hread, readWhole?_eq_some_iff, hspelled, readable_iff, isValueType_iff, and_comm,
    or_comm]
  simp

/-- The internal spelling is read exactly for classes and arrays. -/
theorem ofInternalName_eq_ok_iff_isArrayType {s : String} {t : VmType} :
    ofInternalName s = .ok t ↔ t.internalName = s ∧
      ((∃ c : ClassName, c.isWellFormed = true ∧ t = .reference c) ∨ t.IsArrayType) := by
  have hshape : (t.Readable false ∧ ∀ p, t ≠ .primitive p) ↔
      (∃ c : ClassName, c.isWellFormed = true ∧ t = .reference c) ∨ t.IsArrayType := by
    have hvalue : t.Readable false ↔ t.IsElement ∨ t.IsArrayType := by
      rw [readable_iff, isValueType_iff]
      simp
    rw [hvalue]
    constructor
    · rintro ⟨helement | harray, hne⟩
      · cases helement with
        | primitive hp => exact absurd rfl (hne _)
        | reference hc => exact Or.inl ⟨_, hc, rfl⟩
      · exact Or.inr harray
    · rintro (⟨c, hc, rfl⟩ | harray)
      · exact ⟨Or.inl (.reference hc), fun p => by simp⟩
      · exact ⟨Or.inr harray, harray.ne_primitive⟩
  rw [ofInternalName_eq_ok_iff, hshape, eq_comm]

/-! ### Types without a common spelling -/

theorem descriptorChars_inj {t u : VmType} : t.descriptorChars = u.descriptorChars ↔ t = u := by
  refine ⟨fun h => ?_, fun h => h ▸ rfl⟩
  induction t generalizing u with
  | primitive p =>
    cases u with
    | primitive q =>
      have hcode : Primitive.ofCode? p.code = Primitive.ofCode? q.code :=
        congrArg Primitive.ofCode? (List.cons.inj h).1
      rw [Primitive.ofCode?_code, Primitive.ofCode?_code] at hcode
      rw [Option.some.inj hcode]
    | array u => exact absurd (List.cons.inj h).1 p.code_ne_mark.1
    | reference d => exact absurd (List.cons.inj h).1 p.code_ne_mark.2
  | array t ih =>
    cases u with
    | primitive q => exact absurd (List.cons.inj h).1.symm q.code_ne_mark.1
    | array u => rw [ih (List.cons.inj h).2]
    | reference d => exact absurd (List.cons.inj h).1 (by decide)
  | reference c =>
    cases u with
    | primitive q => exact absurd (List.cons.inj h).1.symm q.code_ne_mark.2
    | array u => exact absurd (List.cons.inj h).1 (by decide)
    | reference d =>
      -- the mark at the end is the last character, whatever the name holds
      have hchars : c.chars = d.chars := List.append_cancel_right (List.cons.inj h).2
      have htext : c.text = d.text := String.toList_inj.1 hchars
      obtain ⟨c⟩ := c
      obtain ⟨d⟩ := d
      rw [show c = d from htext]

/-- **Types and spellings.**  Each of the two spellings is read exactly as the types that
have a place in it, each from its own spelling, and two types with the same descriptor
spelling are the same type, whatever the names of their classes are. -/
theorem spellings_exact :
    (∀ s t, ofDescriptor s = .ok t ↔
      t.descriptor = s ∧ (t = .primitive .void ∨ t.IsElement ∨ t.IsArrayType)) ∧
    (∀ s t, ofInternalName s = .ok t ↔ t.internalName = s ∧
      ((∃ c : ClassName, c.isWellFormed = true ∧ t = .reference c) ∨ t.IsArrayType)) ∧
    ∀ t u : VmType, t = u ↔ t.descriptor = u.descriptor := by
  refine ⟨fun s t => ofDescriptor_eq_ok_iff, fun s t => ofInternalName_eq_ok_iff_isArrayType, ?_⟩
  intro t u
  rw [descriptor, descriptor, String.ofList_inj, descriptorChars_inj]

end VmType

end SymbolRenaming
