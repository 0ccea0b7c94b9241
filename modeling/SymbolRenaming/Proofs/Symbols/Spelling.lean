/-
SymbolRenaming/Proofs/Symbols/Spelling.lean

Descriptors and their spellings.

Design.  Which descriptors have a spelling of their own is said here by their
shape, without the reader: a parameter is a primitive other than void or a
well-formed class below at most 255 array layers, and the result is such a type
or plain void (`IsWellFormed`).  These are the readable descriptors
(`readable_iff`), so the equivalence that describes the reader carries over: on
well-formed descriptors reading undoes spelling, two of them never share a
spelling, and a text that is no such spelling is refused and told back.

Main result: `parse_inverts_text`.
-/
import SymbolRenaming.Proofs.Symbols.Reading

namespace SymbolRenaming

namespace VmType

/-- A type below the array layers: a primitive other than void, or a
well-formed class. -/
inductive IsElement : VmType → Prop
  | primitive {p : Primitive} : p ≠ .void → IsElement (.primitive p)
  | reference {c : ClassName} : c.isWellFormed = true → IsElement (.reference c)

/-- A type that a value can have: an element below at most 255 array layers. -/
def IsValueType (t : VmType) : Prop :=
  ∃ layers element, layers ≤ 255 ∧ IsElement element ∧ t = arrayOf layers element

/-- Where void is welcome, it is the one readable type that no value has. -/
theorem readable_iff {v : Bool} {t : VmType} :
    t.Readable v ↔ t.IsValueType ∨ v = true ∧ t = .primitive .void := by
  constructor
  · intro h
    have helement : t.base.IsElement ∨ (v && t.depth == 0) = true ∧ t.base = .primitive .void := by
      have hbase := h.base
      revert hbase
      cases t.base with
      | primitive p =>
        intro hp
        by_cases hvoid : p = .void
        · exact Or.inr ⟨hp hvoid, by rw [hvoid]⟩
        · exact Or.inl (.primitive hvoid)
      | array t => exact fun hp => hp.elim
      | reference c => exact fun hc => Or.inl (.reference hc)
    rcases helement with helement | ⟨hv, hvoid⟩
    · exact Or.inl ⟨t.depth, t.base, h.depth_le, helement, (arrayOf_depth_base t).symm⟩
    · -- void is welcome without array layers only
      rw [Bool.and_eq_true, beq_iff_eq] at hv
      refine Or.inr ⟨hv.1, ?_⟩
      rw [← arrayOf_depth_base t, hv.2, hvoid]
      rfl
  · rintro (⟨layers, element, hle, helement, rfl⟩ | ⟨rfl, rfl⟩)
    · cases helement with
      | primitive hp =>
        refine ⟨?_, ?_⟩
        · rw [depth_arrayOf]
          exact hle
        · rw [base_arrayOf]
          exact fun hvoid => absurd hvoid hp
      | reference hc =>
        refine ⟨?_, ?_⟩
        · rw [depth_arrayOf]
          exact hle
        · rw [base_arrayOf]
          exact hc
    · exact ⟨Nat.zero_le _, fun _ => rfl⟩

end VmType

namespace Descriptor

/-- A descriptor of values, with a value or nothing as its result. -/
structure IsWellFormed (d : Descriptor) : Prop where
  params : ∀ t ∈ d.params, t.IsValueType
  result : d.result.IsValueType ∨ d.result = .primitive .void

theorem readable_iff {d : Descriptor} : d.Readable ↔ d.IsWellFormed := by
  have hparam : ∀ t : VmType, t.Readable false ↔ t.IsValueType := by
    intro t
    rw [VmType.readable_iff]
    simp
  have hresult : d.result.Readable true ↔
      d.result.IsValueType ∨ d.result = .primitive .void := by
    rw [VmType.readable_iff]
    simp
  constructor
  · intro h
    exact ⟨fun t ht => (hparam t).1 (h.params t ht), hresult.1 h.result⟩
  · intro h
    exact ⟨fun t ht => (hparam t).2 (h.params t ht), hresult.2 h.result⟩

/-- A text is read as a descriptor exactly if it is the spelling of that
descriptor, and the descriptor is well formed. -/
theorem parse_eq_ok_iff_isWellFormed {s : String} {d : Descriptor} :
    parse s = .ok d ↔ d.text = s ∧ d.IsWellFormed := by
  rw [parse_eq_ok_iff, readable_iff, and_comm, eq_comm]

theorem parse_eq_error_of_forall_ne {s : String} (h : ∀ d, parse s ≠ .ok d) :
    parse s = .error (.malformedDescriptor s) := by
  rw [parse] at h ⊢
  rcases e : read? s.toList with - | d
  · rfl
  · refine absurd ?_ (h d)
    rw [e]

/-- **Reading and spelling.**  Reading gives exactly the well-formed descriptors
from their spellings, so that each undoes the other and no spelling is shared;
every other text is refused, and named in the error. -/
theorem parse_inverts_text :
    (∀ s d, parse s = .ok d ↔ d.text = s ∧ d.IsWellFormed) ∧
    (∀ d : Descriptor, d.IsWellFormed → parse d.text = .ok d) ∧
    (∀ s d, parse s = .ok d → d.text = s) ∧
    (∀ d e : Descriptor, d.IsWellFormed → e.IsWellFormed → d.text = e.text → d = e) ∧
    ∀ s, (∀ d : Descriptor, d.IsWellFormed → d.text ≠ s) →
      parse s = .error (.malformedDescriptor s) := by
  have hread : ∀ d : Descriptor, d.IsWellFormed → parse d.text = .ok d :=
    fun d hd => parse_eq_ok_iff_isWellFormed.2 ⟨rfl, hd⟩
  refine ⟨fun s d => parse_eq_ok_iff_isWellFormed, hread, ?_, ?_, ?_⟩
  · intro s d h
    exact (parse_eq_ok_iff_isWellFormed.1 h).1
  · intro d e hd he htext
    have hboth := hread d hd
    rw [htext, hread e he] at hboth
    exact (Except.ok.inj hboth).symm
  · intro s hs
    refine parse_eq_error_of_forall_ne fun d hd => ?_
    obtain ⟨htext, hwf⟩ := parse_eq_ok_iff_isWellFormed.1 hd
    exact hs d hwf htext

/-- A class at the greatest depth and a number go in, nothing comes out. -/
def deepest : Descriptor :=
  ⟨[.arrayOf 255 (.reference ⟨"p/A"⟩), .primitive .int], .primitive .void⟩

theorem parse_deepest :
    (deepest.IsWellFormed ∧ parse deepest.text = .ok deepest) ∧
    (∀ d : Descriptor, d.IsWellFormed → d.text ≠ "(V)V") ∧
    parse "(V)V" = .error (.malformedDescriptor "(V)V") := by
  have hwf : deepest.IsWellFormed := by
    refine ⟨?_, Or.inr rfl⟩
    intro t ht
    simp only [deepest, List.mem_cons, List.not_mem_nil, or_false] at ht
    rcases ht with rfl | rfl
    · exact ⟨255, _, Nat.le_refl _, .reference (by decide), rfl⟩
    · exact ⟨0, _, Nat.zero_le _, .primitive (by decide), rfl⟩
  -- a well-formed descriptor with this spelling would be read from it
  have hvoid : ∀ d : Descriptor, d.IsWellFormed → d.text ≠ "(V)V" := by
    intro d hd htext
    have hread := parse_inverts_text.2.1 d hd
    rw [htext, parse] at hread
    have hparams : readParams? ['V', ')', 'V'] = none := by
      rw [readParams?]
      rfl
    have hnone : read? "(V)V".toList = none := by
      rw [show "(V)V".toList = ['(', 'V', ')', 'V'] from rfl, read?, hparams]
    rw [hnone] at hread
    cases hread
  exact ⟨⟨hwf, parse_inverts_text.2.1 _ hwf⟩, hvoid, parse_inverts_text.2.2.2.2 _ hvoid⟩

end Descriptor

end SymbolRenaming
