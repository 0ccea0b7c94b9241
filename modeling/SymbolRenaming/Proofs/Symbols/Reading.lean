/-
SymbolRenaming/Proofs/Symbols/Reading.lean

What the readers of types, descriptors and member names accept.

Design.  A reader that takes a code off the front of a text is described by one
equivalence: it gives a value and a rest exactly if the value is *readable* and
the text is the spelling of the value followed by the rest.  From left to right
this says that the value is spelled as it was read, from right to left that what
is spelled is read back.  The equivalences are proved from the inside out: the
part of a type below its array layers, the type, the parameters, the descriptor
(`readElement?_eq_some_iff`, `read?_eq_some_iff`, `readParams?_eq_some_iff`,
`parse_eq_ok_iff`).

A readable value has well-formed classes only, and a well-formed class name has
none of the characters that end it in a spelling.  So every spelling is a word,
and a renaming to well-formed names leaves a value readable.
-/
import SymbolRenaming.Member
import SymbolRenaming.Proofs.Text.Records

namespace SymbolRenaming

open Text

/-! ### Class names -/

namespace ClassName

theorem isDelimiter_of_mem {cs : List Char} (h : isWellFormedChars cs = true) :
    ∀ c ∈ cs, isDelimiter c = false := by
  intro c hc
  rw [isWellFormedChars, Bool.and_eq_true, List.all_eq_true, List.all_eq_true] at h
  simpa using h.2 c hc

theorem ne_nil_of_isWellFormedChars {cs : List Char} (h : isWellFormedChars cs = true) :
    cs ≠ [] := by
  rintro rfl
  simp [isWellFormedChars, pieces] at h

theorem isBlank_of_isDelimiter {c : Char} (h : isDelimiter c = false) : isBlank c = false := by
  rw [isDelimiter, Bool.or_eq_false_iff] at h
  exact h.2

/-- A well-formed name is a word. -/
theorem isWord_text {c : ClassName} (h : c.isWellFormed = true) : IsWord c.text where
  ne_empty := by
    intro he
    refine ne_nil_of_isWellFormedChars h ?_
    rw [chars, he]
    rfl
  not_isBlank x hx := isBlank_of_isDelimiter (isDelimiter_of_mem h x hx)

/-- A well-formed name does not start like an array. -/
theorem head?_chars_ne {c : ClassName} (h : c.isWellFormed = true) :
    c.text.toList.head? ≠ some '[' := by
  intro hh
  have hd := isDelimiter_of_mem h '[' (List.mem_of_head? hh)
  revert hd
  decide

end ClassName

/-! ### Types -/

namespace VmType

theorem arrayOf_depth_base (t : VmType) : arrayOf t.depth t.base = t := by
  induction t with
  | primitive p => rfl
  | array t ih => exact congrArg array ih
  | reference c => rfl

theorem depth_arrayOf (n : Nat) (t : VmType) : (arrayOf n t).depth = n + t.depth := by
  induction n with
  | zero => simp [arrayOf]
  | succ n ih =>
    rw [arrayOf, depth, ih]
    omega

theorem base_arrayOf (n : Nat) (t : VmType) : (arrayOf n t).base = t.base := by
  induction n with
  | zero => rfl
  | succ n ih => exact ih

theorem descriptorChars_arrayOf (n : Nat) (t : VmType) :
    (arrayOf n t).descriptorChars = List.replicate n '[' ++ t.descriptorChars := by
  induction n with
  | zero => rfl
  | succ n ih => rw [arrayOf, descriptorChars, ih, List.replicate_succ, List.cons_append]

theorem elementClass_base (t : VmType) : t.base.elementClass = t.elementClass := by
  induction t with
  | primitive p => rfl
  | array t ih => exact ih
  | reference c => rfl

theorem base_mapClass (f : ClassName → ClassName) (t : VmType) :
    (t.mapClass f).base = t.base.mapClass f := by
  induction t with
  | primitive p => rfl
  | array t ih => exact ih
  | reference c => rfl

/-- A type that can stand below array layers and be read there. -/
def ElementReadable (voidWelcome : Bool) : VmType → Prop
  | primitive p => p = .void → voidWelcome = true
  | array _ => False
  | reference c => c.isWellFormed = true

/-- A type that its descriptor spelling stands for. -/
structure Readable (voidWelcome : Bool) (t : VmType) : Prop where
  depth_le : t.depth ≤ maxDepth
  base : t.base.ElementReadable (voidWelcome && t.depth == 0)

theorem ElementReadable.depth_eq_zero {v : Bool} {t : VmType} (h : t.ElementReadable v) :
    t.depth = 0 := by
  cases t with
  | primitive p => rfl
  | array t => exact h.elim
  | reference c => rfl

theorem ElementReadable.base_eq {v : Bool} {t : VmType} (h : t.ElementReadable v) :
    t.base = t := by
  cases t with
  | primitive p => rfl
  | array t => exact h.elim
  | reference c => rfl

theorem readElement?_eq_some_iff {v : Bool} {cs rest : List Char} {t : VmType} :
    readElement? v cs = some (t, rest) ↔ t.ElementReadable v ∧ cs = t.descriptorChars ++ rest := by
  refine ⟨fun h => ?_, ?_⟩
  · rcases cs with - | ⟨c, cs⟩
    · cases h
    · rw [readElement?] at h
      split at h
      · -- a class: its name reaches up to the first semicolon
        rename_i hc
        subst hc
        split at h
        · rename_i name after hsplit
          obtain ⟨rfl, -⟩ := splitAtFirst_eq_some_iff.1 hsplit
          split at h
          · rename_i hwf
            obtain ⟨rfl, rfl⟩ := Prod.mk.inj (Option.some.inj h)
            refine ⟨?_, by simp [descriptorChars, ClassName.chars]⟩
            show ClassName.isWellFormedChars (String.ofList name).toList = true
            rwa [String.toList_ofList]
          · cases h
        · cases h
      · -- a code: void only where it is welcome
        split at h
        · rename_i hcode
          obtain rfl := Primitive.ofCode?_eq_some_iff.1 hcode
          split at h
          · rename_i hv
            obtain ⟨rfl, rfl⟩ := Prod.mk.inj (Option.some.inj h)
            exact ⟨fun _ => hv, rfl⟩
          · cases h
        · rename_i p hp hcode
          obtain rfl := Primitive.ofCode?_eq_some_iff.1 hcode
          obtain ⟨rfl, rfl⟩ := Prod.mk.inj (Option.some.inj h)
          exact ⟨fun hvoid => absurd hvoid hp, rfl⟩
        · cases h
  · rintro ⟨hread, rfl⟩
    cases t with
    | primitive p =>
      have hL : p.code ≠ 'L' := by cases p <;> decide
      show readElement? v (p.code :: rest) = _
      rw [readElement?, if_neg hL, Primitive.ofCode?_code]
      by_cases hp : p = .void
      · subst hp
        simp [show v = true from hread rfl]
      · cases p <;> first | rfl | exact absurd rfl hp
    | array t => exact hread.elim
    | reference c =>
      have hwf : ClassName.isWellFormedChars c.chars = true := hread
      have hsemi : ';' ∉ c.chars := by
        intro hm
        have hd := ClassName.isDelimiter_of_mem hwf _ hm
        revert hd
        decide
      have hsplit : splitAtFirst ';' (c.chars ++ ';' :: rest) = some (c.chars, rest) :=
        splitAtFirst_eq_some_iff.2 ⟨rfl, hsemi⟩
      have hcs : (reference c).descriptorChars ++ rest = 'L' :: (c.chars ++ ';' :: rest) := by
        simp [descriptorChars]
      rw [hcs, readElement?, if_pos rfl, hsplit]
      show (if ClassName.isWellFormedChars c.chars then _ else _) = _
      rw [if_pos hwf, ClassName.chars, String.ofList_toList]

/-- What stands below the array layers does not start like one. -/
theorem ElementReadable.exists_cons {v : Bool} {t : VmType} (h : t.ElementReadable v) :
    ∃ c cs, t.descriptorChars = c :: cs ∧ c ≠ '[' := by
  cases t with
  | primitive p => exact ⟨p.code, [], rfl, by cases p <;> decide⟩
  | array t => exact h.elim
  | reference c => exact ⟨'L', c.chars ++ [';'], rfl, by decide⟩

/-- A type is read off the front of a text exactly if the text starts with its
spelling, and the type is readable. -/
theorem read?_eq_some_iff {v : Bool} {cs rest : List Char} {t : VmType} :
    read? v cs = some (t, rest) ↔ t.Readable v ∧ cs = t.descriptorChars ++ rest := by
  refine ⟨fun h => ?_, ?_⟩
  · rw [read?] at h
    split at h
    · rename_i hlayers
      obtain ⟨⟨u, r⟩, hu, hr⟩ := Option.map_eq_some_iff.1 h
      obtain ⟨rfl, rfl⟩ := Prod.mk.inj hr
      obtain ⟨hread, hdrop⟩ := readElement?_eq_some_iff.1 hu
      -- the brackets that were taken are the layers of the type
      have htake : cs.takeWhile (· == '[')
          = List.replicate (cs.takeWhile (· == '[')).length '[' := by
        refine List.eq_replicate_iff.2 ⟨rfl, fun c hc => ?_⟩
        simpa using List.all_eq_true.1 List.all_takeWhile c hc
      have hdepth : (arrayOf (cs.takeWhile (· == '[')).length u).depth
          = (cs.takeWhile (· == '[')).length := by
        rw [depth_arrayOf, hread.depth_eq_zero, Nat.add_zero]
      refine ⟨⟨?_, ?_⟩, ?_⟩
      · rwa [hdepth]
      · rw [hdepth, base_arrayOf, hread.base_eq]
        exact hread
      · rw [descriptorChars_arrayOf, List.append_assoc, ← hdrop, ← htake,
          List.takeWhile_append_dropWhile]
    · cases h
  · rintro ⟨hread, rfl⟩
    obtain ⟨c, ds, hds, hc⟩ := hread.base.exists_cons
    -- the brackets end where the element starts, since no element starts with one
    have hcs : t.descriptorChars ++ rest
        = List.replicate t.depth '[' ++ (t.base.descriptorChars ++ rest) := by
      conv => lhs; rw [← arrayOf_depth_base t]
      rw [descriptorChars_arrayOf, List.append_assoc]
    have htake : (t.descriptorChars ++ rest).takeWhile (· == '[')
        = List.replicate t.depth '[' := by
      rw [hcs, hds, List.takeWhile_append_of_pos (by simp)]
      simp [hc]
    have hdrop : (t.descriptorChars ++ rest).dropWhile (· == '[')
        = t.base.descriptorChars ++ rest := by
      rw [hcs, List.dropWhile_append_of_pos (by simp), hds]
      simp [hc]
    have hbase : readElement? (v && t.depth == 0) (t.base.descriptorChars ++ rest)
        = some (t.base, rest) := readElement?_eq_some_iff.2 ⟨hread.base, rfl⟩
    rw [read?, htake, hdrop, List.length_replicate, if_pos hread.depth_le, hbase]
    simp [arrayOf_depth_base]

theorem readWhole?_eq_some_iff {v : Bool} {cs : List Char} {t : VmType} :
    readWhole? v cs = some t ↔ t.Readable v ∧ cs = t.descriptorChars := by
  have h : readWhole? v cs = some t ↔ read? v cs = some (t, []) := by
    rw [readWhole?]
    split
    · rename_i u hu
      simp [hu]
    · rename_i hu
      refine ⟨fun h => ?_, ?_⟩
      · cases h
      · intro h
        exact absurd h (hu t)
  rw [h, read?_eq_some_iff, List.append_nil]

theorem Readable.isWellFormed {v : Bool} {t : VmType} (h : t.Readable v) :
    ∀ c ∈ t.elementClass, c.isWellFormed = true := by
  have hbase := h.base
  rw [← elementClass_base]
  revert hbase
  cases t.base with
  | primitive p =>
    intro _ c hc
    cases hc
  | array t => exact fun hb => hb.elim
  | reference d =>
    intro hb c hc
    cases hc
    exact hb

/-- A type stays readable if its class becomes a well-formed one. -/
theorem Readable.mapClass {v : Bool} {t : VmType} (h : t.Readable v) {f : ClassName → ClassName}
    (hf : ∀ c ∈ t.elementClass, (f c).isWellFormed = true) : (t.mapClass f).Readable v where
  depth_le := by
    rw [depth_mapClass]
    exact h.depth_le
  base := by
    have hbase := h.base
    rw [depth_mapClass, base_mapClass]
    rw [← elementClass_base] at hf
    revert hbase hf
    cases t.base with
    | primitive p => exact fun _ hb => hb
    | array t => exact fun _ hb => hb.elim
    | reference c => exact fun hf _ => hf c rfl

/-- The spelling of a readable type has no blank. -/
theorem Readable.isBlank_of_mem {v : Bool} {t : VmType} (h : t.Readable v) :
    ∀ c ∈ t.descriptorChars, isBlank c = false := by
  have hbase : ∀ u : VmType, u.ElementReadable (v && t.depth == 0) →
      ∀ c ∈ u.descriptorChars, isBlank c = false := by
    intro u hu
    cases u with
    | primitive p =>
      intro c hc
      obtain rfl : c = p.code := by simpa [descriptorChars] using hc
      cases p <;> decide
    | array u => exact hu.elim
    | reference d =>
      intro c hc
      simp only [descriptorChars, List.cons_append, List.mem_cons, List.mem_append,
        List.not_mem_nil, or_false] at hc
      rcases hc with rfl | hc | rfl
      · decide
      · exact ClassName.isBlank_of_isDelimiter (ClassName.isDelimiter_of_mem hu c hc)
      · decide
  rw [← arrayOf_depth_base t, descriptorChars_arrayOf]
  intro c hc
  rcases List.mem_append.1 hc with hc | hc
  · obtain rfl := (List.mem_replicate.1 hc).2
    decide
  · exact hbase _ h.base c hc

/-! ### The internal spelling -/

/-- The internal spelling is read exactly for classes and arrays. -/
theorem ofInternalName_eq_ok_iff {s : String} {t : VmType} :
    ofInternalName s = .ok t ↔
      s = t.internalName ∧ t.Readable false ∧ ∀ p, t ≠ .primitive p := by
  rw [ofInternalName]
  split
  · rename_i hhead
    refine ⟨fun h => ?_, ?_⟩
    · split at h
      · rename_i u hu
        obtain rfl : u = t := Except.ok.inj h
        obtain ⟨hread, hs⟩ := readWhole?_eq_some_iff.1 hu
        -- of the readable types only arrays start with a bracket
        rw [hs] at hhead
        cases u with
        | primitive p =>
          have hp : p.code = '[' := Option.some.inj hhead
          cases p <;> exact absurd hp (by decide)
        | array u =>
          refine ⟨?_, hread, fun p => by simp⟩
          show s = String.ofList _
          rw [← hs, String.ofList_toList]
        | reference c =>
          have hc : 'L' = '[' := Option.some.inj hhead
          exact absurd hc (by decide)
      · cases h
    · rintro ⟨rfl, hread, hp⟩
      cases t with
      | primitive p => exact absurd rfl (hp p)
      | array u =>
        have hwhole : readWhole? false (array u).internalName.toList = some (array u) :=
          readWhole?_eq_some_iff.2 ⟨hread, String.toList_ofList⟩
        rw [hwhole]
      | reference c => exact absurd hhead (ClassName.head?_chars_ne (hread.isWellFormed c rfl))
  · rename_i hhead
    refine ⟨fun h => ?_, ?_⟩
    · split at h
      · rename_i hwf
        obtain rfl := Except.ok.inj h
        exact ⟨rfl, ⟨Nat.zero_le _, hwf⟩, fun p => by simp⟩
      · cases h
    · rintro ⟨rfl, hread, hp⟩
      cases t with
      | primitive p => exact absurd rfl (hp p)
      | array u =>
        refine absurd ?_ hhead
        show (String.ofList ('[' :: u.descriptorChars)).toList.head? = some '['
        rw [String.toList_ofList]
        rfl
      | reference c =>
        have hwf : ClassName.isWellFormed ⟨c.text⟩ = true := hread.isWellFormed c rfl
        show (if ClassName.isWellFormed ⟨c.text⟩ then Except.ok (reference ⟨c.text⟩) else _) = _
        rw [if_pos hwf]

theorem ofInternalName_eq_ok_reference_iff {s : String} {c : ClassName} :
    ofInternalName s = .ok (.reference c) ↔ s = c.text ∧ c.isWellFormed = true := by
  rw [ofInternalName_eq_ok_iff]
  constructor
  · rintro ⟨hs, hread, -⟩
    exact ⟨hs, hread.isWellFormed c rfl⟩
  · rintro ⟨hs, hwf⟩
    exact ⟨hs, ⟨Nat.zero_le _, hwf⟩, fun p => by simp⟩

end VmType

/-! ### Descriptors -/

namespace Descriptor

/-- A descriptor that its spelling stands for. -/
structure Readable (d : Descriptor) : Prop where
  params : ∀ t ∈ d.params, t.Readable false
  result : d.result.Readable true

theorem readParams?_eq_some_iff {cs rest : List Char} {ts : List VmType} :
    readParams? cs = some (ts, rest) ↔
      (∀ t ∈ ts, t.Readable false) ∧ cs = ts.flatMap VmType.descriptorChars ++ ')' :: rest := by
  -- a type never starts with the character that ends the parameters
  have hparen : ∀ {t : VmType}, t.Readable false → ∀ after : List Char,
      (t.descriptorChars ++ after).head? ≠ some ')' := by
    intro t _ after
    cases t with
    | primitive p => cases p <;> simp [VmType.descriptorChars, Primitive.code]
    | array t => simp [VmType.descriptorChars]
    | reference c => simp [VmType.descriptorChars]
  fun_induction readParams? cs generalizing ts with
  | case1 cs hhead =>
    obtain ⟨cs, rfl⟩ := List.head?_eq_some_iff.1 hhead
    refine ⟨fun h => ?_, ?_⟩
    · obtain ⟨rfl, rfl⟩ := Prod.mk.inj (Option.some.inj h)
      exact ⟨by simp, rfl⟩
    · rintro ⟨hts, hcs⟩
      rcases ts with - | ⟨t, ts⟩
      · simp_all
      · refine absurd ?_
          (hparen (hts t (by simp)) (ts.flatMap VmType.descriptorChars ++ ')' :: rest))
        rw [← List.append_assoc, ← List.flatMap_cons, ← hcs]
        rfl
  | case2 cs hhead hread =>
    refine ⟨fun h => ?_, ?_⟩
    · cases h
    · rintro ⟨hts, rfl⟩
      rcases ts with - | ⟨t, ts⟩
      · exact absurd rfl hhead
      · rw [List.flatMap_cons, List.append_assoc, VmType.read?_eq_some_iff.2
          ⟨hts t (by simp), rfl⟩] at hread
        cases hread
  | case3 cs hhead t after hread ih =>
    obtain ⟨ht, rfl⟩ := VmType.read?_eq_some_iff.1 hread
    refine ⟨fun h => ?_, ?_⟩
    · obtain ⟨⟨us, r⟩, hus, hr⟩ := Option.map_eq_some_iff.1 h
      obtain ⟨rfl, rfl⟩ := Prod.mk.inj hr
      obtain ⟨husRead, rfl⟩ := ih.1 hus
      refine ⟨?_, by simp⟩
      intro u hu
      rcases List.mem_cons.1 hu with rfl | hu
      · exact ht
      · exact husRead u hu
    · rintro ⟨hts, hcs⟩
      rcases ts with - | ⟨u, us⟩
      · rw [hcs] at hhead
        exact absurd rfl hhead
      · have hu : VmType.read? false (u.descriptorChars
            ++ (us.flatMap VmType.descriptorChars ++ ')' :: rest))
              = some (u, us.flatMap VmType.descriptorChars ++ ')' :: rest) :=
          VmType.read?_eq_some_iff.2 ⟨hts u (by simp), rfl⟩
        rw [← List.append_assoc, ← List.flatMap_cons, ← hcs, hread] at hu
        obtain ⟨rfl, rfl⟩ := Prod.mk.inj (Option.some.inj hu)
        rw [ih.2 ⟨fun x hx => hts x (List.mem_cons_of_mem _ hx), rfl⟩]
        rfl

theorem read?_eq_some_iff {cs : List Char} {d : Descriptor} :
    read? cs = some d ↔ d.Readable ∧ cs = d.chars := by
  refine ⟨fun h => ?_, ?_⟩
  · rw [read?.eq_def] at h
    split at h
    · split at h
      · rename_i params rest hparams
        obtain ⟨result, hresult, rfl⟩ := Option.map_eq_some_iff.1 h
        obtain ⟨hps, rfl⟩ := readParams?_eq_some_iff.1 hparams
        obtain ⟨hr, rfl⟩ := VmType.readWhole?_eq_some_iff.1 hresult
        exact ⟨⟨hps, hr⟩, rfl⟩
      · cases h
    · cases h
  · rintro ⟨hread, rfl⟩
    have hparams : readParams? (d.params.flatMap VmType.descriptorChars
        ++ ')' :: d.result.descriptorChars) = some (d.params, d.result.descriptorChars) :=
      readParams?_eq_some_iff.2 ⟨hread.params, rfl⟩
    have hresult := VmType.readWhole?_eq_some_iff.2 ⟨hread.result, rfl⟩
    rw [chars, List.cons_append, read?, hparams]
    show (VmType.readWhole? true d.result.descriptorChars).map _ = some d
    rw [hresult]
    rfl

/-- A text is read as a descriptor exactly if it is the spelling of a readable
one. -/
theorem parse_eq_ok_iff {s : String} {d : Descriptor} :
    parse s = .ok d ↔ d.Readable ∧ s = d.text := by
  have hs : s.toList = d.chars ↔ s = d.text := by
    rw [text, ← String.toList_inj, String.toList_ofList]
  rw [← hs, ← read?_eq_some_iff, parse]
  rcases e : read? s.toList with - | u
  · simp
  · simp

/-- The readable descriptors are those that some text is read as. -/
theorem exists_parse_iff {d : Descriptor} : (∃ s, parse s = .ok d) ↔ d.Readable := by
  constructor
  · rintro ⟨s, hs⟩
    exact (parse_eq_ok_iff.1 hs).1
  · intro h
    exact ⟨d.text, parse_eq_ok_iff.2 ⟨h, rfl⟩⟩

/-- A descriptor stays readable if its classes become well-formed ones. -/
theorem Readable.mapClasses {d : Descriptor} (h : d.Readable) {f : ClassName → ClassName}
    (hf : ∀ c ∈ d.classes, (f c).isWellFormed = true) : (d.mapClasses f).Readable where
  params := by
    intro t ht
    obtain ⟨u, hu, rfl⟩ := List.mem_map.1 ht
    refine (h.params u hu).mapClass fun c hc => hf c ?_
    exact List.mem_filterMap.2 ⟨u, List.mem_append_left _ hu, hc⟩
  result := by
    refine h.result.mapClass fun c hc => hf c ?_
    exact List.mem_filterMap.2 ⟨d.result, by simp, hc⟩

theorem Readable.isWellFormed {d : Descriptor} (h : d.Readable) :
    ∀ c ∈ d.classes, c.isWellFormed = true := by
  intro c hc
  obtain ⟨t, ht, hct⟩ := List.mem_filterMap.1 hc
  rcases List.mem_append.1 ht with ht | ht
  · exact (h.params t ht).isWellFormed c hct
  · obtain rfl := List.mem_singleton.1 ht
    exact h.result.isWellFormed c hct

/-- The spelling of a readable descriptor is a word. -/
theorem Readable.isWord_text {d : Descriptor} (h : d.Readable) : IsWord d.text where
  ne_empty := by
    intro he
    have hnil : d.chars = [] := by
      rw [← String.toList_ofList (l := d.chars)]
      exact String.toList_eq_nil_iff.2 he
    cases hnil
  not_isBlank := by
    intro c hc
    rw [text, String.toList_ofList, chars] at hc
    simp only [List.cons_append, List.mem_cons, List.mem_append, List.mem_flatMap] at hc
    rcases hc with rfl | ⟨t, ht, hc⟩ | rfl | hc
    · decide
    · exact (h.params t ht).isBlank_of_mem c hc
    · decide
    · exact h.result.isBlank_of_mem c hc

end Descriptor

/-! ### Member names -/

/-- An owner and a name that are read back from their internal name. -/
structure IsMemberName (owner : ClassName) (name : String) : Prop where
  isWellFormed : owner.isWellFormed = true
  ne_empty : name ≠ ""
  not_mem : '/' ∉ name.toList

theorem splitMemberName_eq_ok_iff {s : String} {owner : ClassName} {name : String} :
    splitMemberName s = .ok (owner, name) ↔
      s = owner.text ++ "/" ++ name ∧ IsMemberName owner name := by
  rw [splitMemberName]
  refine ⟨fun h => ?_, ?_⟩
  · split at h
    · rename_i before after hsplit
      obtain ⟨hs, hslash⟩ := splitAtLast_eq_some_iff.1 hsplit
      split at h
      · cases h
      · rename_i hok
        simp only [Bool.or_eq_true, List.isEmpty_iff, Bool.not_eq_true', not_or,
          Bool.not_eq_false] at hok
        obtain ⟨rfl, rfl⟩ := Prod.mk.inj (Except.ok.inj h)
        refine ⟨?_, ?_, ?_, ?_⟩
        · rw [← String.toList_inj, hs]
          simp
        · show ClassName.isWellFormedChars (String.ofList before).toList = true
          rw [String.toList_ofList]
          exact hok.2
        · intro he
          refine hok.1 ?_
          rw [← String.toList_ofList (l := after), he]
          rfl
        · rwa [String.toList_ofList]
    · cases h
  · rintro ⟨rfl, h⟩
    have hsplit : splitAtLast '/' (owner.text ++ "/" ++ name).toList
        = some (owner.chars, name.toList) :=
      splitAtLast_eq_some_iff.2 ⟨by simp [ClassName.chars], h.not_mem⟩
    have hname : name.toList.isEmpty = false :=
      List.isEmpty_eq_false_iff.2 fun he => h.ne_empty (String.toList_eq_nil_iff.1 he)
    have hwf : ClassName.isWellFormedChars owner.chars = true := h.isWellFormed
    rw [hsplit]
    simp only [hname, hwf, Bool.not_true, Bool.or_self, Bool.false_eq_true, ite_false]
    rw [ClassName.chars, String.ofList_toList, String.ofList_toList]

theorem FieldSymbol.ofInternalName_eq_ok_iff {s : String} {x : FieldSymbol} :
    ofInternalName s = .ok x ↔ s = x.internalName ∧ IsMemberName x.owner x.name := by
  show _ ↔ s = x.owner.text ++ "/" ++ x.name ∧ _
  rw [← splitMemberName_eq_ok_iff, ofInternalName]
  rcases splitMemberName s with err | ⟨owner, name⟩
  · simp [Except.map]
  · obtain ⟨o, n⟩ := x
    simp [Except.map]

theorem MethodSymbol.ofInternalName_eq_ok_iff {s types : String} {x : MethodSymbol} :
    ofInternalName s types = .ok x ↔ (s = x.internalName ∧ IsMemberName x.owner x.name) ∧
      x.descriptor.Readable ∧ types = x.descriptor.text := by
  -- both parts have to be read; which one is judged first does not matter here
  have h : ofInternalName s types = .ok x ↔
      splitMemberName s = .ok (x.owner, x.name) ∧ Descriptor.parse types = .ok x.descriptor := by
    rw [ofInternalName]
    rcases splitMemberName s with err | ⟨owner, name⟩
    · simp [bind, Except.bind]
    · rcases Descriptor.parse types with err | d
      · simp [bind, Except.bind]
      · obtain ⟨o, n, d'⟩ := x
        simp [bind, Except.bind, pure, Except.pure, and_assoc]
  rw [h, splitMemberName_eq_ok_iff, Descriptor.parse_eq_ok_iff]
  rfl

/-- An internal name without a blank in its last part is a word. -/
theorem IsMemberName.isWord {owner : ClassName} {name : String} (h : IsMemberName owner name)
    (hname : IsWord name) : IsWord (owner.text ++ "/" ++ name) where
  ne_empty := by
    intro he
    have hnil := congrArg String.toList he
    simp at hnil
  not_isBlank := by
    intro c hc
    simp only [String.toList_append, List.mem_append] at hc
    rcases hc with (hc | hc) | hc
    · exact (ClassName.isWord_text h.isWellFormed).not_isBlank c hc
    · obtain rfl : c = '/' := by simpa using hc
      decide
    · exact hname.not_isBlank c hc

/-- A word with the internal name of a member has a name without blanks. -/
theorem IsMemberName.isWord_name {owner : ClassName} {name : String} (h : IsMemberName owner name)
    (hword : IsWord (owner.text ++ "/" ++ name)) : IsWord name where
  ne_empty := h.ne_empty
  not_isBlank c hc := hword.not_isBlank c (by simp [hc])

end SymbolRenaming
