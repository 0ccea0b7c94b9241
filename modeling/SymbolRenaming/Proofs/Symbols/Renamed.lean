/-
SymbolRenaming/Proofs/Symbols/Renamed.lean

Descriptors and members whose classes are renamed.

Design.  Three functions go through the classes of a symbol: one lists them, one replaces
them, and one spells them.  They go in the same order.  That the listed classes are
replaced as those of the symbol are is said beside the definitions
(`Descriptor.classes_mapClasses`).  Here a renaming keeps a list of the classes that it is
asked for (`asking`), and this list is the one of the symbol, whatever the renaming
answers.  The proofs follow the data: a type has one class or none, a list of types has
the classes of its first type in front, a descriptor has those of its parameters and then
that of its result, and a member has its owner in front.

A descriptor that was read has well-formed classes, and so has the renamed one if the
renaming keeps names well formed.  Then its spelling is read back.

Main result: `Descriptor.renaming_commutes`.
-/
import SymbolRenaming.Proofs.Symbols.Spelling

namespace SymbolRenaming

/-! ### What a renaming is asked for -/

/-- A renaming that keeps a list of the classes that it is asked for. -/
def asking (f : ClassName → ClassName) (c : ClassName) : StateM (List ClassName) ClassName := do
  modify (· ++ [c])
  pure (f c)

section Asking

variable (f : ClassName → ClassName) (asked : List ClassName)

theorem VmType.mapClassM_asking (t : VmType) :
    (t.mapClassM (asking f)).run asked = pure (t.mapClass f, asked ++ t.elementClass.toList) := by
  induction t with
  | primitive p => simp [mapClassM, mapClass, elementClass]
  | array t ih => simp [mapClassM, mapClass, elementClass, ih]
  | reference c => simp [mapClassM, mapClass, elementClass, asking]

theorem VmType.mapM_mapClassM_asking (ts : List VmType) :
    (ts.mapM (mapClassM (asking f))).run asked
      = pure (ts.map (mapClass f), asked ++ ts.filterMap elementClass) := by
  induction ts generalizing asked with
  | nil => simp
  | cons t ts ih =>
    -- the rest is asked for behind the class of the first type, if that has one
    rcases hclass : t.elementClass with - | c
    · simp [List.mapM_cons, mapClassM_asking, ih, hclass]
    · simp [List.mapM_cons, mapClassM_asking, ih, hclass]

theorem Descriptor.mapClassesM_asking (d : Descriptor) :
    (d.mapClassesM (asking f)).run asked = pure (d.mapClasses f, asked ++ d.classes) := by
  have hclasses : d.classes
      = d.params.filterMap VmType.elementClass ++ d.result.elementClass.toList := by
    rw [classes, List.filterMap_append]
    rcases hresult : d.result.elementClass with - | c
    · simp [hresult]
    · simp [hresult]
  simp [mapClassesM, VmType.mapM_mapClassM_asking, VmType.mapClassM_asking, mapClasses, hclasses]

theorem MethodSymbol.mapClassesM_asking (x : MethodSymbol) :
    (x.mapClassesM (asking f)).run asked = pure (x.mapClasses f, asked ++ x.classes) := by
  have howner : (asking f x.owner).run asked = pure (f x.owner, asked ++ [x.owner]) := by
    simp [asking]
  simp [mapClassesM, howner, Descriptor.mapClassesM_asking, mapClasses, classes]

theorem FieldSymbol.mapClassesM_asking (x : FieldSymbol) :
    (x.mapClassesM (asking f)).run asked = pure (x.mapClasses f, asked ++ x.classes) := by
  simp [mapClassesM, asking, mapClasses, classes]

end Asking

/-! ### Renamed descriptors -/

namespace Descriptor

/-- A renamed descriptor is read back from its spelling. -/
theorem parse_text_mapClasses {d : Descriptor} (hd : d.Readable) {f : ClassName → ClassName}
    (hf : ∀ c : ClassName, c.isWellFormed = true → (f c).isWellFormed = true) :
    parse (d.mapClasses f).text = .ok (d.mapClasses f) := by
  have hclasses : ∀ c ∈ d.classes, (f c).isWellFormed = true :=
    fun c hc => hf c (hd.isWellFormed c hc)
  exact parse_eq_ok_iff.2 ⟨hd.mapClasses hclasses, rfl⟩

theorem map_depth_mapClasses (f : ClassName → ClassName) (d : Descriptor) :
    (d.mapClasses f).params.map VmType.depth = d.params.map VmType.depth ∧
      (d.mapClasses f).result.depth = d.result.depth := by
  refine ⟨?_, VmType.depth_mapClass f d.result⟩
  show (d.params.map (VmType.mapClass f)).map VmType.depth = _
  rw [List.map_map]
  exact List.map_congr_left fun t _ => VmType.depth_mapClass f t

/-- **Renaming commutes with reading and spelling.**  If a descriptor was read, and two
renamings keep names well formed, then the renamed descriptor is read back from its
spelling, and the two renamings one after the other are the composed one.  The number of
parameters and the layers of each type stay, and the listed classes are renamed in their
order.  A method or field asks the renaming for exactly its listed classes, in that order,
and keeps its name. -/
theorem renaming_commutes {s : String} {d : Descriptor} (hd : parse s = .ok d)
    {f g : ClassName → ClassName}
    (hf : ∀ c : ClassName, c.isWellFormed = true → (f c).isWellFormed = true)
    (hg : ∀ c : ClassName, c.isWellFormed = true → (g c).isWellFormed = true) :
    (parse (d.mapClasses f).text = .ok (d.mapClasses f) ∧
      (d.mapClasses f).mapClasses g = d.mapClasses (g ∘ f) ∧
      parse (d.mapClasses (g ∘ f)).text = .ok (d.mapClasses (g ∘ f))) ∧
    ((d.mapClasses f).params.length = d.params.length ∧
      (d.mapClasses f).params.map VmType.depth = d.params.map VmType.depth ∧
      (d.mapClasses f).result.depth = d.result.depth) ∧
    (d.mapClasses f).classes = d.classes.map f ∧
    (∀ x : MethodSymbol, (x.mapClassesM (asking f)).run [] = (x.mapClasses f, x.classes) ∧
      (x.mapClasses f).name = x.name) ∧
    ∀ x : FieldSymbol, (x.mapClassesM (asking f)).run [] = (x.mapClasses f, x.classes) ∧
      (x.mapClasses f).name = x.name := by
  have hread : d.Readable := (parse_eq_ok_iff.1 hd).1
  have hfg : ∀ c : ClassName, c.isWellFormed = true → ((g ∘ f) c).isWellFormed = true :=
    fun c hc => hg (f c) (hf c hc)
  refine ⟨⟨parse_text_mapClasses hread hf, mapClasses_mapClasses f g d,
    parse_text_mapClasses hread hfg⟩, ⟨length_params_mapClasses f d, map_depth_mapClasses f d⟩,
    classes_mapClasses f d, ?_, ?_⟩
  · intro x
    exact ⟨x.mapClassesM_asking f [], x.name_mapClasses f⟩
  · intro x
    exact ⟨x.mapClassesM_asking f [], x.name_mapClasses f⟩

/-- Gives one class another name. -/
def moving (c d : ClassName) (x : ClassName) : ClassName := if x = c then d else x

theorem isWellFormed_moving {c d x : ClassName} (hd : d.isWellFormed = true)
    (hx : x.isWellFormed = true) : (moving c d x).isWellFormed = true := by
  rw [moving]
  split
  · exact hd
  · exact hx

/-- Two arrays of one class around a number go in, and another class comes out. -/
def mixed : Descriptor :=
  ⟨[.array (.reference ⟨"a"⟩), .primitive .int, .arrayOf 2 (.reference ⟨"a"⟩)],
    .reference ⟨"b"⟩⟩

/-- One class moves into a package, and the other one takes its name. -/
theorem renaming_commutes_mixed :
    parse "([La;I[[La;)Lb;" = .ok mixed ∧
    parse "([Lp/q;I[[Lp/q;)Lb;" = .ok (mixed.mapClasses (moving ⟨"a"⟩ ⟨"p/q"⟩)) ∧
    parse "([Lp/q;I[[Lp/q;)La;"
      = .ok ((mixed.mapClasses (moving ⟨"a"⟩ ⟨"p/q"⟩)).mapClasses (moving ⟨"b"⟩ ⟨"a"⟩)) ∧
    ((⟨⟨"b"⟩, "f", mixed⟩ : MethodSymbol).mapClassesM (asking (moving ⟨"a"⟩ ⟨"p/q"⟩))).run []
      = (⟨⟨"b"⟩, "f", mixed.mapClasses (moving ⟨"a"⟩ ⟨"p/q"⟩)⟩, [⟨"b"⟩, ⟨"a"⟩, ⟨"a"⟩, ⟨"b"⟩]) := by
  have hwf : mixed.IsWellFormed := by
    refine ⟨?_, Or.inl ⟨0, _, Nat.zero_le _, .reference (by decide), rfl⟩⟩
    intro t ht
    simp only [mixed, List.mem_cons, List.not_mem_nil, or_false] at ht
    rcases ht with rfl | rfl | rfl
    · exact ⟨1, _, by decide, .reference (by decide), rfl⟩
    · exact ⟨0, _, by decide, .primitive (by decide), rfl⟩
    · exact ⟨2, _, by decide, .reference (by decide), rfl⟩
  have hd : parse "([La;I[[La;)Lb;" = .ok mixed :=
    parse_eq_ok_iff_isWellFormed.2 ⟨rfl, hwf⟩
  obtain ⟨⟨hread, hmap, hread'⟩, -, -, hmethod, -⟩ := renaming_commutes hd
    (fun c hc => isWellFormed_moving (c := ⟨"a"⟩) (d := ⟨"p/q"⟩) (by decide) hc)
    (fun c hc => isWellFormed_moving (c := ⟨"b"⟩) (d := ⟨"a"⟩) (by decide) hc)
  exact ⟨hd, hread, hmap ▸ hread', (hmethod _).1⟩

end Descriptor

end SymbolRenaming
