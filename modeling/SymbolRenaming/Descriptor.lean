/-
SymbolRenaming/Descriptor.lean

Method descriptors: parameter types in parentheses, then the return type.

Design.  A type is a code that ends where it ends, so the parameters stand one
after the other without a separator and the reader takes them one by one until
the closing parenthesis.  Only the return type may be void.

Main results: renaming keeps the number of parameters and acts on the listed
classes in order (`classes_mapClasses`), and two renamings are one
(`mapClasses_mapClasses`).
-/
import SymbolRenaming.VmType

namespace SymbolRenaming

/-- The types of a method. -/
structure Descriptor where
  params : List VmType
  result : VmType
  deriving DecidableEq, Ord, Repr

namespace Descriptor

/-! ### Spelling -/

/-- The spelling of a descriptor, as characters. -/
def chars (d : Descriptor) : List Char :=
  '(' :: d.params.flatMap VmType.descriptorChars ++ ')' :: d.result.descriptorChars

/-- The spelling of a descriptor. -/
def text (d : Descriptor) : String := .ofList d.chars

instance : ToString Descriptor := ⟨text⟩

/-! ### Reading -/

/-- Reads parameters up to and including the closing parenthesis. -/
def readParams? (cs : List Char) : Option (List VmType × List Char) :=
  if cs.head? = some ')' then some ([], cs.tail)
  else
    match _h : VmType.read? false cs with
    | none => none
    | some (t, rest) => (readParams? rest).map fun (ts, after) => (t :: ts, after)
termination_by cs.length
decreasing_by exact VmType.length_lt_of_read? _h

/-- Reads a text that is one descriptor and nothing else. -/
def read? : List Char → Option Descriptor
  | '(' :: cs =>
    match readParams? cs with
    | some (params, rest) => (VmType.readWhole? true rest).map fun result => ⟨params, result⟩
    | none => none
  | _ => none

/-- Reads the text of a descriptor. -/
def parse (s : String) : Except SymbolError Descriptor :=
  match read? s.toList with
  | some d => .ok d
  | none => .error (.malformedDescriptor s)

/-! ### Classes -/

/-- The classes of the parameters and of the return type, in order. -/
def classes (d : Descriptor) : List ClassName :=
  (d.params ++ [d.result]).filterMap VmType.elementClass

/-- Renames every class. -/
def mapClasses (f : ClassName → ClassName) (d : Descriptor) : Descriptor :=
  ⟨d.params.map (VmType.mapClass f), d.result.mapClass f⟩

/-- Renames every class by an action, run from the first parameter to the
return type. -/
def mapClassesM {m : Type → Type} [Monad m] (f : ClassName → m ClassName) (d : Descriptor) :
    m Descriptor := do
  let params ← d.params.mapM (VmType.mapClassM f)
  let result ← d.result.mapClassM f
  pure ⟨params, result⟩

theorem length_params_mapClasses (f : ClassName → ClassName) (d : Descriptor) :
    (d.mapClasses f).params.length = d.params.length := by
  simp [mapClasses]

theorem classes_mapClasses (f : ClassName → ClassName) (d : Descriptor) :
    (d.mapClasses f).classes = d.classes.map f := by
  have h (ts : List VmType) : (ts.map (VmType.mapClass f)).filterMap VmType.elementClass
      = (ts.filterMap VmType.elementClass).map f := by
    induction ts with
    | nil => rfl
    | cons t ts ih =>
      rcases e : t.elementClass with - | c <;>
        simp [VmType.elementClass_mapClass, e, ih]
  rw [classes, mapClasses, classes, ← h]
  simp

theorem mapClasses_mapClasses (f g : ClassName → ClassName) (d : Descriptor) :
    (d.mapClasses f).mapClasses g = d.mapClasses (g ∘ f) := by
  simp only [mapClasses, List.map_map, VmType.mapClass_mapClass, Descriptor.mk.injEq, and_true]
  exact List.map_congr_left fun t _ => VmType.mapClass_mapClass f g t

@[simp] theorem mapClasses_id (d : Descriptor) : d.mapClasses id = d := by
  have h : VmType.mapClass id = id := funext VmType.mapClass_id
  simp [mapClasses, h]

/-- A renaming is felt only at the listed classes. -/
theorem mapClasses_eq_mapClasses_iff {f g : ClassName → ClassName} {d : Descriptor} :
    d.mapClasses f = d.mapClasses g ↔ ∀ c ∈ d.classes, f c = g c := by
  have h : ∀ ts : List VmType, ts.map (VmType.mapClass f) = ts.map (VmType.mapClass g) ↔
      ∀ c ∈ ts.filterMap VmType.elementClass, f c = g c := by
    intro ts
    rw [List.map_inj_left]
    simp only [VmType.mapClass_eq_mapClass_iff, List.mem_filterMap]
    constructor
    · rintro hts c ⟨t, ht, hc⟩
      exact hts t ht c hc
    · intro hcs t ht c hc
      exact hcs c ⟨t, ht, hc⟩
  rw [classes, ← h]
  simp [mapClasses]

end Descriptor

end SymbolRenaming
