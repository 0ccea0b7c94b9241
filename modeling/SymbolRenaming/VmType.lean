/-
SymbolRenaming/VmType.lean

Types of the virtual machine: primitives, arrays and references to classes,
with their two spellings.

Design.  The descriptor spelling (`I`, `[J`, `Ljava/lang/String;`) is a code
that can be read off the front of a text, so the reader returns what it left.
The internal spelling drops the `L` and the `;` of a plain class.  The type
itself is unrestricted: void as an element and names nobody checked can be
built, and the readers are what refuses them.  The reader is told whether void
is welcome, because only a return type may be void.

Main results: a reader leaves a shorter text (`length_lt_of_read?`), and a
renaming changes classes only (`elementClass_mapClass`, `mapClass_mapClass`).
-/
import SymbolRenaming.ClassName
import SymbolRenaming.SymbolError

namespace SymbolRenaming

open Text

/-! ### Primitive types -/

/-- The primitive types, and void. -/
inductive Primitive where
  | byte | char | double | float | int | long | short | boolean | void
  deriving DecidableEq, Ord, Repr

namespace Primitive

/-- The one-letter code of a primitive type. -/
def code : Primitive → Char
  | byte => 'B'
  | char => 'C'
  | double => 'D'
  | float => 'F'
  | int => 'I'
  | long => 'J'
  | short => 'S'
  | boolean => 'Z'
  | void => 'V'

/-- The primitive type with a code. -/
def ofCode? : Char → Option Primitive
  | 'B' => some byte
  | 'C' => some char
  | 'D' => some double
  | 'F' => some float
  | 'I' => some int
  | 'J' => some long
  | 'S' => some short
  | 'Z' => some boolean
  | 'V' => some void
  | _ => none

@[simp] theorem ofCode?_code (p : Primitive) : ofCode? p.code = some p := by
  cases p <;> rfl

theorem ofCode?_eq_some_iff {c : Char} {p : Primitive} : ofCode? c = some p ↔ c = p.code := by
  constructor
  · intro h
    unfold ofCode? at h
    split at h <;> simp_all <;> subst h <;> rfl
  · rintro rfl
    exact ofCode?_code p

end Primitive

/-! ### Types -/

/-- A type of the virtual machine. -/
inductive VmType where
  | primitive (kind : Primitive)
  | array (element : VmType)
  | reference (name : ClassName)
  deriving DecidableEq, Ord, Repr

namespace VmType

/-- The array type of the given depth over an element type. -/
def arrayOf : Nat → VmType → VmType
  | 0, t => t
  | n + 1, t => array (arrayOf n t)

/-- How many array layers a type has. -/
def depth : VmType → Nat
  | array t => t.depth + 1
  | _ => 0

/-- What is left of a type without its array layers. -/
def base : VmType → VmType
  | array t => t.base
  | t => t

/-- The descriptor spelling, as characters. -/
def descriptorChars : VmType → List Char
  | primitive p => [p.code]
  | array t => '[' :: t.descriptorChars
  | reference c => 'L' :: c.chars ++ [';']

/-- The descriptor spelling. -/
def descriptor (t : VmType) : String := .ofList t.descriptorChars

/-- The internal spelling: the bare name of a class, the descriptor of all else. -/
def internalName : VmType → String
  | reference c => c.text
  | t => t.descriptor

/-- Whether the type is a class. -/
def isReference : VmType → Bool
  | reference _ => true
  | _ => false

/-- The class that a type refers to. -/
def asClass : VmType → Except SymbolError ClassName
  | reference c => .ok c
  | t => .error (.notAReferenceType t.internalName)

/-- The class under all array layers, if there is one. -/
def elementClass : VmType → Option ClassName
  | primitive _ => none
  | array t => t.elementClass
  | reference c => some c

/-- Renames the class under the array layers. -/
def mapClass (f : ClassName → ClassName) : VmType → VmType
  | primitive p => primitive p
  | array t => array (t.mapClass f)
  | reference c => reference (f c)

/-- Renames the class under the array layers by an action, which is run once
for each class asked for. -/
def mapClassM {m : Type → Type} [Monad m] (f : ClassName → m ClassName) : VmType → m VmType
  | primitive p => pure (primitive p)
  | array t => array <$> t.mapClassM f
  | reference c => reference <$> f c

/-! ### Reading -/

/-- The most array layers a type may have. -/
def maxDepth : Nat := 255

/-- Reads the part of a type below its array layers off the front of a text. -/
def readElement? (voidWelcome : Bool) : List Char → Option (VmType × List Char)
  | [] => none
  | c :: rest =>
    if c = 'L' then
      match splitAtFirst ';' rest with
      | some (name, after) =>
        if ClassName.isWellFormedChars name then some (reference ⟨.ofList name⟩, after) else none
      | none => none
    else
      match Primitive.ofCode? c with
      | some .void => if voidWelcome then some (primitive .void, rest) else none
      | some p => some (primitive p, rest)
      | none => none

/-- Reads a type in its descriptor spelling off the front of a text and returns
what follows.  Void is never an array element, and is read on its own only
where it is welcome. -/
def read? (voidWelcome : Bool) (cs : List Char) : Option (VmType × List Char) :=
  let layers := (cs.takeWhile (· == '[')).length
  if layers ≤ maxDepth then
    (readElement? (voidWelcome && layers == 0) (cs.dropWhile (· == '['))).map
      fun (t, rest) => (arrayOf layers t, rest)
  else none

/-- Reads a text that is one type and nothing else. -/
def readWhole? (voidWelcome : Bool) (cs : List Char) : Option VmType :=
  match read? voidWelcome cs with
  | some (t, []) => some t
  | _ => none

/-- Reads the descriptor spelling of a type; a lone void is a type. -/
def ofDescriptor (s : String) : Except SymbolError VmType :=
  match readWhole? true s.toList with
  | some t => .ok t
  | none => .error (.malformedType s)

/-- Reads the internal spelling of a type: a text that starts with a bracket is
an array descriptor, any other text is the name of a class. -/
def ofInternalName (s : String) : Except SymbolError VmType :=
  if s.toList.head? = some '[' then
    match readWhole? false s.toList with
    | some t => .ok t
    | none => .error (.malformedType s)
  else if ClassName.isWellFormed ⟨s⟩ then .ok (reference ⟨s⟩)
  else .error (.malformedType s)

/-! ### Small facts -/

theorem length_lt_of_readElement? {v : Bool} {cs rest : List Char} {t : VmType}
    (h : readElement? v cs = some (t, rest)) : rest.length < cs.length := by
  rcases cs with - | ⟨c, cs⟩
  · simp [readElement?] at h
  · rw [readElement?] at h
    split at h
    · split at h
      · rename_i name after e
        split at h
        · simp only [Option.some.injEq, Prod.mk.injEq] at h
          rw [← h.2]
          have := length_lt_of_splitAtFirst e
          simp only [List.length_cons]
          omega
        · simp at h
      · simp at h
    · split at h
      · split at h
        · simp only [Option.some.injEq, Prod.mk.injEq] at h
          simp [← h.2]
        · simp at h
      · simp only [Option.some.injEq, Prod.mk.injEq] at h
        simp [← h.2]
      · simp at h

/-- Reading a type uses up at least one character. -/
theorem length_lt_of_read? {v : Bool} {cs rest : List Char} {t : VmType}
    (h : read? v cs = some (t, rest)) : rest.length < cs.length := by
  simp only [read?] at h
  split at h
  · obtain ⟨⟨u, r⟩, hu, hr⟩ := Option.map_eq_some_iff.1 h
    simp only [Prod.mk.injEq] at hr
    rw [← hr.2]
    exact Nat.lt_of_lt_of_le (length_lt_of_readElement? hu) (List.dropWhile_sublist _).length_le
  · simp at h

theorem elementClass_mapClass (f : ClassName → ClassName) (t : VmType) :
    (t.mapClass f).elementClass = t.elementClass.map f := by
  induction t with
  | primitive p => rfl
  | array t ih => exact ih
  | reference c => rfl

theorem mapClass_mapClass (f g : ClassName → ClassName) (t : VmType) :
    (t.mapClass f).mapClass g = t.mapClass (g ∘ f) := by
  induction t with
  | primitive p => rfl
  | array t ih => exact congrArg array ih
  | reference c => rfl

@[simp] theorem mapClass_id (t : VmType) : t.mapClass id = t := by
  induction t with
  | primitive p => rfl
  | array t ih => exact congrArg array ih
  | reference c => rfl

/-- A renaming is felt only at the class under the array layers. -/
theorem mapClass_eq_mapClass_iff {f g : ClassName → ClassName} {t : VmType} :
    t.mapClass f = t.mapClass g ↔ ∀ c ∈ t.elementClass, f c = g c := by
  induction t with
  | primitive p => simp [mapClass, elementClass]
  | array t ih => simpa [mapClass, elementClass] using ih
  | reference c => simp [mapClass, elementClass]

theorem depth_mapClass (f : ClassName → ClassName) (t : VmType) :
    (t.mapClass f).depth = t.depth := by
  induction t with
  | primitive p => rfl
  | array t ih => exact congrArg (· + 1) ih
  | reference c => rfl

end VmType

end SymbolRenaming
