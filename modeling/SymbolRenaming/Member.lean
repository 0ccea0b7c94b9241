/-
SymbolRenaming/Member.lean

Fields and methods, identified by owner and name and, for a method, by the
descriptor.

Design.  The internal name of a member is `owner/name`.  Owners hold slashes
themselves, so a text is split at its last slash.  The parts of a member are
not checked when it is built; the reader refuses an owner that is not well
formed and an empty name.

Main results: a renaming of types keeps the member's name and asks for the
listed classes (`classes_mapClasses`).
-/
import SymbolRenaming.Descriptor

namespace SymbolRenaming

open Text

/-- A field of a class. -/
structure FieldSymbol where
  owner : ClassName
  name : String
  deriving DecidableEq, Ord, Repr

/-- A method of a class. -/
structure MethodSymbol where
  owner : ClassName
  name : String
  descriptor : Descriptor
  deriving DecidableEq, Ord, Repr

/-- The owner and the name in an internal member name. -/
def splitMemberName (s : String) : Except SymbolError (ClassName × String) :=
  match splitAtLast '/' s.toList with
  | some (owner, name) =>
    if name.isEmpty || !ClassName.isWellFormedChars owner then .error (.malformedMemberName s)
    else .ok (⟨.ofList owner⟩, .ofList name)
  | none => .error (.malformedMemberName s)

/-! ### Fields -/

namespace FieldSymbol

/-- Owner and name around a slash. -/
def internalName (x : FieldSymbol) : String := x.owner.text ++ "/" ++ x.name

instance : ToString FieldSymbol := ⟨internalName⟩

/-- Reads an internal name. -/
def ofInternalName (s : String) : Except SymbolError FieldSymbol :=
  (splitMemberName s).map fun (owner, name) => ⟨owner, name⟩

/-- The field of the same owner with another name. -/
def withName (x : FieldSymbol) (name : String) : FieldSymbol := { x with name }

/-- The owner. -/
def classes (x : FieldSymbol) : List ClassName := [x.owner]

/-- Renames the owner and keeps the name. -/
def mapClasses (f : ClassName → ClassName) (x : FieldSymbol) : FieldSymbol :=
  { x with owner := f x.owner }

/-- Renames the owner by an action. -/
def mapClassesM {m : Type → Type} [Monad m] (f : ClassName → m ClassName) (x : FieldSymbol) :
    m FieldSymbol := do
  let owner ← f x.owner
  pure { x with owner }

/-- Whether two fields have the same owner. -/
def sameTypes (x y : FieldSymbol) : Bool := x.owner == y.owner

theorem classes_mapClasses (f : ClassName → ClassName) (x : FieldSymbol) :
    (x.mapClasses f).classes = x.classes.map f := rfl

@[simp] theorem name_mapClasses (f : ClassName → ClassName) (x : FieldSymbol) :
    (x.mapClasses f).name = x.name := rfl

theorem mapClasses_mapClasses (f g : ClassName → ClassName) (x : FieldSymbol) :
    (x.mapClasses f).mapClasses g = x.mapClasses (g ∘ f) := rfl

theorem mapClasses_eq_mapClasses_iff {f g : ClassName → ClassName} {x : FieldSymbol} :
    x.mapClasses f = x.mapClasses g ↔ ∀ c ∈ x.classes, f c = g c := by
  simp [mapClasses, classes]

theorem sameTypes_iff {x y : FieldSymbol} : x.sameTypes y = true ↔ x.owner = y.owner := by
  simp [sameTypes]

end FieldSymbol

/-! ### Methods -/

namespace MethodSymbol

/-- Owner and name around a slash. -/
def internalName (x : MethodSymbol) : String := x.owner.text ++ "/" ++ x.name

/-- The internal name and the descriptor. -/
def text (x : MethodSymbol) : String := x.internalName ++ " " ++ x.descriptor.text

instance : ToString MethodSymbol := ⟨text⟩

/-- Reads an internal name and a descriptor; the name is judged first. -/
def ofInternalName (s descriptor : String) : Except SymbolError MethodSymbol := do
  let (owner, name) ← splitMemberName s
  let descriptor ← Descriptor.parse descriptor
  pure ⟨owner, name, descriptor⟩

/-- The method of the same owner and descriptor with another name. -/
def withName (x : MethodSymbol) (name : String) : MethodSymbol := { x with name }

/-- The owner, then the classes of the descriptor. -/
def classes (x : MethodSymbol) : List ClassName := x.owner :: x.descriptor.classes

/-- Renames the owner and the classes of the descriptor and keeps the name. -/
def mapClasses (f : ClassName → ClassName) (x : MethodSymbol) : MethodSymbol :=
  { x with owner := f x.owner, descriptor := x.descriptor.mapClasses f }

/-- Renames the owner and then the classes of the descriptor by an action. -/
def mapClassesM {m : Type → Type} [Monad m] (f : ClassName → m ClassName) (x : MethodSymbol) :
    m MethodSymbol := do
  let owner ← f x.owner
  let descriptor ← x.descriptor.mapClassesM f
  pure { x with owner, descriptor }

/-- Whether two methods have the same owner and descriptor. -/
def sameTypes (x y : MethodSymbol) : Bool := x.owner == y.owner && x.descriptor == y.descriptor

theorem classes_mapClasses (f : ClassName → ClassName) (x : MethodSymbol) :
    (x.mapClasses f).classes = x.classes.map f := by
  simp [classes, mapClasses, Descriptor.classes_mapClasses]

@[simp] theorem name_mapClasses (f : ClassName → ClassName) (x : MethodSymbol) :
    (x.mapClasses f).name = x.name := rfl

theorem mapClasses_mapClasses (f g : ClassName → ClassName) (x : MethodSymbol) :
    (x.mapClasses f).mapClasses g = x.mapClasses (g ∘ f) := by
  simp [mapClasses, Descriptor.mapClasses_mapClasses]

theorem mapClasses_eq_mapClasses_iff {f g : ClassName → ClassName} {x : MethodSymbol} :
    x.mapClasses f = x.mapClasses g ↔ ∀ c ∈ x.classes, f c = g c := by
  simp [mapClasses, classes, Descriptor.mapClasses_eq_mapClasses_iff]

theorem sameTypes_iff {x y : MethodSymbol} :
    x.sameTypes y = true ↔ x.owner = y.owner ∧ x.descriptor = y.descriptor := by
  simp [sameTypes]

end MethodSymbol

end SymbolRenaming
