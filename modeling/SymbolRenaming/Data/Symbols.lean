/-
SymbolRenaming/Data/Symbols.lean

Symbols and format names as structured data.

Design.  Classes, types and descriptors are texts.  A member is a record of its
parts, and is read from a record in any order of fields or from a list in the
order of the parts; fields of other names are passed over.  Fields are judged
in the order in which they stand.  A format is a text, or a record whose only
field is named like the format and holds null.

Main results: what is written is read back (`FieldSymbol.ofData_toData`,
`Format.ofData_toData`).
-/
import SymbolRenaming.Data
import SymbolRenaming.Format
import SymbolRenaming.Member

namespace SymbolRenaming

/-- Why a value is not the data of a symbol. -/
inductive DataError where
  /-- The value has another shape. -/
  | shape
  /-- A text in it is malformed. -/
  | symbol (cause : SymbolError)
  deriving DecidableEq, Repr

/-- A value that has to be a text. -/
def Data.asText : Data → Except DataError String
  | .text s => .ok s
  | _ => .error .shape

/-! ### Classes, types and descriptors -/

/-- Reads a class; its text is not checked. -/
def ClassName.ofData (d : Data) : Except DataError ClassName := d.asText.map ClassName.mk

/-- Writes a class. -/
def ClassName.toData (c : ClassName) : Data := .text c.text

/-- Reads a type from its descriptor spelling. -/
def VmType.ofData (d : Data) : Except DataError VmType := do
  let s ← d.asText
  (VmType.ofDescriptor s).mapError .symbol

/-- Writes a type in its descriptor spelling. -/
def VmType.toData (t : VmType) : Data := .text t.descriptor

/-- Reads a descriptor. -/
def Descriptor.ofData (d : Data) : Except DataError Descriptor := do
  let s ← d.asText
  (Descriptor.parse s).mapError .symbol

/-- Writes a descriptor. -/
def Descriptor.toData (d : Descriptor) : Data := .text d.text

/-! ### Members -/

/-- The parts of a member found so far. -/
structure MemberParts where
  owner : Option ClassName := none
  name : Option String := none
  descriptor : Option Descriptor := none

/-- Reads the fields of a member's record in order; no part may come twice. -/
def MemberParts.ofFields (withDescriptor : Bool) (p : MemberParts) :
    List (String × Data) → Except DataError MemberParts
  | [] => .ok p
  | (key, value) :: rest =>
    if key = "owner" then
      if p.owner.isSome then .error .shape
      else (ClassName.ofData value).bind fun c =>
        ofFields withDescriptor { p with owner := some c } rest
    else if key = "name" then
      if p.name.isSome then .error .shape
      else value.asText.bind fun s => ofFields withDescriptor { p with name := some s } rest
    else if withDescriptor && key = "descriptor" then
      if p.descriptor.isSome then .error .shape
      else (Descriptor.ofData value).bind fun d =>
        ofFields withDescriptor { p with descriptor := some d } rest
    else ofFields withDescriptor p rest

/-- Reads a field. -/
def FieldSymbol.ofData : Data → Except DataError FieldSymbol
  | .record fields => do
    let p ← MemberParts.ofFields false {} fields
    match p.owner, p.name with
    | some owner, some name => pure ⟨owner, name⟩
    | _, _ => .error .shape
  | .list [owner, name] => do
    let owner ← ClassName.ofData owner
    let name ← name.asText
    pure ⟨owner, name⟩
  | _ => .error .shape

/-- Writes a field. -/
def FieldSymbol.toData (x : FieldSymbol) : Data :=
  .record [("owner", x.owner.toData), ("name", .text x.name)]

/-- Reads a method. -/
def MethodSymbol.ofData : Data → Except DataError MethodSymbol
  | .record fields => do
    let p ← MemberParts.ofFields true {} fields
    match p.owner, p.name, p.descriptor with
    | some owner, some name, some descriptor => pure ⟨owner, name, descriptor⟩
    | _, _, _ => .error .shape
  | .list (owner :: name :: descriptor :: surplus) => do
    let owner ← ClassName.ofData owner
    let name ← name.asText
    let descriptor ← Descriptor.ofData descriptor
    if surplus.isEmpty then pure ⟨owner, name, descriptor⟩ else .error .shape
  | _ => .error .shape

/-- Writes a method. -/
def MethodSymbol.toData (x : MethodSymbol) : Data :=
  .record [("owner", x.owner.toData), ("name", .text x.name),
    ("descriptor", x.descriptor.toData)]

/-! ### Format names -/

/-- Reads the name of a format, in its exact spelling. -/
def Format.ofData : Data → Except DataError Format
  | .text s =>
    match Format.ofKeyword? s with
    | some f => .ok f
    | none => .error .shape
  | .record [(s, .null)] =>
    match Format.ofKeyword? s with
    | some f => .ok f
    | none => .error .shape
  | _ => .error .shape

/-- Writes the name of a format. -/
def Format.toData (f : Format) : Data := .text f.name

/-! ### Small facts -/

theorem ClassName.ofData_toData (c : ClassName) : ClassName.ofData c.toData = .ok c := rfl

theorem FieldSymbol.ofData_toData (x : FieldSymbol) : FieldSymbol.ofData x.toData = .ok x := rfl

theorem Format.ofData_toData (f : Format) : Format.ofData f.toData = .ok f := by
  cases f <;> rfl

end SymbolRenaming
