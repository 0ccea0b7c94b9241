/-
SymbolRenaming/Workbench.lean

A workbench: named mappings, and the steps that make, edit and ask them.

Design.  A register holds mappings of one kind.  A step first finds its
registers, then judges whether it is defined for their kinds, and only then
reads its own arguments.  A step that fails leaves the registers as they were.
Frozen mappings that were made from one another share their tables, and their
inverse tables are computed once for all of them; a register remembers which
tables it shares, so that the notice about an inverse is given once.

Main result: a failing step changes no register (`registers_run_of_error`).
-/
import SymbolRenaming.Composition
import SymbolRenaming.Format.Codec

namespace SymbolRenaming

/-! ### Registers -/

/-- What a register holds; `share` names the tables that frozen mappings share. -/
inductive Register where
  | frozen (m : Frozen) (share : Nat)
  | editable (m : Editable)
  | rules (m : Rules)

/-- The mappings in a register. -/
def Register.mappings : Register → Mappings
  | frozen m _ => .frozen m
  | editable m => .editable m
  | rules m => .rules m

/-- The contract of the mappings in a register. -/
def Register.contract (r : Register) : Renaming := r.mappings.contract

/-- The state of a workbench. -/
structure Workbench where
  registers : Table String Register := .empty
  /-- The name for the next tables. -/
  nextShare : Nat := 0
  /-- The tables whose inverse has been computed. -/
  opened : List Nat := []

/-! ### Steps and answers -/

/-- A method as it is written in a step: only its descriptor is judged. -/
structure MethodText where
  owner : String
  name : String
  descriptor : String

/-- Reads the descriptor of a written method. -/
def MethodText.read (t : MethodText) : Except SymbolError MethodSymbol :=
  (Descriptor.parse t.descriptor).map fun d => ⟨⟨t.owner⟩, t.name, d⟩

/-- Why a step fails. -/
inductive StepError where
  | noRegister
  | wrongKind
  | symbol (cause : SymbolError)
  | mappings (cause : RenamingError)
  | unknownFormat (name : String)
  | read (cause : ReadError)

/-- A question to a register. -/
inductive Query where
  | renameClass (c : ClassName)
  | renameField (x : FieldSymbol)
  | renameMethod (x : MethodText)
  | renameType (descriptor : String)
  | renameClassType (descriptor : String)
  | listing
  | display
  | keys
  | counts
  | check
  | render (format : String)
  | writeLines (format : String) (lines : Nat)
  | writeBytes (format : String) (capacity : Nat)

/-- A change of editable mappings. -/
inductive Edit where
  | setClass (old renamed : ClassName)
  | setClassType (old renamed : String)
  | setMethodName (x : MethodText) (name : String)
  | setMethod (x renamed : MethodText)
  | setFieldName (x : FieldSymbol) (name : String)
  | setField (x renamed : FieldSymbol)

/-- A way to make mappings from those in a register. -/
inductive Derivation where
  | clone | freeze | invert | snapshot | inverted

/-- The rules that a step asks for; classes listed by a step replace the rule
for packages. -/
structure RuleSpec where
  packages : Option (List (String × String)) := none
  classes : Option (List (ClassName × ClassName)) := none
  methods : Option (List (MethodText × String)) := none
  fields : Option (List (FieldSymbol × String)) := none

/-- A way to make mappings from nothing in particular. -/
inductive Source where
  | editable
  | empty
  | pairs (classes : List (ClassName × ClassName)) (methods : List (MethodText × MethodText))
      (fields : List (FieldSymbol × FieldSymbol))
  | names (classes : List (ClassName × ClassName)) (methods : List (MethodText × String))
      (fields : List (FieldSymbol × String))
  | rules (spec : RuleSpec)
  | parse (format text : String)
  | chain (layers : List String)
  | derive (how : Derivation) (on : String)
  | reparse (on format : String)

/-- A step of a session. -/
inductive Step where
  | set (target : String) (source : Source)
  | edit (on : String) (change : Edit)
  | ask (on : String) (question : Query)
  | equal (left right : String)

/-- The entries of mappings as texts. -/
structure Listing where
  classes : List (String × String)
  fields : List (String × String)
  methods : List (String × String)

/-- The entries that a contract lists. -/
def Renaming.listing (r : Renaming) : Listing where
  classes := r.classEntries.map fun e => (e.1.text, e.2.text)
  fields := r.fieldEntries.map fun e => (e.1.internalName, e.2.internalName)
  methods := r.methodEntries.map fun e => (e.1.text, e.2.text)

/-- What a step answers. -/
inductive Answer where
  | listing (l : Listing)
  | rules (text : String)
  | renamed (text : String)
  | display (text : String)
  | keys (classes fields methods : List String)
  | sizes (classes fields methods : Nat) (isEmpty : Bool)
  | isEmpty (b : Bool)
  | consistent
  | equal (b : Bool)
  | lines (lines : List String)
  | taken (complete : Bool) (text : String)
  | buffer (bytes : List UInt8) (failure : Option IoFailure)

namespace Workbench

/-! ### Reading arguments -/

/-- The mappings in a register. -/
def find (w : Workbench) (name : String) : Except StepError Register :=
  match w.registers.get? name with
  | some r => .ok r
  | none => .error .noRegister

/-- Reads the name of a format. -/
def readFormat (name : String) : Except StepError Format :=
  match Format.ofName? name with
  | some f => .ok f
  | none => .error (.unknownFormat name)

/-- Reads a written method. -/
def readMethod (t : MethodText) : Except StepError MethodSymbol := t.read.mapError .symbol

/-- Reads written methods with something beside each. -/
def readMethods {α : Type} (ts : List (MethodText × α)) :
    Except StepError (List (MethodSymbol × α)) :=
  ts.mapM fun t => (readMethod t.1).map (·, t.2)

/-- Reads pairs of written methods, the left one of each pair first. -/
def readMethodPairs (ts : List (MethodText × MethodText)) :
    Except StepError (List (MethodSymbol × MethodSymbol)) :=
  ts.mapM fun t => do
    let left ← readMethod t.1
    let right ← readMethod t.2
    pure (left, right)

/-- Reads the descriptor spelling of a type. -/
def readType (descriptor : String) : Except StepError VmType :=
  (VmType.ofDescriptor descriptor).mapError .symbol

/-! ### Making mappings -/

/-- Rules that look symbols up in lists; the last pair for a symbol wins. -/
def rulesOf (spec : RuleSpec) : Except StepError Rules := do
  let methods ← spec.methods.mapM readMethods
  let start := match spec.packages with
    | some pairs => Rules.packages pairs
    | none => Rules.empty
  pure
    { classRule := match spec.classes with
        | some pairs => some (Table.ofList pairs).get?
        | none => start.classRule
      methodRule := methods.map fun pairs => (Table.ofList pairs).get?
      fieldRule := spec.fields.map fun pairs => (Table.ofList pairs).get? }

/-- Makes mappings from those in a register. -/
def derive (w : Workbench) : Derivation → Register → Except StepError Register
  | .clone, .frozen m share => .ok (.frozen m share)
  | .clone, .editable m => .ok (.editable m)
  | .freeze, .editable m => .ok (.frozen m.freeze w.nextShare)
  | .invert, .frozen m share => .ok (.frozen m.invert share)
  | .snapshot, .frozen m share => .ok (.frozen m share)
  | .inverted, .frozen m share => .ok (.frozen m.invert share)
  | .snapshot, r =>
    match r.mappings.snapshot with
    | .ok m => .ok (.frozen m w.nextShare)
    | .error e => .error (.mappings e)
  | .inverted, r =>
    match r.mappings.inverted with
    | .ok m => .ok (.frozen m w.nextShare)
    | .error e => .error (.mappings e)
  | _, _ => .error .wrongKind

/-- Turns the outcome of reading a file into a register. -/
def ofRead (w : Workbench) (outcome : Noted (Except ReadError Frozen)) :
    Noted (Except StepError Register) :=
  match outcome.value with
  | .ok m => ⟨.ok (.frozen m w.nextShare), outcome.notices⟩
  | .error e => ⟨.error (.read e), outcome.notices⟩

/-- Composes the mappings in registers. -/
def chain (w : Workbench) (layers : List Register) : Noted (Except StepError Register) :=
  let outcome := Composition.compose (layers.map fun r => { contract := r.contract })
  match outcome.value with
  | .ok m => ⟨.ok (.frozen m w.nextShare), outcome.notices⟩
  | .error e => ⟨.error (.mappings e), outcome.notices⟩

/-- A result without notices. -/
def plain {α : Type} (x : Except StepError α) : Noted (Except StepError α) := ⟨x, []⟩

/-- Makes what a register is set to. -/
def make (w : Workbench) : Source → Noted (Except StepError Register)
  | .editable => plain (.ok (.editable .empty))
  | .empty => plain (.ok (.frozen .empty w.nextShare))
  | .pairs classes methods fields => plain do
    let methods ← readMethodPairs methods
    let m ← (Frozen.ofPairs classes methods fields).mapError .mappings
    pure (.frozen m w.nextShare)
  | .names classes methods fields => plain do
    let methods ← readMethods methods
    pure (.frozen (.ofNames classes methods fields) w.nextShare)
  | .rules spec =>
    ⟨(rulesOf spec).map .rules, (spec.packages.map Rules.packagesNotice).toList⟩
  | .parse format text =>
    match readFormat format with
    | .ok f => w.ofRead (f.parse text)
    | .error e => plain (.error e)
  | .chain layers =>
    match layers.mapM w.find with
    | .ok registers => w.chain registers
    | .error e => plain (.error e)
  | .derive how on => plain do
    let r ← w.find on
    w.derive how r
  | .reparse on format =>
    match (do let r ← w.find on; let f ← readFormat format; pure (r, f)) with
    | .ok (r, f) => w.ofRead (f.parse ("\n".intercalate (f.toLines r.contract)))
    | .error e => plain (.error e)

/-- What a new register answers. -/
def introduction : Register → Answer
  | .rules m => .rules m.text
  | r => .listing r.contract.listing

/-- Sets a register.  Its entries are listed at once, which computes the
inverse tables if they are needed and were not computed before. -/
def set (w : Workbench) (target : String) (r : Register) : Noted Workbench :=
  let nextShare := w.nextShare + 1
  let registers := w.registers.insert target r
  match r with
  -- inverse tables are computed once for all values that share their tables
  | .frozen m share =>
    if m.inverted && !w.opened.contains share then
      ⟨⟨registers, nextShare, share :: w.opened⟩, m.openingNotices⟩
    else ⟨⟨registers, nextShare, w.opened⟩, []⟩
  | _ => ⟨⟨registers, nextShare, w.opened⟩, []⟩

/-! ### Edits and questions -/

/-- Applies a change. -/
def change (m : Editable) : Edit → Except StepError Editable
  | .setClass old renamed => .ok (m.setClass old renamed)
  | .setClassType old renamed => do
    let old ← readType old
    let renamed ← readType renamed
    (m.setClassType old renamed).mapError .mappings
  | .setMethodName x name => do
    let x ← readMethod x
    pure (m.setMethodName x name)
  | .setMethod x renamed => do
    let x ← readMethod x
    let renamed ← readMethod renamed
    (m.setMethod x renamed).mapError .mappings
  | .setFieldName x name => .ok (m.setFieldName x name)
  | .setField x renamed => (m.setField x renamed).mapError .mappings

/-- Answers a question. -/
def answer (r : Register) : Query → Except StepError Answer
  | .renameClass c => .ok (.renamed (r.contract.renameClass c).text)
  | .renameField x => .ok (.renamed (r.contract.renameField x).internalName)
  | .renameMethod x => do
    let x ← readMethod x
    pure (.renamed (r.contract.renameMethod x).text)
  | .renameType descriptor => do
    let t ← readType descriptor
    pure (.renamed (r.contract.renameType t).descriptor)
  | .renameClassType descriptor => do
    let t ← readType descriptor
    let c ← (r.contract.renameClassType t).mapError .mappings
    pure (.renamed c.text)
  | .listing => .ok (.listing r.contract.listing)
  | .display =>
    match r with
    | .frozen m _ => .ok (.display m.text)
    | .editable m => .ok (.display m.freeze.text)
    | .rules _ => .error .wrongKind
  | .keys =>
    .ok (.keys (r.contract.classes.map ClassName.text)
      (r.contract.fields.map FieldSymbol.internalName) (r.contract.methods.map MethodSymbol.text))
  | .counts =>
    match r with
    | .frozen m _ =>
      .ok (.sizes m.tables.classes.size m.tables.fields.size m.tables.methods.size m.isEmpty)
    | .editable m => .ok (.isEmpty m.isEmpty)
    | .rules _ => .error .wrongKind
  | .check => do
    r.contract.checkTypes.mapError .mappings
    pure .consistent
  | .render format => do
    let f ← readFormat format
    pure (.lines (f.toLines r.contract))
  | .writeLines format lines => do
    let f ← readFormat format
    let outcome := f.writeTo r.contract Sink.lineLimited ⟨lines, []⟩
    pure (.taken outcome.2 (.ofList outcome.1.taken))
  | .writeBytes format capacity => do
    let f ← readFormat format
    let outcome := f.writeBytes r.contract capacity
    pure (.buffer outcome.1 outcome.2)

/-- Whether two registers of one kind have the same entries. -/
def sameEntries : Register → Register → Except StepError Bool
  | .frozen m _, .frozen n _ => .ok (m.sameEntries n)
  | .editable m, .editable n => .ok (m.sameEntries n)
  | _, _ => .error .wrongKind

/-! ### Running steps -/

/-- Runs a step: the workbench after it, and its answer. -/
def run (w : Workbench) : Step → Workbench × Noted (Except StepError Answer)
  | .set target source =>
    let made := w.make source
    match made.value with
    | .error e => (w, ⟨.error e, made.notices⟩)
    | .ok r =>
      let after := w.set target r
      (after.value, ⟨.ok (introduction r), made.notices ++ after.notices⟩)
  | .edit on edit =>
    let edited : Except StepError Editable := do
      match ← w.find on with
      | .editable m => change m edit
      | _ => .error .wrongKind
    match edited with
    | .error e => (w, ⟨.error e, []⟩)
    | .ok m =>
      ({ w with registers := w.registers.insert on (.editable m) },
        ⟨.ok (.listing m.contract.listing), []⟩)
  | .ask on question =>
    (w, ⟨(w.find on).bind fun r => answer r question, []⟩)
  | .equal left right =>
    let result : Except StepError Bool := do
      let l ← w.find left
      let r ← w.find right
      sameEntries l r
    (w, ⟨result.map .equal, []⟩)

/-- Runs steps one after the other. -/
def runAll (w : Workbench) : List Step → List (Noted (Except StepError Answer))
  | [] => []
  | step :: rest =>
    let outcome := w.run step
    outcome.2 :: runAll outcome.1 rest

theorem registers_run_of_error {w : Workbench} {step : Step} {e : StepError}
    (h : (w.run step).2.value = .error e) : (w.run step).1 = w := by
  rcases step with ⟨target, source⟩ | ⟨on, edit⟩ | ⟨on, question⟩ | ⟨left, right⟩
  · simp only [run] at h ⊢
    split at h
    · rfl
    · simp at h
  · simp only [run] at h ⊢
    split at h
    · rfl
    · simp at h
  · rfl
  · rfl

end Workbench

end SymbolRenaming
