/-
SymbolRenaming/Proofs/Mappings/History.lean

Editable mappings after a history of changes.

Design.  What a history makes of a symbol is said by the history alone.  A class
becomes what the last change of that class makes it (`classImage`).  A change is
admissible if its types are classes, or if a renamed member that it gives in full
has the types which the classes have at that moment (`Change.Admissible`), and
only the admissible changes of a history count (`accepted`).  A member has the
name of the last of them that is about exactly this member, and every class in it
has its image at the end of the history, however the classes stood when the name
was set.

A change is refused exactly if it is not admissible, and then nothing happens;
otherwise it writes its pair into one of the three tables (`run_eq_put`,
`exists_run_eq_error`).  From these two facts about one change, the tables after a
history follow by induction on the history.

Main result: `follows_history`.
-/
import SymbolRenaming.Proofs.Mappings.Names
import SymbolRenaming.Proofs.Table.Writes

namespace SymbolRenaming

namespace Editable

/-! ### Changes -/

/-- A change of editable mappings. -/
inductive Change where
  | ofClass (old renamed : ClassName)
  | ofClassType (old renamed : VmType)
  | ofMethodName (x : MethodSymbol) (name : String)
  | ofMethod (x renamed : MethodSymbol)
  | ofFieldName (x : FieldSymbol) (name : String)
  | ofField (x renamed : FieldSymbol)
  deriving DecidableEq, Repr

namespace Change

/-- Makes a change. -/
def run (m : Editable) : Change → Except RenamingError Editable
  | ofClass old renamed => .ok (m.setClass old renamed)
  | ofClassType old renamed => m.setClassType old renamed
  | ofMethodName x name => .ok (m.setMethodName x name)
  | ofMethod x renamed => m.setMethod x renamed
  | ofFieldName x name => .ok (m.setFieldName x name)
  | ofField x renamed => m.setField x renamed

/-- The class that a change is about, and what it becomes. -/
def classPair? : Change → Option (ClassName × ClassName)
  | ofClass old renamed => some (old, renamed)
  | ofClassType (.reference old) (.reference renamed) => some (old, renamed)
  | _ => none

/-- The method that a change is about, and its new name. -/
def methodPair? : Change → Option (MethodSymbol × String)
  | ofMethodName x name => some (x, name)
  | ofMethod x renamed => some (x, renamed.name)
  | _ => none

/-- The field that a change is about, and its new name. -/
def fieldPair? : Change → Option (FieldSymbol × String)
  | ofFieldName x name => some (x, name)
  | ofField x renamed => some (x, renamed.name)
  | _ => none

/-- Whether a change fits the classes as they are renamed at the moment. -/
def Admissible (image : ClassName → ClassName) : Change → Prop
  | ofClassType old renamed => old.isReference = true ∧ renamed.isReference = true
  | ofMethod x renamed =>
    renamed.owner = image x.owner ∧ renamed.descriptor = x.descriptor.mapClasses image
  | ofField x renamed => renamed.owner = image x.owner
  | _ => True

instance (image : ClassName → ClassName) : (e : Change) → Decidable (e.Admissible image)
  | ofClass .. | ofMethodName .. | ofFieldName .. => inferInstanceAs (Decidable True)
  | ofClassType .. | ofMethod .. => inferInstanceAs (Decidable (_ ∧ _))
  | ofField .. => inferInstanceAs (Decidable (_ = _))

end Change

/-- The mappings after one more change; a change that is refused leaves them as
they are. -/
def step (m : Editable) (e : Change) : Editable :=
  match e.run m with
  | .ok next => next
  | .error _ => m

/-- The mappings after a history of changes, from nothing. -/
def after (history : List Change) : Editable := history.foldl step .empty

/-! ### What a history says -/

/-- What a class becomes: the target of the last change of that class.  A change
of types that are no classes is about no class, and no other change of a class is
ever refused. -/
def classImage (history : List Change) (c : ClassName) : ClassName :=
  (Entries.last? c (history.filterMap Change.classPair?)).getD c

/-- The admissible changes of a history that continues another one. -/
def acceptedFrom (behind : List Change) : List Change → List Change
  | [] => []
  | e :: rest =>
    if e.Admissible (classImage behind) then e :: acceptedFrom (behind ++ [e]) rest
    else acceptedFrom (behind ++ [e]) rest

/-- The changes of a history that were admissible when they came. -/
def accepted (history : List Change) : List Change := acceptedFrom [] history

/-- The name that the last accepted change of exactly this method gives it. -/
def methodName? (history : List Change) (x : MethodSymbol) : Option String :=
  Entries.last? x ((accepted history).filterMap Change.methodPair?)

/-- The name that the last accepted change of exactly this field gives it. -/
def fieldName? (history : List Change) (x : FieldSymbol) : Option String :=
  Entries.last? x ((accepted history).filterMap Change.fieldPair?)

theorem acceptedFrom_concat (behind history : List Change) (e : Change) :
    acceptedFrom behind (history ++ [e]) = acceptedFrom behind history
      ++ if e.Admissible (classImage (behind ++ history)) then [e] else [] := by
  induction history generalizing behind with
  | nil =>
    rw [List.append_nil]
    simp only [acceptedFrom, List.nil_append]
  | cons x history ih =>
    -- the last change is judged behind all others, wherever they are counted
    have hbehind : behind ++ x :: history = behind ++ [x] ++ history := by simp
    rw [List.cons_append, acceptedFrom, acceptedFrom, ih, ← hbehind]
    split
    · rw [List.cons_append]
    · rfl

theorem accepted_concat (history : List Change) (e : Change) :
    accepted (history ++ [e])
      = accepted history ++ if e.Admissible (classImage history) then [e] else [] :=
  acceptedFrom_concat [] history e

/-! ### One change -/

/-- The mappings with the pair of a change written into their tables. -/
def put (m : Editable) (e : Change) : Editable where
  classes := match e.classPair? with
    | some (old, renamed) => (m.setClass old renamed).classes
    | none => m.classes
  methodNames := m.methodNames.write e.methodPair?
  fieldNames := m.fieldNames.write e.fieldPair?

theorem setClass_eq (m : Editable) (c d : ClassName) :
    m.setClass c d = { m with classes := (m.setClass c d).classes } := by
  rw [setClass]
  split <;> rfl

/-- An admissible change writes its pair. -/
theorem run_eq_put {m : Editable} {e : Change} (h : e.Admissible m.renameClass) :
    e.run m = .ok (m.put e) := by
  cases e with
  | ofClass old renamed => exact congrArg Except.ok (m.setClass_eq old renamed)
  | ofClassType old renamed =>
    obtain ⟨hold, hrenamed⟩ := h
    cases old with
    | reference c =>
      cases renamed with
      | reference d => exact congrArg Except.ok (m.setClass_eq c d)
      | primitive p => cases hrenamed
      | array t => cases hrenamed
    | primitive p => cases hold
    | array t => cases hold
  | ofMethodName x name => rfl
  | ofMethod x renamed =>
    have hagree : m.contract.methodAgrees (x, renamed) = true :=
      MethodSymbol.sameTypes_iff.2 ⟨h.1.symm, h.2.symm⟩
    show m.setMethod x renamed = _
    rw [setMethod, if_pos hagree]
    rfl
  | ofFieldName x name => rfl
  | ofField x renamed =>
    have hagree : m.contract.fieldAgrees (x, renamed) = true := FieldSymbol.sameTypes_iff.2 h.symm
    show m.setField x renamed = _
    rw [setField, if_pos hagree]
    rfl

/-- Any other change is refused. -/
theorem exists_run_eq_error {m : Editable} {e : Change} (h : ¬ e.Admissible m.renameClass) :
    ∃ err, e.run m = .error err := by
  cases e with
  | ofClass old renamed => exact absurd trivial h
  | ofClassType old renamed =>
    cases old with
    | reference c =>
      cases renamed with
      | reference d => exact absurd ⟨rfl, rfl⟩ h
      | primitive p => exact ⟨_, rfl⟩
      | array t => exact ⟨_, rfl⟩
    | primitive p => exact ⟨_, rfl⟩
    | array t => exact ⟨_, rfl⟩
  | ofMethodName x name => exact absurd trivial h
  | ofMethod x renamed =>
    refine ⟨Renaming.methodError (x, renamed), ?_⟩
    show m.setMethod x renamed = _
    rw [setMethod, if_neg]
    intro hagree
    obtain ⟨howner, htypes⟩ := MethodSymbol.sameTypes_iff.1 hagree
    exact h ⟨howner.symm, htypes.symm⟩
  | ofFieldName x name => exact absurd trivial h
  | ofField x renamed =>
    refine ⟨Renaming.fieldError (x, renamed), ?_⟩
    show m.setField x renamed = _
    rw [setField, if_neg]
    intro hagree
    exact h (FieldSymbol.sameTypes_iff.1 hagree).symm

theorem step_eq (m : Editable) (e : Change) :
    m.step e = if e.Admissible m.renameClass then m.put e else m := by
  rw [step]
  split
  · rename_i h hrun
    split
    · rename_i ha
      rw [run_eq_put ha] at hrun
      exact (Except.ok.inj hrun).symm
    · rename_i ha
      obtain ⟨err, herr⟩ := exists_run_eq_error ha
      rw [herr] at hrun
      cases hrun
  · rename_i err hrun
    rw [if_neg]
    intro ha
    rw [run_eq_put ha] at hrun
    cases hrun

/-- A change that is not admissible is about no class. -/
theorem classPair?_eq_none {image : ClassName → ClassName} {e : Change}
    (h : ¬ e.Admissible image) : e.classPair? = none := by
  cases e with
  | ofClass old renamed => exact absurd trivial h
  | ofClassType old renamed =>
    cases old with
    | reference c =>
      cases renamed with
      | reference d => exact absurd ⟨rfl, rfl⟩ h
      | primitive p => rfl
      | array t => rfl
    | primitive p => rfl
    | array t => rfl
  | ofMethodName x name => rfl
  | ofMethod x renamed => rfl
  | ofFieldName x name => rfl
  | ofField x renamed => rfl

theorem classes_step (m : Editable) (e : Change) : (m.step e).classes = (m.put e).classes := by
  rw [step_eq]
  split
  · rfl
  · rename_i h
    show m.classes = match e.classPair? with
      | some (old, renamed) => (m.setClass old renamed).classes
      | none => m.classes
    rw [classPair?_eq_none h]

/-! ### A history of changes -/

theorem after_concat (history : List Change) (e : Change) :
    after (history ++ [e]) = (after history).step e :=
  List.foldl_append

/-- A class becomes what the history says. -/
theorem renameClass_after (history : List Change) (c : ClassName) :
    (after history).renameClass c = classImage history c := by
  induction history using List.reverseRecOn with
  | nil => rfl
  | append_singleton history e ih =>
    -- only the pair of the last change counts, and a refused change has none
    rw [after_concat, classImage, List.filterMap_append]
    show (((after history).step e).classes.get? c).getD c = _
    rw [classes_step, put]
    rcases hpair : e.classPair? with - | ⟨old, renamed⟩
    · show (after history).renameClass c = _
      simp only [List.filterMap_cons, hpair, List.filterMap_nil, List.append_nil]
      exact ih
    · show ((after history).setClass old renamed).renameClass c = _
      rw [renameClass_setClass, ih]
      simp only [List.filterMap_cons, hpair, List.filterMap_nil, Entries.last?_concat]
      split <;> rfl

/-- The changes that are accepted are the admissible ones. -/
theorem step_after (history : List Change) (e : Change) :
    (after history).step e
      = if e.Admissible (classImage history) then (after history).put e else after history := by
  rw [step_eq, funext (renameClass_after history)]

/-! ### The tables of names -/

section Names

variable {α : Type} [DecidableEq α] (names : Editable → Table α String)
  {pair? : Change → Option (α × String)} (hempty : names .empty = .empty)
  (hput : ∀ m e, names (m.put e) = (names m).write (pair? e))
include hempty hput

/-- A table that takes the pairs of the changes has the last accepted ones. -/
theorem get?_names_after (history : List Change) (x : α) :
    (names (after history)).get? x = Entries.last? x ((accepted history).filterMap pair?) := by
  induction history using List.reverseRecOn generalizing x with
  | nil =>
    show (names .empty).get? x = none
    rw [hempty]
    rfl
  | append_singleton history e ih =>
    -- the change is written exactly if it is accepted
    rw [after_concat, step_after, accepted_concat]
    split
    · rw [hput]
      exact Table.get?_write pair? _ _ ih e x
    · rw [List.append_nil]
      exact ih x

omit hempty in
/-- A new key comes in behind the others. -/
theorem keys_names_step (history : List Change) (e : Change) :
    List.Sublist (names (after (history ++ [e]))).keys (names (after history)).keys ∨
      ∃ x, x ∉ (names (after history)).keys ∧
        (names (after (history ++ [e]))).keys = (names (after history)).keys ++ [x] := by
  rw [after_concat, step_after]
  split
  · rw [hput]
    exact Table.keys_write _ _
  · exact Or.inl (List.Sublist.refl _)

end Names

/-- The new names of methods are those that the history says. -/
theorem get?_methodNames_after (history : List Change) (x : MethodSymbol) :
    (after history).methodNames.get? x = methodName? history x :=
  get?_names_after methodNames rfl (fun _ _ => rfl) history x

/-- The new names of fields are those that the history says. -/
theorem get?_fieldNames_after (history : List Change) (x : FieldSymbol) :
    (after history).fieldNames.get? x = fieldName? history x :=
  get?_names_after fieldNames rfl (fun _ _ => rfl) history x

/-- What a method becomes: each of its classes becomes what the history says, and
it has the name that the history says, or its own. -/
def methodImage (history : List Change) (x : MethodSymbol) : MethodSymbol where
  owner := classImage history x.owner
  name := (methodName? history x).getD x.name
  descriptor := x.descriptor.mapClasses (classImage history)

/-- What a field becomes. -/
def fieldImage (history : List Change) (x : FieldSymbol) : FieldSymbol where
  owner := classImage history x.owner
  name := (fieldName? history x).getD x.name

theorem renameMethod_after (history : List Change) (x : MethodSymbol) :
    (after history).renameMethod x = methodImage history x := by
  rw [renameMethod_eq, get?_methodNames_after, funext (renameClass_after history)]
  rfl

theorem renameField_after (history : List Change) (x : FieldSymbol) :
    (after history).renameField x = fieldImage history x := by
  rw [renameField_eq, get?_fieldNames_after, funext (renameClass_after history)]
  rfl

/-! ### The keys and their order -/

/-- The keys that are live after a history: each stands there once, in the order
of the changes that brought them in for good. -/
structure Enumerates {α : Type} (live : α → List Change → Prop) (history : List Change)
    (keys : List α) : Prop where
  nodup : keys.Nodup
  mem_iff : ∀ x, x ∈ keys ↔ live x history
  ordered : keys.Pairwise fun x y => ∃ i j, i < j ∧
    EnteredAt (live x) history i ∧ EnteredAt (live y) history j

theorem Enumerates.of_steps {α : Type} {live : α → List Change → Prop}
    (keysAfter : List Change → List α) (hnodup : ∀ history, (keysAfter history).Nodup)
    (hmem : ∀ history x, x ∈ keysAfter history ↔ live x history) (hnil : keysAfter [] = [])
    (hstep : ∀ history e, List.Sublist (keysAfter (history ++ [e])) (keysAfter history) ∨
      ∃ k, k ∉ keysAfter history ∧ keysAfter (history ++ [e]) = keysAfter history ++ [k])
    (history : List Change) : Enumerates live history (keysAfter history) where
  nodup := hnodup history
  mem_iff := hmem history
  ordered := by
    have hlive : ∀ x, (x ∈ keysAfter ·) = live x :=
      fun x => funext fun history => propext (hmem history x)
    have h := pairwise_enteredAt hnil hstep history
    simp only [hlive] at h
    exact h

/-- No class is listed with its own name. -/
theorem ne_of_mem_classes_after (history : List Change) :
    ∀ e ∈ (after history).classes.entries, e.1 ≠ e.2 := by
  induction history using List.reverseRecOn with
  | nil => simp [after, empty, Table.empty]
  | append_singleton history x ih =>
    intro e he
    rw [after_concat, classes_step, put] at he
    rcases hpair : x.classPair? with - | ⟨old, renamed⟩
    · simp only [hpair] at he
      exact ih e he
    · -- a class that is given its own name is taken out
      simp only [hpair, setClass] at he
      split at he
      · exact ih e (List.mem_filter.1 he).1
      · rename_i hne
        rcases Table.mem_of_mem_entries_insert he with rfl | he
        · exact hne
        · exact ih e he

theorem mem_keys_classes_after (history : List Change) (c : ClassName) :
    c ∈ (after history).classes.keys ↔ classImage history c ≠ c := by
  rw [← renameClass_after, renameClass, Table.mem_keys_iff_isSome]
  rcases hget : (after history).classes.get? c with - | d
  · simp
  · have hne : c ≠ d := ne_of_mem_classes_after history (c, d) (Table.get?_eq_some_iff.1 hget)
    simp [Ne.symm hne]

/-- A class loses its place when it is given its own name, and no other change
touches the order. -/
theorem keys_classes_step (history : List Change) (e : Change) :
    List.Sublist (after (history ++ [e])).classes.keys (after history).classes.keys ∨
      ∃ c, c ∉ (after history).classes.keys ∧
        (after (history ++ [e])).classes.keys = (after history).classes.keys ++ [c] := by
  rw [after_concat, classes_step, put]
  rcases e.classPair? with - | ⟨old, renamed⟩
  · exact Or.inl (List.Sublist.refl _)
  · simp only [setClass]
    split
    · rw [Table.keys_erase]
      exact Or.inl List.filter_sublist
    · exact Table.keys_write (after history).classes (some (old, renamed))

theorem enumerates_classes (history : List Change) :
    Enumerates (fun c history => classImage history c ≠ c) history
      (after history).contract.classes :=
  .of_steps (fun history => (after history).classes.keys)
    (fun _ => Table.nodup_keys _) mem_keys_classes_after rfl keys_classes_step history

theorem enumerates_methods (history : List Change) :
    Enumerates (fun x history => (methodName? history x).isSome = true) history
      (after history).contract.methods := by
  refine .of_steps (fun history => (after history).methodNames.keys)
    (fun _ => Table.nodup_keys _) (fun history x => ?_) rfl (fun history e => ?_) history
  · rw [Table.mem_keys_iff_isSome, get?_methodNames_after]
  · exact keys_names_step methodNames (fun _ _ => rfl) history e

theorem enumerates_fields (history : List Change) :
    Enumerates (fun x history => (fieldName? history x).isSome = true) history
      (after history).contract.fields := by
  refine .of_steps (fun history => (after history).fieldNames.keys)
    (fun _ => Table.nodup_keys _) (fun history x => ?_) rfl (fun history e => ?_) history
  · rw [Table.mem_keys_iff_isSome, get?_fieldNames_after]
  · exact keys_names_step fieldNames (fun _ _ => rfl) history e

/-! ### The history decides -/

/-- A member has its renamed types, whatever the classes are. -/
theorem checkTypes_contract (m : Editable) : m.contract.checkTypes = .ok () := by
  rw [Renaming.checkTypes_eq_ok_iff]
  constructor
  · intro x _
    show m.renameClass x.owner = (m.renameField x).owner
    rw [renameField_eq]
    rfl
  · intro x _
    show m.renameClass x.owner = (m.renameMethod x).owner ∧
      x.descriptor.mapClasses m.renameClass = (m.renameMethod x).descriptor
    rw [renameMethod_eq]
    exact ⟨rfl, rfl⟩

theorem run_after {history : List Change} {e : Change} (h : e.Admissible (classImage history)) :
    e.run (after history) = .ok (after (history ++ [e])) := by
  rw [after_concat, step_after, if_pos h]
  refine run_eq_put ?_
  rw [funext (renameClass_after history)]
  exact h

theorem run_after_refused {history : List Change} {e : Change}
    (h : ¬ e.Admissible (classImage history)) :
    (∃ err, e.run (after history) = .error err) ∧ after (history ++ [e]) = after history := by
  rw [after_concat, step_after, if_neg h]
  refine ⟨exists_run_eq_error ?_, rfl⟩
  rw [funext (renameClass_after history)]
  exact h

/-- **Editable mappings follow their history.**  After every history of changes,
each symbol becomes what the history says it becomes.  A change that is not
admissible is refused and changes nothing, any other one is made, and a method or
field that is given in full then becomes exactly this.  No class is listed with its
own name, the types of all members agree, and the tables list the live keys in the
order in which they came in. -/
theorem follows_history (history : List Change) :
    ((∀ c, (after history).contract.renameClass c = classImage history c) ∧
      (∀ x, (after history).contract.renameMethod x = methodImage history x) ∧
      ∀ x, (after history).contract.renameField x = fieldImage history x) ∧
    ((∀ e : Change, ¬ e.Admissible (classImage history) →
        (∃ err, e.run (after history) = .error err) ∧ after (history ++ [e]) = after history) ∧
      (∀ e : Change, e.Admissible (classImage history) →
        e.run (after history) = .ok (after (history ++ [e]))) ∧
      (∀ x y m, (Change.ofMethod x y).run (after history) = .ok m →
        m.contract.renameMethod x = y) ∧
      ∀ x y m, (Change.ofField x y).run (after history) = .ok m →
        m.contract.renameField x = y) ∧
    (∀ e ∈ (after history).classes.entries, e.1 ≠ e.2) ∧
    (after history).contract.checkTypes = .ok () ∧
    Enumerates (fun c history => classImage history c ≠ c) history
      (after history).contract.classes ∧
    Enumerates (fun x history => (methodName? history x).isSome = true) history
      (after history).contract.methods ∧
    Enumerates (fun x history => (fieldName? history x).isSome = true) history
      (after history).contract.fields := by
  refine ⟨⟨renameClass_after history, renameMethod_after history, renameField_after history⟩,
    ⟨fun e he => run_after_refused he, fun e he => run_after he, ?_, ?_⟩,
    ne_of_mem_classes_after history, checkTypes_contract _, enumerates_classes history,
    enumerates_methods history, enumerates_fields history⟩
  · intro x y m h
    exact renameMethod_setMethod h
  · intro x y m h
    exact renameField_setField h

/-- A method of class `a` that takes an `a`. -/
def taking (a : ClassName) (name : String) : MethodSymbol :=
  ⟨a, name, ⟨[.reference a], .primitive .void⟩⟩

/-- The third change does not know that `a` is `b`, and the last two take `a` out
and bring it in again. -/
def returning : List Change :=
  [.ofClass ⟨"a"⟩ ⟨"b"⟩, .ofMethod (taking ⟨"a"⟩ "f") (taking ⟨"b"⟩ "g"),
    .ofMethod (taking ⟨"a"⟩ "f") (taking ⟨"a"⟩ "h"), .ofClass ⟨"c"⟩ ⟨"d"⟩,
    .ofClass ⟨"a"⟩ ⟨"a"⟩, .ofClass ⟨"a"⟩ ⟨"e"⟩]

theorem follows_history_returning :
    after (returning.take 3) = after (returning.take 2) ∧
    (after returning).contract.renameMethod (taking ⟨"a"⟩ "f") = taking ⟨"e"⟩ "g" ∧
    (after returning).contract.classes = [⟨"c"⟩, ⟨"a"⟩] ∧
    EnteredAt (fun history => classImage history ⟨"a"⟩ ≠ ⟨"a"⟩) returning 5 := by
  obtain ⟨-, ⟨hrefused, -⟩, -⟩ := follows_history (returning.take 2)
  obtain ⟨⟨-, hmethod, -⟩, -⟩ := follows_history returning
  refine ⟨?_, ?_, rfl, ?_⟩
  · exact (hrefused (.ofMethod (taking ⟨"a"⟩ "f") (taking ⟨"a"⟩ "h")) (by decide)).2
  · exact (hmethod _).trans (by decide)
  · constructor
    · decide
    · decide
    · intro j hlt hle
      have hlength : returning.length = 6 := rfl
      obtain rfl : j = 6 := by omega
      decide

end Editable

end SymbolRenaming
