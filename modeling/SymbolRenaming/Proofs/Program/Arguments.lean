/-
SymbolRenaming/Proofs/Program/Arguments.lean

Command lines as they are written, and what the reader makes of them.

Design.  An item is an option with its value, or a positional argument.  It can be
written in more than one way: the value of an option is attached to it or follows
it, the option may have a short form, and behind `--` everything is positional
(`Spells`).  The reader makes the same of all of them: it judges the items one after
the other (`Grammar.judge`), and what it is told in the end is the values and the
texts of the items (`told`).

Something that stands alone is judged only when the next argument is read.  This
makes no difference (`readFrom_of_pending`), because whatever that argument is, the
pending item comes first.  It is what allows the induction over the items: behind
each of them the state may be taken to have nothing pending.

Main results: `readAll_of_spells`, `foldlM_judge_of_admits`.
-/
import Mathlib.Data.List.Induction
import SymbolRenaming.Arguments

namespace SymbolRenaming.Arguments

/-! ### Written items -/

/-- An item of a command line. -/
inductive Item where
  | option (w : Switch) (text : String)
  | positional (text : String)

/-- An option that has a value. -/
def Switch.HasValue (w : Switch) : Prop := ∃ isValid repeats, w.effect = .value isValid repeats

/-- Whether a text can stand alone; a text that starts with a dash is read as an
option, unless it is a single dash. -/
def standsAlone (text : String) : Bool :=
  match text.toList with
  | '-' :: _ :: _ => false
  | _ => true

/-- An item that has been read and not been judged. -/
def Item.pending : Item → Pending
  | option w text => .value w text
  | positional text => .positional text

/-- How an item can be written. -/
inductive Item.Spells : Item → List String → Prop
  | attached (w : Switch) (text : String) : Spells (.option w text) ["--" ++ w.name ++ "=" ++ text]
  | following (w : Switch) {text : String} (h : standsAlone text = true) :
      Spells (.option w text) ["--" ++ w.name, text]
  | shortAttached {w : Switch} {c : Char} {cs : List Char} {text : String}
      (hshort : w.short = some c) (h : Grammar.attachment? cs = some text) :
      Spells (.option w text) [String.ofList ('-' :: c :: cs)]
  | shortFollowing {w : Switch} {c : Char} {text : String} (hshort : w.short = some c)
      (h : standsAlone text = true) : Spells (.option w text) [String.ofList ['-', c], text]
  | positional {text : String} (h : standsAlone text = true) : Spells (.positional text) [text]

/-- How items can be written one after the other. -/
inductive Spells : List Item → List String → Prop
  | nil : Spells [] []
  | cons {item : Item} {items : List Item} {arguments rest : List String}
      (hitem : item.Spells arguments) (h : Spells items rest) :
      Spells (item :: items) (arguments ++ rest)
  | literal (texts : List String) : Spells (texts.map .positional) ("--" :: texts)

namespace State

/-- What a command learns from the arguments that were read. -/
def told (s : State) : List (String × String) × List String := (s.given, s.positionals)

/-- The state in which items have been taken. -/
def saying (items : List Item) : State where
  given := items.filterMap fun
    | .option w text => some (w.name, text)
    | .positional _ => none
  positionals := items.filterMap fun
    | .option .. => none
    | .positional text => some text

theorem given_saying_append (items items' : List Item) :
    (saying (items ++ items')).given = (saying items).given ++ (saying items').given :=
  List.filterMap_append

theorem positionals_saying_append (items items' : List Item) :
    (saying (items ++ items')).positionals
      = (saying items).positionals ++ (saying items').positionals :=
  List.filterMap_append

theorem mem_values_saying_iff {items : List Item} {name text : String} :
    text ∈ (saying items).values name ↔ ∃ w, .option w text ∈ items ∧ w.name = name := by
  constructor
  · intro h
    obtain ⟨⟨name', text'⟩, he, rfl⟩ := List.mem_map.1 h
    obtain ⟨hgiven, hname⟩ := List.mem_filter.1 he
    obtain ⟨item, hitem, hsome⟩ := List.mem_filterMap.1 hgiven
    cases item with
    | option w text =>
      cases hsome
      exact ⟨w, hitem, eq_of_beq hname⟩
    | positional text => cases hsome
  · rintro ⟨w, h, rfl⟩
    refine List.mem_map.2 ⟨(w.name, text), List.mem_filter.2 ⟨?_, beq_self_eq_true _⟩, rfl⟩
    exact List.mem_filterMap.2 ⟨_, h, rfl⟩

theorem mem_positionals_saying_iff {items : List Item} {text : String} :
    text ∈ (saying items).positionals ↔ .positional text ∈ items := by
  constructor
  · intro h
    obtain ⟨item, hitem, hsome⟩ := List.mem_filterMap.1 h
    cases item with
    | option w text => cases hsome
    | positional text =>
      cases hsome
      exact hitem
  · intro h
    exact List.mem_filterMap.2 ⟨_, h, rfl⟩

theorem count_given (s : State) (name : String) :
    (s.given.map Prod.fst).count name = (s.values name).length := by
  rw [List.count, List.countP_map, List.countP_eq_length_filter, values, List.length_map]
  rfl

theorem has_eq_false {s : State} {name : String} (h : (s.given.map Prod.fst).count name = 0) :
    s.has name = false := by
  refine List.any_eq_false.2 fun e he hname => List.count_eq_zero.1 h ?_
  rw [← eq_of_beq hname]
  exact List.mem_map_of_mem he

end State

namespace Grammar

/-- The grammar has an option with a value, and finds it under both of its names. -/
structure Offers (g : Grammar) (w : Switch) : Prop where
  named : g.switches.find? (·.name == w.name) = some w
  short : ∀ c, w.short = some c → c ≠ '-' ∧ g.switches.find? (·.short == some c) = some w
  name_ne : w.name.toList ≠ []
  not_mem_name : '=' ∉ w.name.toList
  hasValue : w.HasValue

/-- Judges an item in a state with nothing pending. -/
def judge (g : Grammar) (s : State) : Item → Except Usage State
  | .option w text => accept s w text
  | .positional text =>
    match g.nextTest s with
    | some isValid =>
      if isValid text then .ok { s with positionals := s.positionals ++ [text] } else .error .error
    | none => .error .error

/-- Reads arguments in a state, to their end. -/
def readFrom (g : Grammar) (s : State) (arguments : List String) : Except Usage State :=
  (arguments.foldlM g.step s).bind g.settle

variable {g : Grammar} {s t : State} {w : Switch}

theorem readFrom_cons (argument : String) (rest : List String) :
    g.readFrom s (argument :: rest) = (g.step s argument).bind fun s => g.readFrom s rest := by
  rw [readFrom, List.foldlM_cons]
  rcases g.step s argument with u | t
  · rfl
  · rfl

theorem readAll_eq_readFrom (h : g.commands = []) (arguments : List String) :
    g.readAll arguments = g.readFrom {} arguments := by
  have hscan : ∀ s, g.scan s arguments = (arguments.foldlM g.step s).map fun s => (s, none) := by
    induction arguments with
    | nil =>
      intro s
      rfl
    | cons argument rest ih =>
      intro s
      rw [scan, h, List.foldlM_cons]
      simp only [List.contains_nil, Bool.and_false, Bool.false_eq_true, if_false]
      rcases g.step s argument with u | t
      · rfl
      · exact ih t
  rw [readAll, readFrom, hscan]
  rcases arguments.foldlM g.step {} with u | s
  · rfl
  · rfl

/-! ### Kinds of arguments -/

theorem toList_cases (argument : String) :
    (∃ cs, argument.toList = '-' :: '-' :: cs) ∨
      (∃ c cs, c ≠ '-' ∧ argument.toList = '-' :: c :: cs) ∨ standsAlone argument = true := by
  rw [standsAlone]
  split
  · rename_i c cs h
    by_cases hc : c = '-'
    · exact Or.inl ⟨cs, by rw [h, hc]⟩
    · exact Or.inr (Or.inl ⟨c, cs, hc, h⟩)
  · exact Or.inr (Or.inr rfl)

theorem step_dashes (hl : s.literal = false) :
    g.step s "--" = .ok { s with literal := true } := by
  simp [step, hl]

theorem step_of_long {argument : String} {cs : List Char} (hl : s.literal = false)
    (hne : argument ≠ "--") (h : argument.toList = '-' :: '-' :: cs) :
    g.step s argument = g.readLong s cs := by
  simp [step, hl, hne, h]

theorem step_of_short {argument : String} {c : Char} {cs : List Char} (hl : s.literal = false)
    (hc : c ≠ '-') (h : argument.toList = '-' :: c :: cs) :
    g.step s argument = g.readShort s (c :: cs) := by
  have hne : argument ≠ "--" := by
    rintro rfl
    cases h
    exact hc rfl
  simp [step, hl, hne, h]

/-- What stands alone is the value that is waited for, or positional. -/
theorem step_of_standsAlone {argument : String} (hl : s.literal = false)
    (h : standsAlone argument = true) :
    g.step s argument = match s.pending with
      | .awaiting w => .ok { s with pending := .value w argument }
      | _ => g.readPositional s argument := by
  have hne : argument ≠ "--" := by
    rintro rfl
    cases h
  rw [standsAlone] at h
  simp only [step, hl, Bool.false_eq_true, if_false, if_neg hne]
  split
  · rename_i e
    rw [e] at h
    cases h
  · rename_i e
    rw [e] at h
    cases h
  · rfl

theorem step_of_not_isAwaiting {argument : String} (hl : s.literal = false)
    (ha : s.isAwaiting = false) (h : standsAlone argument = true) :
    g.step s argument = g.readPositional s argument := by
  rw [step_of_standsAlone hl h]
  split
  · rename_i e
    rw [State.isAwaiting, e] at ha
    cases ha
  · rfl

/-! ### What is pending -/

theorem settle_of_calm (h : s.pending = .nothing) : g.settle s = .ok s := by
  rw [settle, h]

/-- An option with a value can be refused in one way only. -/
theorem accept_eq_error (h : w.HasValue) {text : String} {u : Usage}
    (he : accept s w text = .error u) : u = .error := by
  obtain ⟨isValid, repeats, hw⟩ := h
  rw [accept, hw] at he
  dsimp only at he
  split at he
  · cases he
  · cases he
    rfl

theorem accept_eq_ok {text : String} (h : accept s w text = .ok t) :
    t = { s with given := s.given ++ [(w.name, text)] } := by
  rw [accept] at h
  split at h
  · cases h
  · cases h
  · split at h
    · cases h
    · exact (Except.ok.inj h).symm
  · split at h
    · exact (Except.ok.inj h).symm
    · cases h

theorem judge_eq_error {item : Item} {u : Usage}
    (hvalue : ∀ w text, item = .option w text → w.HasValue)
    (h : g.judge s item = .error u) : u = .error := by
  cases item with
  | option w text => exact accept_eq_error (hvalue w text rfl) h
  | positional text =>
    simp only [judge] at h
    split at h
    · split at h
      · cases h
      · cases h
        rfl
    · cases h
      rfl

theorem judge_eq_ok {item : Item} (h : g.judge s item = .ok t) :
    t.pending = s.pending ∧ t.literal = s.literal := by
  cases item with
  | option w text =>
    rw [accept_eq_ok h]
    exact ⟨rfl, rfl⟩
  | positional text =>
    simp only [judge] at h
    split at h
    · split at h
      · cases h
        exact ⟨rfl, rfl⟩
      · cases h
    · cases h

/-- What was pending is not so any more, and options can still follow or not. -/
theorem settle_eq_ok (h : g.settle s = .ok t) : t.pending = .nothing ∧ t.literal = s.literal := by
  rcases hp : s.pending with - | w | ⟨w, text⟩ | text
  · rw [settle_of_calm hp] at h
    cases h
    exact ⟨hp, rfl⟩
  · rw [settle, hp] at h
    cases h
  · rw [settle, hp] at h
    have hjudge : g.judge { s with pending := .nothing } (.option w text) = .ok t := h
    exact judge_eq_ok hjudge
  · rw [settle, hp] at h
    have hjudge : g.judge { s with pending := .nothing } (.positional text) = .ok t := h
    exact judge_eq_ok hjudge

theorem settle_of_settle (h : g.settle s = .ok t) : g.settle t = .ok t :=
  settle_of_calm (settle_eq_ok h).1

/-- Whether options can still follow is not asked when an item is judged. -/
theorem judge_literal (item : Item) : g.judge { s with literal := true } item
    = (g.judge s item).map fun t => { t with literal := true } := by
  cases item with
  | option w text =>
    cases hw : w.effect with
    | help => simp only [judge, accept, hw, Except.map]
    | version => simp only [judge, accept, hw, Except.map]
    | flag =>
      simp only [judge, accept, hw, apply_ite (Except.map _)]
      rfl
    | value isValid repeats =>
      simp only [judge, accept, hw, apply_ite (Except.map _)]
      rfl
  | positional text =>
    simp only [judge, nextTest]
    rcases g.positionals[s.positionals.length]? <|> g.others with - | isValid
    · rfl
    · simp only [apply_ite (Except.map _)]
      rfl

theorem settle_literal : g.settle { s with literal := true }
    = (g.settle s).map fun t => { t with literal := true } := by
  rcases s with ⟨given, positionals, pending, literal⟩
  cases pending with
  | nothing => rfl
  | awaiting w => rfl
  | value w text =>
    exact judge_literal (g := g) (s := ⟨given, positionals, .nothing, literal⟩) (.option w text)
  | positional text =>
    exact judge_literal (g := g) (s := ⟨given, positionals, .nothing, literal⟩) (.positional text)

theorem readPositional_of_pending (argument : String) :
    g.readPositional s argument = (g.settle s).bind fun t => g.readPositional t argument := by
  rw [readPositional]
  rcases h : g.settle s with u | t
  · rfl
  · show _ = g.readPositional t argument
    rw [readPositional, settle_of_settle h]

section Pending

-- nothing is pending that asks for help or for the version
variable (h : ∀ u, g.settle s = .error u → u = .error)
include h

theorem readSwitch_of_pending (attached : Option String) :
    g.readSwitch s w attached = (g.settle s).bind fun t => g.readSwitch t w attached := by
  rcases hs : g.settle s with u | t
  · obtain rfl := h u hs
    simp only [readSwitch, hs]
    split
    · rfl
    · rfl
    · rfl
    · rfl
  · show _ = g.readSwitch t w attached
    simp only [readSwitch, hs, settle_of_settle hs]

theorem readShort_of_pending (c : Char) (cs : List Char) :
    g.readShort s (c :: cs) = (g.settle s).bind fun t => g.readShort t (c :: cs) := by
  rcases hf : g.switches.find? (·.short == some c) with - | w
  · simp only [readShort, hf]
    rcases hs : g.settle s with u | t
    · rw [h u hs]
      rfl
    · rfl
  · -- the first short form is read in what is left when the pending item has been judged
    have hflag : ((g.readSwitch s w none).bind fun s => g.readShort s cs)
        = (g.settle s).bind fun t => (g.readSwitch t w none).bind fun s => g.readShort s cs := by
      rw [readSwitch_of_pending h]
      rcases g.settle s with u | t
      · rfl
      · rfl
    rcases hw : w.effect with - | - | - | ⟨isValid, repeats⟩
    · simp only [readShort, hf, hw, hflag]
    · simp only [readShort, hf, hw, hflag]
    · simp only [readShort, hf, hw, hflag]
    · simp only [readShort, hf, hw]
      exact readSwitch_of_pending h _

theorem readLong_of_pending (cs : List Char) :
    g.readLong s cs = (g.settle s).bind fun t => g.readLong t cs := by
  rcases hf : g.switches.find? (·.name == String.ofList (cs.takeWhile (· ≠ '='))) with - | w
  · simp only [readLong, hf]
    rcases hs : g.settle s with u | t
    · rw [h u hs]
      rfl
    · rfl
  · simp only [readLong, hf]
    rcases cs.dropWhile (· ≠ '=') with - | ⟨c, text⟩
    · exact readSwitch_of_pending h _
    · exact readSwitch_of_pending h _

/-- An argument is read in the state in which the pending item has been judged. -/
theorem step_of_pending (ha : s.isAwaiting = false) {argument : String}
    (hne : s.literal = true ∨ argument ≠ "--") :
    g.step s argument = (g.settle s).bind fun t => g.step t argument := by
  -- the argument is read alike in both states, by one of the three readers
  obtain ⟨reader, hreader, hs, ht⟩ : ∃ reader : State → Except Usage State,
      (reader s = (g.settle s).bind reader) ∧ g.step s argument = reader s ∧
        ∀ t, t.literal = s.literal → t.isAwaiting = false → g.step t argument = reader t := by
    rcases hl : s.literal with - | -
    · have hne : argument ≠ "--" := hne.resolve_left (by rw [hl]; exact Bool.false_ne_true)
      rcases toList_cases argument with ⟨cs, h'⟩ | ⟨c, cs, hc, h'⟩ | h'
      · exact ⟨_, readLong_of_pending h cs, step_of_long hl hne h',
          fun t hl _ => step_of_long hl hne h'⟩
      · exact ⟨_, readShort_of_pending h c cs, step_of_short hl hc h',
          fun t hl _ => step_of_short hl hc h'⟩
      · exact ⟨_, readPositional_of_pending argument, step_of_not_isAwaiting hl ha h',
          fun t hl ha => step_of_not_isAwaiting hl ha h'⟩
    · exact ⟨_, readPositional_of_pending argument, step_of_literal hl argument,
        fun t hl _ => step_of_literal hl argument⟩
  rw [hs, hreader]
  rcases e : g.settle s with u | t
  · rfl
  · obtain ⟨hp, hl⟩ := settle_eq_ok e
    refine (ht t hl ?_).symm
    rw [State.isAwaiting, hp]

/-- What is pending may be judged before the next argument is read. -/
theorem readFrom_of_pending (ha : s.isAwaiting = false) (arguments : List String) :
    g.readFrom s arguments = (g.settle s).bind fun t => g.readFrom t arguments := by
  induction arguments generalizing s with
  | nil =>
    show g.settle s = (g.settle s).bind g.settle
    rcases hs : g.settle s with u | t
    · rfl
    · exact (settle_of_settle hs).symm
  | cons argument rest ih =>
    simp only [readFrom_cons]
    by_cases hne : s.literal = true ∨ argument ≠ "--"
    · rw [step_of_pending h ha hne]
      rcases g.settle s with u | t
      · rfl
      · rfl
    · -- the dashes leave everything pending that is so
      obtain ⟨hl, rfl⟩ : s.literal = false ∧ argument = "--" := by simpa using hne
      have hmark : ∀ t, g.settle s = .ok t → g.step t "--" = .ok { t with literal := true } := by
        intro t ht
        exact step_dashes ((settle_eq_ok ht).2.trans hl)
      rw [step_dashes hl]
      show g.readFrom { s with literal := true } rest = _
      rw [ih (s := { s with literal := true }) ?_ ha, settle_literal]
      · rcases hs : g.settle s with u | t
        · rfl
        · show _ = (g.step t "--").bind _
          rw [hmark t hs]
          rfl
      · intro u hu
        rw [settle_literal] at hu
        rcases hs : g.settle s with u' | t
        · rw [hs] at hu
          cases hu
          exact h _ hs
        · rw [hs] at hu
          cases hu

end Pending

/-! ### Items -/

section Items

theorem readSwitch_some (hw : g.Offers w) (hp : s.pending = .nothing) (text : String) :
    g.readSwitch s w (some text) = accept s w text := by
  obtain ⟨isValid, repeats, hvalue⟩ := hw.hasValue
  simp only [readSwitch, hvalue, settle_of_calm hp]
  rfl

theorem readSwitch_none (hw : g.Offers w) (hp : s.pending = .nothing) :
    g.readSwitch s w none = .ok { s with pending := .awaiting w } := by
  obtain ⟨isValid, repeats, hvalue⟩ := hw.hasValue
  simp only [readSwitch, hvalue, settle_of_calm hp]
  rfl

/-- A long form ends where the argument does or at an equals sign. -/
theorem readLong_name (hw : g.Offers w) {rest : List Char} (h : ∀ c ∈ rest.head?, c = '=') :
    g.readLong s (w.name.toList ++ rest) = g.readSwitch s w (attachment? rest) := by
  have hname : ∀ c ∈ w.name.toList, decide (c ≠ '=') = true := by
    intro c hc
    refine decide_eq_true ?_
    rintro rfl
    exact hw.not_mem_name hc
  have hends : rest.takeWhile (· ≠ '=') = [] ∧ rest.dropWhile (· ≠ '=') = rest := by
    rcases rest with - | ⟨c, rest⟩
    · exact ⟨rfl, rfl⟩
    · obtain rfl := h c rfl
      exact ⟨rfl, rfl⟩
  have htake : (w.name.toList ++ rest).takeWhile (· ≠ '=') = w.name.toList := by
    rw [List.takeWhile_append_of_pos hname, hends.1, List.append_nil]
  have hdrop : (w.name.toList ++ rest).dropWhile (· ≠ '=') = rest := by
    rw [List.dropWhile_append_of_pos hname, hends.2]
  simp only [readLong, htake, hdrop, String.ofList_toList, hw.named]
  rcases rest with - | ⟨c, rest⟩
  · rfl
  · obtain rfl := h c rfl
    rfl

theorem step_long (hw : g.Offers w) (hl : s.literal = false) {argument : String} {rest : List Char}
    (h : argument.toList = '-' :: '-' :: (w.name.toList ++ rest))
    (heq : ∀ c ∈ rest.head?, c = '=') :
    g.step s argument = g.readSwitch s w (attachment? rest) := by
  have hne : argument ≠ "--" := by
    rintro rfl
    have hnil : w.name.toList ++ rest = [] := (List.cons.inj (List.cons.inj h).2).2.symm
    exact hw.name_ne (List.append_eq_nil_iff.1 hnil).1
  rw [step_of_long hl hne h, readLong_name hw heq]

theorem step_short (hw : g.Offers w) (hl : s.literal = false) {c : Char} (hc : w.short = some c)
    (cs : List Char) :
    g.step s (String.ofList ('-' :: c :: cs)) = g.readSwitch s w (attachment? cs) := by
  obtain ⟨hdash, hfind⟩ := hw.short c hc
  obtain ⟨isValid, repeats, hvalue⟩ := hw.hasValue
  rw [step_of_short hl hdash String.toList_ofList]
  simp only [readShort, hfind, hvalue]

theorem settle_item (s : State) (item : Item) :
    g.settle { s with pending := item.pending } = g.judge { s with pending := .nothing } item := by
  cases item with
  | option w text => rfl
  | positional text => rfl

/-- An item that is pending is judged. -/
theorem readFrom_pending (hp : s.pending = .nothing) (item : Item)
    (hvalue : ∀ w text, item = .option w text → w.HasValue) (rest : List String) :
    g.readFrom { s with pending := item.pending } rest
      = (g.judge s item).bind fun s => g.readFrom s rest := by
  have hsettle : g.settle { s with pending := item.pending } = g.judge s item := by
    rw [settle_item, ← hp]
  have hawaiting : ({ s with pending := item.pending } : State).isAwaiting = false := by
    cases item with
    | option w text => rfl
    | positional text => rfl
  rw [readFrom_of_pending _ hawaiting, hsettle]
  intro u hu
  exact judge_eq_error hvalue (hsettle.symm.trans hu)

/-- The value that an option waits for follows it. -/
theorem readFrom_awaiting (hw : g.Offers w) (hp : s.pending = .nothing) (hl : s.literal = false)
    {text : String} (h : standsAlone text = true) (rest : List String) :
    g.readFrom { s with pending := .awaiting w } (text :: rest)
      = (g.judge s (.option w text)).bind fun s => g.readFrom s rest := by
  rw [readFrom_cons, step_of_standsAlone (s := { s with pending := .awaiting w }) hl h]
  refine readFrom_pending hp (.option w text) ?_ rest
  rintro w text ⟨⟩
  exact hw.hasValue

/-- A positional argument is kept pending if there is room for it. -/
theorem readFrom_positional (hp : s.pending = .nothing) (text : String) (rest : List String) :
    (g.readPositional s text).bind (fun s => g.readFrom s rest)
      = (g.judge s (.positional text)).bind fun s => g.readFrom s rest := by
  have hread : g.readPositional s text = match g.nextTest s with
      | some _ => .ok { s with pending := .positional text }
      | none => .error .error := by
    rw [readPositional, settle_of_calm hp]
    rfl
  rcases ht : g.nextTest s with - | isValid
  · simp only [hread, judge, ht]
  · rw [ht] at hread
    rw [hread]
    exact readFrom_pending hp (.positional text) (by simp) rest

/-- An item that is written in one of its ways is judged. -/
theorem readFrom_item {item : Item} {arguments : List String}
    (hw : ∀ w text, item = .option w text → g.Offers w) (hitem : item.Spells arguments)
    (hp : s.pending = .nothing) (hl : s.literal = false) (rest : List String) :
    g.readFrom s (arguments ++ rest) = (g.judge s item).bind fun s => g.readFrom s rest := by
  cases hitem with
  | attached w text =>
    have hw := hw w text rfl
    have hchars : ("--" ++ w.name ++ "=" ++ text).toList
        = '-' :: '-' :: (w.name.toList ++ '=' :: text.toList) := by
      simp [String.toList_append]
    rw [List.singleton_append, readFrom_cons, step_long hw hl hchars (by simp)]
    show (g.readSwitch s w (some (.ofList text.toList))).bind _ = _
    rw [String.ofList_toList, readSwitch_some hw hp]
    rfl
  | @following w text h =>
    have hw := hw w text rfl
    have hchars : ("--" ++ w.name).toList = '-' :: '-' :: (w.name.toList ++ []) := by
      simp [String.toList_append]
    rw [List.cons_append, List.singleton_append, readFrom_cons, step_long hw hl hchars (by simp)]
    show (g.readSwitch s w none).bind _ = _
    rw [readSwitch_none hw hp]
    exact readFrom_awaiting hw hp hl h rest
  | @shortAttached w c cs text hshort h =>
    have hw := hw w text rfl
    rw [List.singleton_append, readFrom_cons, step_short hw hl hshort, h, readSwitch_some hw hp]
    rfl
  | @shortFollowing w c text hshort h =>
    have hw := hw w text rfl
    rw [List.cons_append, List.singleton_append, readFrom_cons, step_short hw hl hshort]
    show (g.readSwitch s w none).bind _ = _
    rw [readSwitch_none hw hp]
    exact readFrom_awaiting hw hp hl h rest
  | @positional text h =>
    have ha : s.isAwaiting = false := by rw [State.isAwaiting, hp]
    rw [List.singleton_append, readFrom_cons, step_of_not_isAwaiting hl ha h]
    exact readFrom_positional hp text rest

end Items

/-! ### Command lines -/

section Lines

variable {items : List Item}

theorem readFrom_literal (hp : s.pending = .nothing) (texts : List String) :
    (g.readFrom { s with literal := true } texts).map State.told
      = ((texts.map Item.positional).foldlM g.judge s).map State.told := by
  induction texts generalizing s with
  | nil =>
    show (g.settle { s with literal := true }).map State.told = _
    rw [settle_of_calm (s := { s with literal := true }) hp]
    rfl
  | cons text rest ih =>
    rw [readFrom_cons, step_of_literal rfl,
      readFrom_positional (s := { s with literal := true }) hp, judge_literal, List.map_cons,
      List.foldlM_cons]
    rcases e : g.judge s (.positional text) with u | t
    · rfl
    · exact ih ((judge_eq_ok e).1.trans hp)

theorem readFrom_of_spells {arguments : List String} (h : Spells items arguments)
    (hw : ∀ w text, .option w text ∈ items → g.Offers w) (hp : s.pending = .nothing)
    (hl : s.literal = false) :
    (g.readFrom s arguments).map State.told = (items.foldlM g.judge s).map State.told := by
  induction h generalizing s with
  | nil =>
    show (g.settle s).map State.told = _
    rw [settle_of_calm hp]
    rfl
  | @cons item items arguments rest hitem h ih =>
    have hfirst : ∀ w text, item = .option w text → g.Offers w := by
      rintro w text rfl
      exact hw w text (List.mem_cons_self ..)
    rw [readFrom_item hfirst hitem hp hl, List.foldlM_cons]
    rcases e : g.judge s item with u | t
    · rfl
    · obtain ⟨hp', hl'⟩ := judge_eq_ok e
      refine ih (fun w text hmem => ?_) (hp'.trans hp) (hl'.trans hl)
      exact hw w text (List.mem_cons_of_mem _ hmem)
  | literal texts =>
    rw [readFrom_cons, step_dashes hl]
    exact readFrom_literal hp texts

/-- **However items are written, the reader judges them in their order.** -/
theorem readAll_of_spells {arguments : List String} (hc : g.commands = [])
    (hw : ∀ w text, .option w text ∈ items → g.Offers w) (h : Spells items arguments) :
    (g.readAll arguments).map State.told = (items.foldlM g.judge {}).map State.told := by
  rw [readAll_eq_readFrom hc]
  exact readFrom_of_spells h hw rfl rfl

/-- A command takes the items: each value passes its test, each option that does not
repeat comes once at most, and any number of positional arguments is taken. -/
structure Admits (g : Grammar) (items : List Item) : Prop where
  option : ∀ w text, .option w text ∈ items → ∃ isValid repeats,
    w.effect = .value isValid repeats ∧ isValid text = true ∧
      (repeats = true ∨ ((State.saying items).given.map Prod.fst).count w.name ≤ 1)
  positionals : g.positionals = []
  others : ∃ isValid, g.others = some isValid ∧
    ∀ text ∈ (State.saying items).positionals, isValid text = true

theorem Admits.of_append {front back : List Item} (h : g.Admits (front ++ back)) :
    g.Admits front := by
  refine ⟨fun w text hmem => ?_, h.positionals, ?_⟩
  · obtain ⟨isValid, repeats, hw, hvalid, hcount⟩ :=
      h.option w text (List.mem_append_left _ hmem)
    refine ⟨isValid, repeats, hw, hvalid, hcount.imp id fun hle => ?_⟩
    rw [State.given_saying_append, List.map_append, List.count_append] at hle
    omega
  · obtain ⟨isValid, ho, hvalid⟩ := h.others
    refine ⟨isValid, ho, fun text hmem => hvalid text ?_⟩
    rw [State.positionals_saying_append]
    exact List.mem_append_left _ hmem

theorem judge_saying {last : Item} (h : g.Admits (items ++ [last])) :
    g.judge (.saying items) last = .ok (.saying (items ++ [last])) := by
  cases last with
  | option w text =>
    obtain ⟨isValid, repeats, hw, hvalid, hcount⟩ := h.option w text (by simp)
    have hnew : (repeats || !(State.saying items).has w.name) = true := by
      rcases hcount with hrepeats | hle
      · rw [hrepeats, Bool.true_or]
      · -- the last one is the one that is counted
        rw [State.given_saying_append, List.map_append, List.count_append] at hle
        have hlast : ((State.saying [.option w text]).given.map Prod.fst).count w.name = 1 := by
          simp [State.saying]
        have hzero : ((State.saying items).given.map Prod.fst).count w.name = 0 := by omega
        rw [State.has_eq_false hzero, Bool.not_false, Bool.or_true]
    simp only [judge, accept, hw, hvalid, hnew]
    simp [State.saying]
  | positional text =>
    obtain ⟨isValid, ho, hvalid⟩ := h.others
    have hnext : g.nextTest (.saying items) = some isValid := by
      rw [nextTest, h.positionals, ho]
      rfl
    have htext : isValid text = true := hvalid text (by simp [State.saying])
    simp only [judge, hnext, htext]
    simp [State.saying]

/-- Items that a command takes are all kept. -/
theorem foldlM_judge_of_admits (h : g.Admits items) :
    items.foldlM g.judge {} = .ok (.saying items) := by
  induction items using List.reverseRecOn with
  | nil => rfl
  | append_singleton items last ih =>
    rw [List.foldlM_append, ih h.of_append]
    show g.judge (.saying items) last >>= pure = _
    rw [judge_saying h]
    rfl

/-- One item that is never taken is enough for all to be refused. -/
theorem foldlM_judge_of_refused {item : Item} (hmem : item ∈ items)
    (hvalue : ∀ w text, .option w text ∈ items → w.HasValue)
    (h : ∀ s, g.judge s item = .error .error) (s : State) :
    items.foldlM g.judge s = .error .error := by
  induction items generalizing s with
  | nil => cases hmem
  | cons first items ih =>
    rw [List.foldlM_cons]
    rcases e : g.judge s first with u | t
    · rw [judge_eq_error (fun w text hw => hvalue w text (hw ▸ List.mem_cons_self ..)) e]
      rfl
    · rcases List.mem_cons.1 hmem with rfl | hmem
      · rw [h] at e
        cases e
      · refine ih hmem (fun w text hmem => ?_) t
        exact hvalue w text (List.mem_cons_of_mem _ hmem)

end Lines

end Grammar

end SymbolRenaming.Arguments
