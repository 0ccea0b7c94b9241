/-
SymbolRenaming/Proofs/LogFilter/Environment.lean

What the environment changes of a configured log filter.

Design.  The directives of the environment are put behind the configured ones, and the
whole is read as one text.  It is cut at commas, and a comma stands between the two
parts, so that the whole holds the directives of both, and can be read exactly if both
parts can (`read?_join`).  Hence the fallbacks: what spoils the whole is either part, and
only the configured part is read again.

How directives decide about an event is said twice.  A filter goes through them and keeps
the better one (`deciding`).  The rule behind it looks at all of them at once: of those
whose target begins the target of the event the longest, and of equals the last
(`Longest`).  The rule is the easier one to compose: the longest directive of two lists
together is the longer one of those of each list, and of equals that of the second list
(`Longest.append`), and a filter that goes through its directives composes a list with
one directive after the other.  Directives that ask for a field are ranked by their fields
as well; the rule is one of targets alone (`AskForNoField`).

Main result: `environment_overrides`.
-/
import Mathlib.Data.List.Forall2
import Mathlib.Data.List.Induction
import SymbolRenaming.LogFilter
import SymbolRenaming.Proofs.Basic
import SymbolRenaming.Proofs.Text.Pieces

namespace SymbolRenaming.LogFilter

open Text

variable {ds es : List Directive} {e : Event} {c d : Option Directive}

/-! ### The longest directive -/

/-- Whether a directive is about the target of an event.  No span is ever open, so a
directive for a span is about nothing. -/
def Directive.Matches (d : Directive) (e : Event) : Prop :=
  d.target <+: e.target ∧ d.span = none

instance (d : Directive) (e : Event) : Decidable (d.Matches e) :=
  inferInstanceAs (Decidable (_ ∧ _))

/-- Directives that set limits by targets alone: none of them asks for a field. -/
def AskForNoField (ds : List Directive) : Prop := ∀ d ∈ ds, d.field = none

theorem askForNoField_append_iff :
    AskForNoField (ds ++ es) ↔ AskForNoField ds ∧ AskForNoField es :=
  List.forall_mem_append

/-- The directive that decides about an event by its target: the longest one that
matches, and of equals the last. -/
inductive Longest (ds : List Directive) (e : Event) : Option Directive → Prop
  | absent (hnone : ∀ d ∈ ds, ¬ d.Matches e) : Longest ds e none
  | present (before after : List Directive) {d : Directive} (hds : ds = before ++ d :: after)
      (hmatch : d.Matches e)
      (hbefore : ∀ b ∈ before, b.Matches e → b.target.length ≤ d.target.length)
      (hafter : ∀ a ∈ after, a.Matches e → a.target.length < d.target.length) :
      Longest ds e (some d)

/-- Of a directive and a later one, the later one if it is at least as long. -/
def overriding : Option Directive → Option Directive → Option Directive
  | c, none => c
  | none, some d => some d
  | some c, some d => if c.target.length ≤ d.target.length then some d else some c

namespace Longest

theorem mem {d : Directive} (h : Longest ds e (some d)) : d ∈ ds := by
  cases h with
  | present before after hds _ _ _ =>
    rw [hds]
    exact List.mem_append_right _ (List.mem_cons_self ..)

theorem matches_event {d : Directive} (h : Longest ds e (some d)) : d.Matches e := by
  cases h with
  | present _ _ _ hmatch _ _ => exact hmatch

theorem not_matches {d : Directive} (h : Longest ds e none) (hd : d ∈ ds) : ¬ d.Matches e := by
  cases h with
  | absent hnone => exact hnone d hd

theorem length_le {d b : Directive} (h : Longest ds e (some d)) (hb : b ∈ ds)
    (hmatch : b.Matches e) : b.target.length ≤ d.target.length := by
  cases h with
  | present before after hds _ hbefore hafter =>
    rw [hds] at hb
    rcases List.mem_append.1 hb with hb | hb
    · exact hbefore b hb hmatch
    · rcases List.mem_cons.1 hb with rfl | hb
      · exact Nat.le_refl _
      · exact Nat.le_of_lt (hafter b hb hmatch)

/-- What stands behind the longest directive is shorter, so that one that is as long and
does not stand before it is the same. -/
theorem eq_of_split {rest after after' : List Directive} {d d' : Directive}
    (hsplit : d :: after = rest ++ d' :: after')
    (hafter : ∀ a ∈ after, a.Matches e → a.target.length < d.target.length)
    (hmatch : d'.Matches e) (hle : d.target.length ≤ d'.target.length) : d = d' := by
  rcases rest with - | ⟨r, rest⟩
  · exact (List.cons.inj hsplit).1
  · have hmem : d' ∈ after := by
      rw [(List.cons.inj hsplit).2]
      exact List.mem_append_right _ (List.mem_cons_self ..)
    exact absurd (hafter d' hmem hmatch) (Nat.not_lt.2 hle)

theorem eq_of_some {d d' : Directive} (h : Longest ds e (some d)) (h' : Longest ds e (some d')) :
    d = d' := by
  have hle := h'.length_le h.mem h.matches_event
  have hle' := h.length_le h'.mem h'.matches_event
  cases h with
  | present before after hds hmatch _ hafter =>
    cases h' with
    | present before' after' hds' hmatch' _ hafter' =>
      -- whichever of the two stands first, the other one does not stand before it
      rcases List.append_eq_append_iff.1 (hds.symm.trans hds') with
        ⟨rest, -, hsplit⟩ | ⟨rest, -, hsplit⟩
      · exact eq_of_split hsplit hafter hmatch' hle
      · exact (eq_of_split hsplit hafter' hmatch hle').symm

/-- There is one longest directive at most. -/
theorem unique (hc : Longest ds e c) (hd : Longest ds e d) : c = d := by
  rcases c with - | c
  · rcases d with - | d
    · rfl
    · exact absurd hd.matches_event (hc.not_matches hd.mem)
  · rcases d with - | d
    · exact absurd hc.matches_event (hd.not_matches hc.mem)
    · rw [hc.eq_of_some hd]

theorem append_left {c : Directive} (h : Longest ds e (some c))
    (hlt : ∀ a ∈ es, a.Matches e → a.target.length < c.target.length) :
    Longest (ds ++ es) e (some c) := by
  cases h with
  | present before after hds hmatch hbefore hafter =>
    refine .present before (after ++ es) ?_ hmatch hbefore ?_
    · rw [hds, List.append_assoc, List.cons_append]
    · intro a ha hm
      rcases List.mem_append.1 ha with ha | ha
      · exact hafter a ha hm
      · exact hlt a ha hm

theorem append_right {d : Directive} (h : Longest es e (some d))
    (hle : ∀ b ∈ ds, b.Matches e → b.target.length ≤ d.target.length) :
    Longest (ds ++ es) e (some d) := by
  cases h with
  | present before after hes hmatch hbefore hafter =>
    refine .present (ds ++ before) after ?_ hmatch ?_ hafter
    · rw [hes, List.append_assoc]
    · intro b hb hm
      rcases List.mem_append.1 hb with hb | hb
      · exact hle b hb hm
      · exact hbefore b hb hm

/-- The longest directive of two lists together. -/
theorem append (hc : Longest ds e c) (hd : Longest es e d) :
    Longest (ds ++ es) e (overriding c d) := by
  rcases c with - | c
  · rcases d with - | d
    · refine .absent fun x hx => ?_
      rcases List.mem_append.1 hx with hx | hx
      · exact hc.not_matches hx
      · exact hd.not_matches hx
    · exact hd.append_right fun b hb hm => absurd hm (hc.not_matches hb)
  · rcases d with - | d
    · exact hc.append_left fun a ha hm => absurd hm (hd.not_matches ha)
    · rw [overriding]
      split
      · rename_i hle
        exact hd.append_right fun b hb hm => Nat.le_trans (hc.length_le hb hm) hle
      · rename_i hlt
        exact hc.append_left fun a ha hm =>
          Nat.lt_of_le_of_lt (hd.length_le ha hm) (Nat.lt_of_not_le hlt)

end Longest

/-! ### The directive that is kept -/

theorem Directive.applies_iff {d : Directive} (h : d.field = none) :
    d.applies e = true ↔ d.Matches e := by
  simp [applies, Matches, h]

theorem Directive.yieldsTo_iff {c d : Directive} (h : c.field = none) :
    c.yieldsTo d = true ↔ c.target.length ≤ d.target.length := by
  simp only [yieldsTo, h, fieldYieldsTo, Bool.and_true, Bool.or_eq_true, decide_eq_true_eq,
    beq_iff_eq]
  exact Nat.le_iff_lt_or_eq.symm

/-- One more directive is kept if it applies and is at least as long. -/
theorem better_eq {best : Option Directive} {d : Directive}
    (h : ∀ b ∈ best, b.field = none) :
    better e best d = overriding best (if d.applies e then some d else none) := by
  unfold better
  split
  · rcases best with - | b
    · rfl
    · have hb : b.field = none := h b rfl
      simp only [overriding, Directive.yieldsTo_iff hb]
  · cases best <;> rfl

theorem longest_singleton {d : Directive} (h : d.field = none) :
    Longest [d] e (if d.applies e then some d else none) := by
  split
  · rename_i ha
    exact .present [] [] rfl ((d.applies_iff h).1 ha) (by simp) (by simp)
  · rename_i ha
    refine .absent fun x hx => ?_
    rw [List.mem_singleton.1 hx, ← Directive.applies_iff h]
    exact ha

/-- The directive that a filter keeps is the longest one. -/
theorem longest_deciding (h : AskForNoField ds) : Longest ds e (deciding ds e) := by
  -- the directive that is looked at last is split off, as a list of its own
  induction ds using List.reverseRecOn with
  | nil => exact .absent (by simp)
  | append_singleton ds d ih =>
    obtain ⟨hds, hd⟩ := askForNoField_append_iff.1 h
    have hkeeps : Longest ds e (deciding ds e) := ih hds
    have hkept : deciding (ds ++ [d]) e = better e (deciding ds e) d := by
      rw [deciding, List.foldl_append]
      rfl
    rw [hkept, better_eq]
    · exact hkeeps.append (longest_singleton (hd d (List.mem_singleton.2 rfl)))
    · -- what was kept before is one of the directives
      intro b hb
      rw [Option.mem_def.1 hb] at hkeeps
      exact hds b hkeeps.mem

/-- Of two lists together, a filter keeps what it keeps of either one. -/
theorem deciding_append (h : AskForNoField (ds ++ es)) :
    deciding (ds ++ es) e = overriding (deciding ds e) (deciding es e) := by
  obtain ⟨hds, hes⟩ := askForNoField_append_iff.1 h
  exact (longest_deciding h).unique ((longest_deciding hds).append (longest_deciding hes))

/-! ### Directives in a text -/

/-- The segments of a text between its commas. -/
structure Segments (text : String) (segments : List (List Char)) : Prop where
  joined : text.toList = [','].intercalate segments
  ne_nil : segments ≠ []
  not_mem : ∀ segment ∈ segments, ',' ∉ segment

/-- A text holds directives: they are what its segments say, the empty ones left out. -/
def Holds (text : String) (ds : List Directive) : Prop :=
  ∃ segments, Segments text segments ∧
    List.Forall₂ (fun segment d => readDirective? segment = some d)
      (segments.filter (!·.isEmpty)) ds

/-- A text holds something that is no directive. -/
def HoldsInvalid (text : String) : Prop :=
  ∃ segments, Segments text segments ∧
    ∃ segment ∈ segments, segment ≠ [] ∧ readDirective? segment = none

variable {text : String} {segments : List (List Char)}

theorem segments_pieces (text : String) : Segments text (pieces (· == ',') text.toList) where
  joined := (intercalate_pieces ',' text.toList).symm
  ne_nil := pieces_ne_nil _ _
  not_mem := by
    intro segment hs hmem
    have hfree := not_isSep_of_mem_pieces hs ',' hmem
    rw [beq_self_eq_true] at hfree
    cases hfree

theorem Segments.pieces_eq (h : Segments text segments) :
    pieces (· == ',') text.toList = segments := by
  have hjoins : Joins (· == ',') segments text.toList := by
    rw [h.joined]
    exact joins_intercalate rfl segments
  refine hjoins.pieces_eq h.ne_nil fun segment hs c hc => beq_eq_false_iff_ne.2 ?_
  rintro rfl
  exact h.not_mem segment hs hc

theorem read?_eq_some_iff : read? text.toList = some ds ↔ Holds text ds := by
  rw [read?, mapM_eq_some_iff]
  constructor
  · intro h
    exact ⟨_, segments_pieces text, h⟩
  · rintro ⟨segments, hsegments, h⟩
    rw [hsegments.pieces_eq]
    exact h

theorem read?_eq_none_iff : read? text.toList = none ↔ HoldsInvalid text := by
  rw [read?, mapM_eq_none_iff]
  constructor
  · rintro ⟨segment, hs, hnone⟩
    obtain ⟨hs, hne⟩ := List.mem_filter.1 hs
    exact ⟨_, segments_pieces text, segment, hs, by simpa using hne, hnone⟩
  · rintro ⟨segments, hsegments, segment, hs, hne, hnone⟩
    rw [hsegments.pieces_eq]
    exact ⟨segment, List.mem_filter.2 ⟨hs, by simpa using hne⟩, hnone⟩

theorem Holds.unique (hds : Holds text ds) (hes : Holds text es) : ds = es := by
  have hread := read?_eq_some_iff.2 hds
  rw [read?_eq_some_iff.2 hes] at hread
  exact (Option.some.inj hread).symm

theorem exists_holds_iff : (∃ ds, Holds text ds) ↔ ¬ HoldsInvalid text := by
  simp only [← read?_eq_some_iff, ← read?_eq_none_iff]
  exact Option.ne_none_iff_exists'.symm

/-- A comma between two texts keeps their directives apart. -/
theorem read?_join (a b : String) :
    read? (a ++ "," ++ b).toList
      = (read? a.toList).bind fun ds => (read? b.toList).map (ds ++ ·) := by
  have hchars : (a ++ "," ++ b).toList = a.toList ++ ',' :: b.toList := by simp
  have hcut : pieces (· == ',') (a ++ "," ++ b).toList
      = pieces (· == ',') a.toList ++ pieces (· == ',') b.toList := by
    rw [hchars]
    exact pieces_append rfl _ _
  rw [read?, hcut, List.filter_append, List.mapM_append, ← read?, ← read?]
  rcases read? a.toList with - | ds
  · rfl
  · rcases read? b.toList with - | es
    · rfl
    · rfl

/-! ### The filter in effect -/

variable {level : String} {environment : Option String}

/-- An environment from which nothing is taken: it is unset, blank, or holds something
that is no directive.  Blanks around the text do not count. -/
inductive IsIgnored : Option String → Prop
  | unset : IsIgnored none
  | blank {text : String} (h : ∀ c ∈ text.toList, isBlank c = true) : IsIgnored (some text)
  | invalid {text : String} (h : HoldsInvalid (trimmed text)) : IsIgnored (some text)

theorem trimmed_of_blank {text : String} (h : ∀ c ∈ text.toList, isBlank c = true) :
    trimmed text = "" := by
  have hempty : ∀ c ∈ ([] : List Char), isBlank c = true := by simp
  have hnil : trimBy isBlank text.toList = [] := by
    have happend := trimBy_append h hempty []
    rw [List.append_nil, List.append_nil] at happend
    exact happend
  rw [trimmed, trim_eq_trimBy, hnil]

/-- The directives of the environment stand behind the configured ones.  A blank text
needs no case of its own, since it holds no directives. -/
theorem effective_some (level text : String) :
    effective level (some text)
      = (read? (directivesText level ++ "," ++ trimmed text).toList).getD (configured level) := by
  rw [effective]
  split
  · rename_i hempty
    have hread : read? (trimmed text).toList = some [] := by
      rw [String.isEmpty_iff.1 hempty]
      rfl
    rw [read?_join, hread, configured]
    rcases read? (directivesText level).toList with - | ds
    · rfl
    · simp
  · rfl

theorem configured_of_holds (h : Holds (directivesText level) ds) : configured level = ds := by
  rw [configured, read?_eq_some_iff.2 h]
  rfl

theorem configured_of_invalid (h : HoldsInvalid (directivesText level)) :
    configured level = [.everywhere (some .warn)] := by
  rw [configured, read?_eq_none_iff.2 h]
  rfl

theorem effective_of_invalid (h : HoldsInvalid (directivesText level)) :
    effective level environment = configured level := by
  rcases environment with - | text
  · rfl
  · rw [effective_some, read?_join, read?_eq_none_iff.2 h, Option.bind_none, Option.getD_none]

theorem effective_of_isIgnored (h : IsIgnored environment) :
    effective level environment = configured level := by
  cases h with
  | unset => rfl
  | blank h =>
    -- a text of blanks is one that is left out before anything is read
    refine effective_of_blank ?_
    rw [trimmed_of_blank h]
    rfl
  | invalid h =>
    refine effective_of_unreadable ?_
    rw [read?_join, read?_eq_none_iff.2 h]
    rcases read? (directivesText level).toList with - | ds
    · rfl
    · rfl

/-- An environment that is not ignored holds directives. -/
theorem exists_holds_of_taken (h : ¬ IsIgnored environment) :
    ∃ text es, environment = some text ∧ Holds (trimmed text) es := by
  rcases environment with - | text
  · exact absurd .unset h
  · obtain ⟨es, hes⟩ := exists_holds_iff.2 fun hinvalid => h (.invalid hinvalid)
    exact ⟨text, es, rfl, hes⟩

theorem effective_of_holds (hds : Holds (directivesText level) ds) (hes : Holds (trimmed text) es) :
    effective level (some text) = ds ++ es := by
  rw [effective_some, read?_join, read?_eq_some_iff.2 hds, read?_eq_some_iff.2 hes]
  rfl

/-- **The environment overrides the configured filter and never breaks it.**  Where the
configured directives are invalid, all events down to warnings are reported.  Else an
environment that is unset, blank or invalid changes nothing, and the directives of any
other one stand behind the configured ones: by targets, its longest directive decides
about an event if that is at least as long as the longest configured one, which decides
otherwise. -/
theorem environment_overrides (level : String) (environment : Option String) (e : Event) :
    (HoldsInvalid (directivesText level) →
      limitOf (effective level environment) e = some .warn) ∧
    (¬ HoldsInvalid (directivesText level) →
      ∃ ds, Holds (directivesText level) ds ∧
        (IsIgnored environment → limitOf (effective level environment) e = limitOf ds e) ∧
        (¬ IsIgnored environment →
          ∃ text es, environment = some text ∧ Holds (trimmed text) es ∧
            effective level environment = ds ++ es ∧
            (AskForNoField (ds ++ es) →
              ∃ c d, Longest ds e c ∧ Longest es e d ∧
                limitOf (effective level environment) e
                  = (overriding c d).bind Directive.limit))) := by
  constructor
  · intro hinvalid
    rw [effective_of_invalid hinvalid, configured_of_invalid hinvalid]
    rfl
  · intro hvalid
    obtain ⟨ds, hds⟩ := exists_holds_iff.2 hvalid
    refine ⟨ds, hds, ?_, ?_⟩
    · intro hignored
      rw [effective_of_isIgnored hignored, configured_of_holds hds]
    · intro htaken
      obtain ⟨text, es, rfl, hes⟩ := exists_holds_of_taken htaken
      have heffective := effective_of_holds hds hes
      refine ⟨text, es, rfl, hes, heffective, fun hplain => ?_⟩
      obtain ⟨hconfigured, hown⟩ := askForNoField_append_iff.1 hplain
      refine ⟨deciding ds e, deciding es e, longest_deciding hconfigured, longest_deciding hown, ?_⟩
      rw [heffective, limitOf, deciding_append hplain]

/-- Configured directives for targets within each other. -/
def nestedLevel : String := " warn,srg.format=error,,srg=info "

/-- Directives of an environment for the same targets, and for one between them. -/
def nestedEnvironment : String := " srg.f=off,srg.format=debug,srg=trace "

/-- The configured directives. -/
def nestedConfigured : List Directive :=
  [.everywhere (some .warn), ⟨"srg.format".toList, none, none, some .error⟩,
    ⟨"srg".toList, none, none, some .info⟩]

/-- The directives of the environment. -/
def nestedOwn : List Directive :=
  [⟨"srg.f".toList, none, none, none⟩, ⟨"srg.format".toList, none, none, some .debug⟩,
    ⟨"srg".toList, none, none, some .trace⟩]

theorem environment_overrides_nested :
    Holds (directivesText nestedLevel) nestedConfigured ∧
      ¬ IsIgnored (some nestedEnvironment) ∧ Holds (trimmed nestedEnvironment) nestedOwn ∧
      AskForNoField (nestedConfigured ++ nestedOwn) ∧
      limitOf (effective nestedLevel (some nestedEnvironment)) (.plain "srg.format.reader")
        = some .debug ∧
      limitOf (effective nestedLevel (some nestedEnvironment)) (.plain "other") = some .warn ∧
      IsIgnored (some "trace,srg=loud") ∧
      limitOf (effective nestedLevel (some "trace,srg=loud")) (.plain "srg.format.reader")
        = some .error ∧
      HoldsInvalid (directivesText "srg=loud") ∧
      limitOf (effective "srg=loud" (some "trace")) (.plain "srg") = some .warn := by
  have hconfigured : Holds (directivesText nestedLevel) nestedConfigured :=
    read?_eq_some_iff.1 (by decide +kernel)
  have hvalid : ¬ HoldsInvalid (directivesText nestedLevel) :=
    exists_holds_iff.1 ⟨nestedConfigured, hconfigured⟩
  have hown : Holds (trimmed nestedEnvironment) nestedOwn :=
    read?_eq_some_iff.1 (by decide +kernel)
  have htaken : ¬ IsIgnored (some nestedEnvironment) := by
    intro h
    cases h with
    | blank hblank => exact absurd (hblank 's' (by decide +kernel)) (by decide)
    | invalid hinvalid => exact exists_holds_iff.1 ⟨nestedOwn, hown⟩ hinvalid
  have hplain : AskForNoField (nestedConfigured ++ nestedOwn) := by
    unfold AskForNoField
    decide +kernel
  have hignored : IsIgnored (some "trace,srg=loud") :=
    .invalid (read?_eq_none_iff.1 (by decide +kernel))
  have hinvalid : HoldsInvalid (directivesText "srg=loud") :=
    read?_eq_none_iff.1 (by decide +kernel)
  have hoverride (e : Event) : ∃ c d, Longest nestedConfigured e c ∧ Longest nestedOwn e d ∧
      limitOf (effective nestedLevel (some nestedEnvironment)) e
        = (overriding c d).bind Directive.limit := by
    obtain ⟨ds, hds, -, hoverride⟩ :=
      (environment_overrides nestedLevel (some nestedEnvironment) e).2 hvalid
    obtain ⟨text, es, htext, hes, -, hlongest⟩ := hoverride htaken
    obtain rfl := Option.some.inj htext
    obtain rfl := hds.unique hconfigured
    obtain rfl := hes.unique hown
    exact hlongest hplain
  refine ⟨hconfigured, htaken, hown, hplain, ?_, ?_, hignored, ?_, hinvalid, ?_⟩
  · -- the same target on both sides, and shorter ones: the environment wins
    obtain ⟨c, d, hc, hd, hlimit⟩ := hoverride (.plain "srg.format.reader")
    have hformat : Longest nestedConfigured (.plain "srg.format.reader")
        (some ⟨"srg.format".toList, none, none, some .error⟩) :=
      .present [.everywhere (some .warn)] [⟨"srg".toList, none, none, some .info⟩] rfl (by decide)
        (by decide) (by decide)
    have hformat' : Longest nestedOwn (.plain "srg.format.reader")
        (some ⟨"srg.format".toList, none, none, some .debug⟩) :=
      .present [⟨"srg.f".toList, none, none, none⟩] [⟨"srg".toList, none, none, some .trace⟩] rfl
        (by decide) (by decide) (by decide)
    rw [hlimit, hc.unique hformat, hd.unique hformat']
    rfl
  · obtain ⟨c, d, hc, hd, hlimit⟩ := hoverride (.plain "other")
    have heverywhere : Longest nestedConfigured (.plain "other")
        (some (.everywhere (some .warn))) :=
      .present [] nestedConfigured.tail rfl (by decide) (by decide) (by decide)
    have hnone : Longest nestedOwn (.plain "other") none := .absent (by decide)
    rw [hlimit, hc.unique heverywhere, hd.unique hnone]
    rfl
  · obtain ⟨ds, hds, hconfiguredAlone, -⟩ := (environment_overrides nestedLevel
      (some "trace,srg=loud") (.plain "srg.format.reader")).2 hvalid
    rw [hconfiguredAlone hignored, hds.unique hconfigured]
    decide +kernel
  · exact (environment_overrides "srg=loud" (some "trace") (.plain "srg")).1 hinvalid

end SymbolRenaming.LogFilter
