/-
SymbolRenaming/Proofs/Mappings/PackageRules.lean

Package names in their many spellings, and the rule that moves packages.

Design.  A package is a list of identifiers.  It is spelled with a slash or a dot between
neighbours, with any of these two around that and with blanks around all
(`SpellsPackage`).  The judge of package names accepts exactly the spellings
(`isPackageName_iff`), and the rule takes all spellings of a package for the one that has
slashes between the segments and nothing around them (`SpellsPackage.packagePath_eq`).

A class name is a list of segments too, and it is well formed if none of them is empty or
has a character that delimits names (`ClassName.isWellFormedChars_intercalate`).  So is a
class that is moved: its segments are those of the package and its simple name.

Main result: `packages_exact`.
-/
import Mathlib.Data.List.Forall2
import SymbolRenaming.ChainFile
import SymbolRenaming.Proofs.Symbols.Reading
import SymbolRenaming.Proofs.Table.Writes
import SymbolRenaming.Proofs.Text.Pieces

namespace SymbolRenaming

open Text

/-- Segments with slashes between them. -/
def packageText (segments : List (List Char)) : String := .ofList (['/'].intercalate segments)

/-! ### Class names as segments -/

namespace ClassName

/-- A segment of a class name. -/
structure IsSegment (segment : List Char) : Prop where
  ne_nil : segment ≠ []
  ne_slash : ∀ c ∈ segment, c ≠ '/'
  isDelimiter : ∀ c ∈ segment, isDelimiter c = false

/-- Segments between slashes are a well-formed name. -/
theorem isWellFormedChars_intercalate {segments : List (List Char)} (hne : segments ≠ [])
    (h : ∀ segment ∈ segments, IsSegment segment) :
    isWellFormedChars (['/'].intercalate segments) = true := by
  have hjoins : Joins (· == '/') segments (['/'].intercalate segments) :=
    joins_intercalate (p := (· == '/')) (beq_self_eq_true _) segments
  have hpieces : pieces (· == '/') (['/'].intercalate segments) = segments := by
    apply hjoins.pieces_eq hne
    intro segment hs c hc
    simpa using (h segment hs).ne_slash c hc
  rw [isWellFormedChars, hpieces, Bool.and_eq_true, List.all_eq_true, List.all_eq_true]
  constructor
  · intro segment hs
    simpa using (h segment hs).ne_nil
  · intro c hc
    by_cases hslash : c = '/'
    · rw [hslash]
      decide
    · obtain ⟨segment, hs, hmem⟩ := hjoins.exists_mem hc (beq_eq_false_iff_ne.2 hslash)
      rw [(h segment hs).isDelimiter c hmem]
      rfl

/-- The simple name of a well-formed class is a segment. -/
theorem isSegment_simpleName {c : ClassName} (h : c.isWellFormed = true) :
    IsSegment c.simpleName.toList := by
  -- the simple name is the last piece of the name
  have hmem : c.simpleName.toList ∈ pieces (· == '/') c.chars ∧
      ∀ x ∈ c.simpleName.toList, x ∈ c.chars := by
    rcases e : splitAtLast '/' c.chars with - | ⟨before, after⟩
    · have hslash := splitAtLast_eq_none_iff.1 e
      have hname : c.simpleName.toList = c.chars := by
        simp only [simpleName, e]
        rfl
      rw [hname, pieces_eq_singleton]
      · exact ⟨List.mem_singleton.2 rfl, fun x hx => hx⟩
      · intro x hx
        simpa using ne_of_mem_of_not_mem hx hslash
    · obtain ⟨hchars, hslash⟩ := splitAtLast_eq_some_iff.1 e
      have hname : c.simpleName.toList = after := by
        simp only [simpleName, e, String.toList_ofList]
      have hafter : pieces (· == '/') after = [after] := by
        apply pieces_eq_singleton
        intro x hx
        simpa using ne_of_mem_of_not_mem hx hslash
      rw [hname, hchars, pieces_append (p := (· == '/')) (beq_self_eq_true _), hafter]
      exact ⟨by simp, fun x hx => by simp [hx]⟩
  obtain ⟨hpiece, hsub⟩ := hmem
  refine ⟨?_, ?_, fun x hx => isDelimiter_of_mem h x (hsub x hx)⟩
  · have hwf := h
    rw [isWellFormed, isWellFormedChars, Bool.and_eq_true, List.all_eq_true] at hwf
    simpa using hwf.1 _ hpiece
  · intro x hx
    exact ne_of_mem_of_not_mem hx c.not_mem_simpleName

/-- A class in a package has the segments of the package before its simple name. -/
theorem chars_withPackage (c : ClassName) {segments : List (List Char)}
    (h : ∀ segment ∈ segments, segment ≠ []) :
    (c.withPackage (packageText segments)).chars
      = ['/'].intercalate (segments ++ [c.simpleName.toList]) := by
  rcases segments with - | ⟨segment, rest⟩
  · -- the default package
    simp [withPackage, ofPackage, packageText, chars]
  · have hsegment : segment ≠ [] := h segment (List.mem_cons_self ..)
    have hne : (packageText (segment :: rest)).isEmpty = false := by
      rw [Bool.eq_false_iff, Ne, String.isEmpty_iff, packageText, ← String.toList_eq_nil_iff,
        String.toList_ofList]
      rcases rest with - | ⟨next, rest⟩
      · simpa using hsegment
      · simp [List.intercalate_cons_cons, hsegment]
    rw [intercalate_concat (List.cons_ne_nil _ _), withPackage, ofPackage, hne]
    simp [chars, packageText]

end ClassName

/-! ### Identifiers as segments -/

/-- What identifiers are made of delimits nothing. -/
theorem delimits_nothing_of_isIdentifierPart {c : Char} (h : isIdentifierPart c = true) :
    ClassName.isDelimiter c = false ∧ Rules.isPackageSeparator c = false := by
  -- a test of these marks alone: a statement on characters would be decided for all of them
  let marks := [';', '[', '(', ')', '.', '<', '>', '/']
  have hmarks : marks.all (fun d => !isIdentifierPart d) = true := by
    decide +kernel
  have hne : ∀ d ∈ marks, c ≠ d := by
    rintro d hd rfl
    have hd' := List.all_eq_true.1 hmarks c hd
    rw [h] at hd'
    cases hd'
  have hblank : isBlank c = false := not_isBlank_of_isIdentifierPart h
  simp only [marks, List.forall_mem_cons] at hne
  simp [ClassName.isDelimiter, Rules.isPackageSeparator, hne, hblank]

theorem isSegment_of_isIdentifier {segment : List Char} (h : isIdentifier segment = true) :
    ClassName.IsSegment segment where
  ne_nil := isIdentifier_ne_nil h
  ne_slash := by
    rintro c hc rfl
    have hslash := (delimits_nothing_of_isIdentifierPart (isIdentifierPart_of_mem h _ hc)).2
    cases hslash
  isDelimiter c hc := (delimits_nothing_of_isIdentifierPart (isIdentifierPart_of_mem h c hc)).1

/-! ### Spellings of a package -/

/-- The spellings of a package: its segments, which are identifiers, between slashes and
dots; then separators, and then blanks, on both sides.  The default package has no
segment. -/
inductive SpellsPackage (segments : List (List Char)) (s : String) : Prop
  | intro {before opening core closing behind : List Char}
      (htext : s.toList = before ++ (opening ++ core ++ closing) ++ behind)
      (hcore : Joins Rules.isPackageSeparator segments core)
      (hsegments : ∀ segment ∈ segments, isIdentifier segment = true)
      (hopening : ∀ c ∈ opening, Rules.isPackageSeparator c = true)
      (hclosing : ∀ c ∈ closing, Rules.isPackageSeparator c = true)
      (hbefore : ∀ c ∈ before, isBlank c = true) (hbehind : ∀ c ∈ behind, isBlank c = true)

theorem isBlank_of_isPackageSeparator {c : Char} (h : Rules.isPackageSeparator c = true) :
    isBlank c = false := by
  rw [Rules.isPackageSeparator, Bool.or_eq_true, beq_iff_eq, beq_iff_eq] at h
  rcases h with rfl | rfl
  · decide
  · decide

namespace SpellsPackage

variable {segments : List (List Char)} {s : String}

theorem isIdentifier_of_mem (h : SpellsPackage segments s) :
    ∀ segment ∈ segments, isIdentifier segment = true := by
  obtain ⟨-, -, hsegments, -, -, -, -⟩ := h
  exact hsegments

/-- Trimming takes off what stands around the segments, and no more. -/
theorem joins_trimBy (h : SpellsPackage segments s) :
    Joins Rules.isPackageSeparator segments
      (trimBy Rules.isPackageSeparator (trim s.toList)) := by
  obtain ⟨htext, hcore, hsegments, hopening, hclosing, hbefore, hbehind⟩ := h
  rename_i before opening core closing behind
  have hpart : ∀ segment ∈ segments, ∀ c ∈ segment, isIdentifierPart c = true :=
    fun segment hs => isIdentifierPart_of_mem (hsegments segment hs)
  obtain ⟨hfirst, hlast⟩ := hcore.not_isSep_of_ends fun segment hs =>
    ⟨isIdentifier_ne_nil (hsegments segment hs),
      fun c hc => (delimits_nothing_of_isIdentifierPart (hpart segment hs c hc)).2⟩
  -- no blank is left when those around are gone
  have hblank : ∀ c ∈ opening ++ core ++ closing, isBlank c = false := by
    intro c hc
    rcases hsep : Rules.isPackageSeparator c with - | -
    · have hcase : c ∈ core := by
        simp only [List.mem_append] at hc
        rcases hc with (hc | hc) | hc
        · rw [hopening c hc] at hsep
          cases hsep
        · exact hc
        · rw [hclosing c hc] at hsep
          cases hsep
      obtain ⟨segment, hs, hmem⟩ := hcore.exists_mem hcase hsep
      exact not_isBlank_of_isIdentifierPart (hpart segment hs c hmem)
    · exact isBlank_of_isPackageSeparator hsep
  have htrim : trim s.toList = opening ++ core ++ closing := by
    rw [htext, trim_eq_trimBy, trimBy_append hbefore hbehind]
    apply trimBy_eq_self
    · exact fun c hc => hblank c (List.mem_of_head? hc)
    · exact fun c hc => hblank c (List.mem_of_getLast? hc)
  rw [htrim, trimBy_append hopening hclosing, trimBy_eq_self hfirst hlast]
  exact hcore

/-- All spellings of a package stand for the one with slashes and nothing around it. -/
theorem packagePath_eq (h : SpellsPackage segments s) :
    Rules.packagePath s = packageText segments := by
  rw [Rules.packagePath, packageText]
  refine congrArg String.ofList (h.joins_trimBy.map_eq_intercalate ?_ ?_)
  · intro c hc
    rw [Rules.isPackageSeparator, Bool.or_eq_true, beq_iff_eq, beq_iff_eq] at hc
    rcases hc with rfl | rfl
    · rfl
    · rfl
  · intro segment hs c hc
    refine if_neg ?_
    rintro rfl
    have hpart := isIdentifierPart_of_mem (h.isIdentifier_of_mem segment hs) _ hc
    cases (delimits_nothing_of_isIdentifierPart hpart).2

theorem isPackageName (h : SpellsPackage segments s) : isPackageName s = true := by
  have hjoins := h.joins_trimBy
  rw [SymbolRenaming.isPackageName, Bool.or_eq_true, List.all_eq_true]
  rcases segments with - | ⟨segment, rest⟩
  · generalize trimBy Rules.isPackageSeparator (trim s.toList) = core at hjoins
    cases hjoins
    exact Or.inl rfl
  · refine Or.inr fun piece hpiece => ?_
    rw [hjoins.pieces_eq (List.cons_ne_nil _ _)] at hpiece
    · exact h.isIdentifier_of_mem piece hpiece
    · intro segment hs c hc
      have hpart := isIdentifierPart_of_mem (h.isIdentifier_of_mem segment hs) c hc
      exact (delimits_nothing_of_isIdentifierPart hpart).2

end SpellsPackage

/-- A text is judged to be a package name exactly if it spells a package. -/
theorem isPackageName_iff {s : String} :
    isPackageName s = true ↔ ∃ segments, SpellsPackage segments s := by
  refine ⟨fun h => ?_, fun ⟨segments, hs⟩ => hs.isPackageName⟩
  obtain ⟨before, behind, htext, hbefore, hbehind⟩ := exists_append_trimBy isBlank s.toList
  obtain ⟨opening, closing, htrim, hopening, hclosing⟩ :=
    exists_append_trimBy Rules.isPackageSeparator (trimBy isBlank s.toList)
  rw [htrim] at htext
  rw [isPackageName, Bool.or_eq_true, List.all_eq_true] at h
  rcases h with hempty | hall
  · refine ⟨[], .intro htext ?_ (by simp) hopening hclosing hbefore hbehind⟩
    rw [← trim_eq_trimBy, List.isEmpty_iff.1 hempty]
    exact .nil
  · exact ⟨_, .intro htext (joins_pieces _ _) hall hopening hclosing hbefore hbehind⟩

/-- The segments of a package are found again between the slashes. -/
theorem packageText_inj {as bs : List (List Char)}
    (has : ∀ segment ∈ as, isIdentifier segment = true)
    (hbs : ∀ segment ∈ bs, isIdentifier segment = true) :
    packageText as = packageText bs ↔ as = bs := by
  have hpieces : ∀ {segments : List (List Char)}, segments ≠ [] →
      (∀ segment ∈ segments, isIdentifier segment = true) →
      pieces (· == '/') (['/'].intercalate segments) = segments := by
    intro segments hne h
    apply (joins_intercalate (p := (· == '/')) (beq_self_eq_true _) segments).pieces_eq hne
    intro segment hs c hc
    simpa using (isSegment_of_isIdentifier (h segment hs)).ne_slash c hc
  refine ⟨fun h => ?_, fun h => congrArg packageText h⟩
  rw [packageText, packageText, String.ofList_inj] at h
  by_cases hempty : as = [] ∨ bs = []
  · -- nothing between slashes is no identifier
    have hnil : ∀ {segments : List (List Char)},
        (∀ segment ∈ segments, isIdentifier segment = true) →
        ['/'].intercalate segments = [] → segments = [] := by
      intro segments hs htext
      by_contra hne
      have hself := hpieces hne hs
      rw [htext] at hself
      cases hs [] (hself ▸ List.mem_singleton.2 rfl)
    rcases hempty with rfl | rfl
    · exact (hnil hbs h.symm).symm
    · exact hnil has h
  · rw [not_or] at hempty
    rw [← hpieces hempty.1 has, h, hpieces hempty.2 hbs]

/-- Names that stand for the same in the rule spell the same package. -/
theorem exists_spellsPackage {s t : String} (hs : isPackageName s = true)
    (ht : isPackageName t = true) (h : Rules.packagePath s = Rules.packagePath t) :
    ∃ segments, SpellsPackage segments s ∧ SpellsPackage segments t := by
  obtain ⟨as, has⟩ := isPackageName_iff.1 hs
  obtain ⟨bs, hbs⟩ := isPackageName_iff.1 ht
  rw [has.packagePath_eq, hbs.packagePath_eq,
    packageText_inj has.isIdentifier_of_mem hbs.isIdentifier_of_mem] at h
  exact ⟨as, has, h ▸ hbs⟩

/-! ### The rule -/

namespace Rules

variable {pairs : List (String × String)} {package : String}

theorem get?_packageTable (pairs : List (String × String)) (package : String) :
    (packageTable pairs).get? package
      = Entries.last? package (pairs.map fun p => (packagePath p.1, packagePath p.2)) :=
  Table.get?_ofList _ package

/-- The last pair for a package decides. -/
theorem get?_packageTable_of_last {front back : List (String × String)} {p : String × String}
    (hlast : ∀ q ∈ back, packagePath q.1 ≠ packagePath p.1) :
    (packageTable (front ++ p :: back)).get? (packagePath p.1) = some (packagePath p.2) := by
  rw [get?_packageTable, Entries.last?_eq_some_iff]
  refine ⟨_, _, List.map_append, ?_⟩
  intro e he
  obtain ⟨q, hq, rfl⟩ := List.mem_map.1 he
  exact hlast q hq

theorem get?_packageTable_eq_none (h : ∀ p ∈ pairs, packagePath p.1 ≠ package) :
    (packageTable pairs).get? package = none := by
  rw [get?_packageTable, Entries.last?_eq_none_iff, List.map_map]
  intro hmem
  obtain ⟨p, hp, hpackage⟩ := List.mem_map.1 hmem
  exact h p hp hpackage

theorem exists_pair_of_get?_packageTable {target : String}
    (h : (packageTable pairs).get? package = some target) :
    ∃ p ∈ pairs, packagePath p.2 = target := by
  have hmem := Table.mem_of_mem_entries_ofList (Table.get?_eq_some_iff.1 h)
  obtain ⟨p, hp, he⟩ := List.mem_map.1 hmem
  exact ⟨p, hp, (Prod.mk.inj he).2⟩

/-- Well-formed classes are moved to well-formed classes. -/
theorem isWellFormed_renameClass_packages
    (hvalid : ∀ p ∈ pairs, isPackageName p.1 = true ∧ isPackageName p.2 = true) {c : ClassName}
    (hc : c.isWellFormed = true) : ((packages pairs).renameClass c).isWellFormed = true := by
  rw [renameClass_packages]
  rcases hget : (packageTable pairs).get? c.package with - | target
  · exact hc
  · obtain ⟨p, hp, rfl⟩ := exists_pair_of_get?_packageTable hget
    obtain ⟨segments, hs⟩ := isPackageName_iff.1 (hvalid p hp).2
    have hsegments : ∀ segment ∈ segments, ClassName.IsSegment segment :=
      fun segment hmem => isSegment_of_isIdentifier (hs.isIdentifier_of_mem segment hmem)
    show ClassName.isWellFormedChars (c.withPackage (packagePath p.2)).chars = true
    rw [hs.packagePath_eq, c.chars_withPackage fun segment hmem => (hsegments segment hmem).ne_nil]
    apply ClassName.isWellFormedChars_intercalate
    · simp
    · intro segment hmem
      rcases List.mem_append.1 hmem with hmem | hmem
      · exact hsegments segment hmem
      · rw [List.mem_singleton.1 hmem]
        exact ClassName.isSegment_simpleName hc

theorem simpleName_renameClass_packages (pairs : List (String × String)) (c : ClassName) :
    ((packages pairs).renameClass c).simpleName = c.simpleName := by
  rw [renameClass_packages]
  split
  · exact c.simpleName_withPackage _
  · rfl

/-- Two pairs with two spellings of the same packages. -/
def SamePackages (p q : String × String) : Prop :=
  (∃ source, SpellsPackage source p.1 ∧ SpellsPackage source q.1) ∧
    ∃ target, SpellsPackage target p.2 ∧ SpellsPackage target q.2

theorem SamePackages.packagePath_eq {p q : String × String} (h : SamePackages p q) :
    packagePath p.1 = packagePath q.1 ∧ packagePath p.2 = packagePath q.2 := by
  obtain ⟨⟨source, hp1, hq1⟩, target, hp2, hq2⟩ := h
  rw [hp1.packagePath_eq, hq1.packagePath_eq, hp2.packagePath_eq, hq2.packagePath_eq]
  exact ⟨rfl, rfl⟩

theorem samePackages_of_packagePath_eq {p q : String × String}
    (hp : isPackageName p.1 = true ∧ isPackageName p.2 = true)
    (hq : isPackageName q.1 = true ∧ isPackageName q.2 = true)
    (h : packagePath p.1 = packagePath q.1 ∧ packagePath p.2 = packagePath q.2) :
    SamePackages p q :=
  ⟨exists_spellsPackage hp.1 hq.1 h.1, exists_spellsPackage hp.2 hq.2 h.2⟩

/-- How the packages are spelled makes no difference to the rule. -/
theorem packages_eq_of_samePackages {pairs' : List (String × String)}
    (h : List.Forall₂ SamePackages pairs pairs') : packages pairs' = packages pairs := by
  have hpairs : (pairs'.map fun p => (packagePath p.1, packagePath p.2))
      = pairs.map fun p => (packagePath p.1, packagePath p.2) := by
    induction h with
    | nil => rfl
    | cons hsame _ ih =>
      obtain ⟨hsource, htarget⟩ := hsame.packagePath_eq
      rw [List.map_cons, List.map_cons, ih, hsource, htarget]
  have htable : packageTable pairs' = packageTable pairs := congrArg Table.ofList hpairs
  rw [packages, packages, htable]

/-- **Moving packages.**  Let all names of some pairs be judged to be package names.  A
well-formed class then becomes a well-formed class with the same simple name, and its
package becomes what the last pair for it says; without such a pair it stays.  Each name
spells a package, which stands in the rule with slashes between its segments, and the rule
is the same whichever way the packages are spelled. -/
theorem packages_exact
    (hvalid : ∀ p ∈ pairs, isPackageName p.1 = true ∧ isPackageName p.2 = true) :
    (∀ c : ClassName, c.isWellFormed = true →
      ((packages pairs).renameClass c).isWellFormed = true ∧
      ((packages pairs).renameClass c).simpleName = c.simpleName ∧
      (∀ front p back, pairs = front ++ p :: back → packagePath p.1 = c.package →
        (∀ q ∈ back, packagePath q.1 ≠ c.package) →
        ((packages pairs).renameClass c).package = packagePath p.2) ∧
      ((∀ p ∈ pairs, packagePath p.1 ≠ c.package) → (packages pairs).renameClass c = c)) ∧
    (∀ p ∈ pairs, ∃ source target, SpellsPackage source p.1 ∧ SpellsPackage target p.2 ∧
      packagePath p.1 = packageText source ∧ packagePath p.2 = packageText target) ∧
    ∀ pairs', List.Forall₂ SamePackages pairs pairs' → packages pairs' = packages pairs := by
  refine ⟨fun c hc => ⟨isWellFormed_renameClass_packages hvalid hc,
    simpleName_renameClass_packages pairs c, ?_, ?_⟩, ?_, ?_⟩
  · rintro front p back rfl hpackage hlast
    have hget : (packageTable (front ++ p :: back)).get? c.package = some (packagePath p.2) := by
      rw [← hpackage] at hlast ⊢
      exact get?_packageTable_of_last hlast
    rw [renameClass_packages, hget]
    exact c.package_withPackage _
  · intro hnone
    rw [renameClass_packages, get?_packageTable_eq_none hnone]
  · intro p hp
    obtain ⟨source, hsource⟩ := isPackageName_iff.1 (hvalid p hp).1
    obtain ⟨target, htarget⟩ := isPackageName_iff.1 (hvalid p hp).2
    exact ⟨source, target, hsource, htarget, hsource.packagePath_eq, htarget.packagePath_eq⟩
  · intro pairs' hsame
    exact packages_eq_of_samePackages hsame

/-- The default package goes to `n/m`, and of two pairs for `a/b` the second counts. -/
def moves : List (String × String) := [("", "n.m"), ("a.b", "x"), (" /a/b. ", "y.z")]

/-- The same packages, spelled in other ways. -/
def respelledMoves : List (String × String) := [("/", "n/m/"), ("a/b", "\tx"), ("a/b", " y/z")]

/-- The class `a/b/C` goes to `y/z`, and a class in the package below stays. -/
theorem packages_exact_moves :
    (∀ p ∈ moves, isPackageName p.1 = true ∧ isPackageName p.2 = true) ∧
    (((packages moves).renameClass ⟨"a/b/C"⟩).isWellFormed = true ∧
      ((packages moves).renameClass ⟨"a/b/C"⟩).simpleName = "C" ∧
      ((packages moves).renameClass ⟨"a/b/C"⟩).package = "y/z") ∧
    (packages moves).renameClass ⟨"a/b/c/D"⟩ = ⟨"a/b/c/D"⟩ ∧
    packages respelledMoves = packages moves := by
  have hvalid : ∀ p ∈ moves, isPackageName p.1 = true ∧ isPackageName p.2 = true := by
    decide +kernel
  obtain ⟨hclasses, -, hspelling⟩ := packages_exact hvalid
  obtain ⟨hwf, hname, hmoved, -⟩ := hclasses ⟨"a/b/C"⟩ (by decide)
  obtain ⟨-, -, -, hstays⟩ := hclasses ⟨"a/b/c/D"⟩ (by decide)
  refine ⟨hvalid, ⟨hwf, hname.trans (by decide), ?_⟩, hstays (by decide), ?_⟩
  · exact hmoved [("", "n.m"), ("a.b", "x")] (" /a/b. ", "y.z") [] rfl (by decide) (by simp)
  · have hrespelled : ∀ p ∈ respelledMoves,
        isPackageName p.1 = true ∧ isPackageName p.2 = true := by
      decide +kernel
    apply hspelling
    rw [moves, List.forall_mem_cons, List.forall_mem_cons, List.forall_mem_singleton] at hvalid
    rw [respelledMoves, List.forall_mem_cons, List.forall_mem_cons,
      List.forall_mem_singleton] at hrespelled
    refine .cons ?_ (.cons ?_ (.cons ?_ .nil))
    · exact samePackages_of_packagePath_eq hvalid.1 hrespelled.1 (by decide)
    · exact samePackages_of_packagePath_eq hvalid.2.1 hrespelled.2.1 (by decide)
    · exact samePackages_of_packagePath_eq hvalid.2.2 hrespelled.2.2 (by decide)

end Rules

end SymbolRenaming
