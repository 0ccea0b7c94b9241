/-
SymbolRenaming/Proofs/Program/PackagePairs.lean

Package pairs, as a chain file lists them and as an option spells them.

Design.  A chain file gives the two texts of a pair as they are and has its package
names judged.  An option gives one text, which is cut at its first equals sign and
trimmed.  The two come to the same rule: a name that passes the judgement holds no
equals sign (`not_mem_of_isPackageName`), so the cut is where it should be, and the
rule trims its names anyway (`Rules.packages_map_trimmedPair`).

Main results: `packageRule?_pairText`, `Rules.packages_map_trimmedPair`.
-/
import SymbolRenaming.ChainFile
import SymbolRenaming.Invocation
import SymbolRenaming.Proofs.Text.Pieces

namespace SymbolRenaming

open Text

/-! ### Package names -/

/-- A package name holds nothing but blanks, separators and what identifiers are
made of. -/
theorem isIdentifierPart_of_isPackageName {s : String} (h : isPackageName s = true) {c : Char}
    (hc : c ∈ s.toList) (hblank : isBlank c = false) (hsep : Rules.isPackageSeparator c = false) :
    isIdentifierPart c = true := by
  have hcore : c ∈ trimBy Rules.isPackageSeparator (trim s.toList) :=
    mem_trimBy (mem_trimBy hc hblank) hsep
  obtain ⟨piece, hpiece, hmem⟩ := exists_mem_pieces hcore hsep
  rw [isPackageName, Bool.or_eq_true, List.all_eq_true] at h
  rcases h with hempty | hall
  · rw [List.isEmpty_iff.1 hempty] at hcore
    cases hcore
  · exact isIdentifierPart_of_mem (hall piece hpiece) c hmem

theorem not_mem_of_isPackageName {s : String} (h : isPackageName s = true) : '=' ∉ s.toList := by
  intro hc
  have hpart : isIdentifierPart '=' = false := by decide +kernel
  rw [isIdentifierPart_of_isPackageName h hc (by decide) (by decide)] at hpart
  cases hpart

/-- The package names of a chain file that can be read have been judged. -/
theorem isPackageName_of_parse {text : String} {c : ChainFile} {pairs : List (String × String)}
    (h : ChainFile.parse text = .ok c) (hlayer : .packages pairs ∈ c.layers) :
    ∀ p ∈ pairs, isPackageName p.1 = true ∧ isPackageName p.2 = true := by
  have hnone : c.packagePairs.findSome? firstBadPackage = none := by
    rw [ChainFile.parse] at h
    split at h
    · rw [ChainFile.validate] at h
      split at h
      · cases h
      · cases h
        assumption
    · cases h
  have hpairs : pairs ∈ c.packagePairs := List.mem_filterMap.2 ⟨_, hlayer, rfl⟩
  have hgood := List.find?_eq_none.1 (List.findSome?_eq_none_iff.1 hnone pairs hpairs)
  intro p hp
  constructor
  · simpa using hgood p.1 (List.mem_flatMap.2 ⟨p, hp, by simp⟩)
  · simpa using hgood p.2 (List.mem_flatMap.2 ⟨p, hp, by simp⟩)

/-! ### Pairs -/

/-- The pair with the blanks at the ends of its names taken off. -/
def trimmedPair (p : String × String) : String × String := (trimmed p.1, trimmed p.2)

/-- A pair as an option spells it. -/
def pairText (p : String × String) : String := p.1 ++ "=" ++ p.2

/-- An option is read as the pair that it spells, but for blanks. -/
theorem packageRule?_pairText {p : String × String} (h : '=' ∉ p.1.toList) :
    Invocation.packageRule? (pairText p) = some (trimmedPair p) := by
  have hchars : (pairText p).toList = p.1.toList ++ '=' :: p.2.toList := by
    simp [pairText, String.toList_append]
  rw [Invocation.packageRule?, splitAtFirst_eq_some_iff.2 ⟨hchars, h⟩]
  rfl

theorem Rules.packagePath_trimmed (s : String) :
    Rules.packagePath (trimmed s) = Rules.packagePath s := by
  rw [packagePath, packagePath, trimmed, String.toList_ofList, trim_eq_trimBy, trim_eq_trimBy,
    trimBy_trimBy]

/-- Blanks at the ends of package names make no difference to the rule. -/
theorem Rules.packages_map_trimmedPair (pairs : List (String × String)) :
    Rules.packages (pairs.map trimmedPair) = Rules.packages pairs := by
  have htable : packageTable (pairs.map trimmedPair) = packageTable pairs := by
    rw [packageTable, packageTable, List.map_map]
    refine congrArg Table.ofList (List.map_congr_left fun p _ => ?_)
    show (packagePath (trimmed p.1), packagePath (trimmed p.2)) = _
    rw [packagePath_trimmed, packagePath_trimmed]
  rw [packages, packages, htable]

end SymbolRenaming
