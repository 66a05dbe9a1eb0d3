import JavaSource.Proofs.CompilationUnit.ImportNames
import JavaSource.Proofs.CompilationUnit.Mentions

namespace JavaSource

open Ascending (Ascends)

/-- The names that a unit in a package has to import: those with another package
    in front of their last dot, except for the marker of overriding methods. -/
inductive Importable (unitPackage : String) : String → Prop where
  | qualified {package simpleName : String} (hsimple : '.' ∉ simpleName.toList) (hpackage : package ≠ "")
      (hother : package ≠ unitPackage) (hoverride : package ++ "." ++ simpleName ≠ "java.lang.Override") :
      Importable unitPackage (package ++ "." ++ simpleName)

private theorem append_eq_override_iff {package simpleName : String} (h : '.' ∉ simpleName.toList) :
    package ++ "." ++ simpleName = "java.lang.Override" ↔
      simpleName = "Override" ∧ package = "java.lang" := by
  constructor
  · intro heq
    have hdot : '.' ∉ "Override".toList := by decide
    have hoverride := splitQualified_append "java.lang" hdot
    have hsplit := splitQualified_append package h
    rw [heq] at hsplit
    obtain ⟨hpackage, hsimple⟩ := Prod.mk.inj (hsplit.symm.trans hoverride)
    exact ⟨hsimple, hpackage⟩
  · rintro ⟨rfl, rfl⟩
    rfl

/-- The check that the walk makes decides what may be imported. -/
theorem isImportable_iff {unitPackage n : String} :
    isImportable unitPackage n = true ↔ Importable unitPackage n := by
  constructor
  · intro h
    by_cases hdot : '.' ∈ n.toList
    · obtain ⟨package, simpleName, hsimple, rfl⟩ := exists_append_of_dot_mem hdot
      rw [isImportable, splitQualified_append package hsimple] at h
      simp only [Bool.and_eq_true, Bool.not_eq_true', bne_iff_ne, Bool.and_eq_false_iff,
        beq_eq_false_iff_ne, String.isEmpty_eq_false_iff] at h
      obtain ⟨⟨hpackage, hother⟩, hoverride⟩ := h
      refine .qualified hsimple hpackage hother ?_
      rw [ne_eq, append_eq_override_iff hsimple, not_and_or]
      exact hoverride
    · rw [isImportable, splitQualified_of_dot_notMem hdot] at h
      cases h
  · rintro ⟨hsimple, hpackage, hother, hoverride⟩
    rw [ne_eq, append_eq_override_iff hsimple, not_and_or] at hoverride
    rw [isImportable, splitQualified_append _ hsimple]
    simpa [hpackage, hother] using hoverride

/-- An importable name has text, since it has a dot. -/
theorem Importable.ne_empty {unitPackage n : String} (h : Importable unitPackage n) : n ≠ "" := by
  cases h with
  | qualified => simp

namespace CompilationUnit

variable {kind : UnitKind}

/-- The names that a unit would have imported, wherever they come from. -/
def Requests (unit : CompilationUnit kind) (n : String) : Prop :=
  (∃ name ∈ unit.importNames, n = trimmed name) ∨
    ∃ t, unit.Uses t ∧ ∃ name, t.Names name ∧ n = trimmed name

/-- The resolved imports are the importable ones among the names a unit mentions. -/
theorem mem_resolvedImports_iff {unit : CompilationUnit kind} {n : String} :
    n ∈ unit.resolvedImports.names ↔ n ∈ (ImportNames.ofList unit.mentions).names ∧
      Importable unit.package n := by
  rw [← isImportable_iff]
  exact List.mem_filter

/-- A unit imports the importable ones of the names it requests, each once and
    in ascending order. -/
theorem resolvedImports_exact (unit : CompilationUnit kind) :
    unit.resolvedImports.names.Pairwise (· < ·) ∧
      ∀ n, n ∈ unit.resolvedImports.names ↔ Importable unit.package n ∧ unit.Requests n := by
  refine ⟨?_, ?_⟩
  · have hempty : Ascends compare ImportNames.empty.names := List.Pairwise.nil
    have hall := ImportNames.ascends_addAll hempty unit.mentions
    have hkept : Ascends compare unit.resolvedImports.names := List.Pairwise.filter _ hall
    exact hkept.imp compareOfLessAndEq_eq_lt.mp
  · intro n
    rw [mem_resolvedImports_iff, ImportNames.ofList, ImportNames.mem_addAll_iff]
    constructor
    · rintro ⟨⟨name, hname, _, rfl⟩ | hempty, himportable⟩
      · refine ⟨himportable, ?_⟩
        rcases mem_mentions_iff.mp hname with hname | ⟨t, ht, hnames⟩
        · exact .inl ⟨name, hname, rfl⟩
        · exact .inr ⟨t, ht, name, hnames, rfl⟩
      · cases hempty
    · rintro ⟨himportable, hrequests⟩
      have hmention : ∃ name ∈ unit.mentions, n = trimmed name := by
        rcases hrequests with ⟨name, hname, hn⟩ | ⟨t, ht, name, hnames, hn⟩
        · exact ⟨name, mem_mentions_iff.mpr (.inl hname), hn⟩
        · exact ⟨name, mem_mentions_iff.mpr (.inr ⟨t, ht, hnames⟩), hn⟩
      obtain ⟨name, hname, rfl⟩ := hmention
      refine ⟨.inl ⟨name, hname, ?_, rfl⟩, himportable⟩
      -- A blank name would leave nothing to import once it is trimmed.
      by_contra hblank
      rw [Bool.not_eq_false] at hblank
      have htrim := List.isEmpty_iff.mp hblank
      apply himportable.ne_empty
      rw [trimmed, htrim]

end CompilationUnit

end JavaSource
