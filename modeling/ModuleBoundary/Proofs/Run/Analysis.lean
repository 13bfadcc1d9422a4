/-
What a run analyses, and what it makes of it.

A pass goes through listed files and checks those that count in it (`Guard.counts`).
`Guard.analysed` lists the files that a whole run checks, and the findings of a run are
a function of this list: each file adds one to the files checked and its own verdicts to
the violations, and the routing checks add theirs (`outcome_of_isDir`).  With the files
of a scan nothing else decides whether a file counts than the place where it stands, and
`run_scan_outcome` says so for every tree.
-/
import ModuleBoundary.Guard
import ModuleBoundary.Proofs.Findings.Sorting
import ModuleBoundary.Proofs.Identity.Breaches
import ModuleBoundary.Proofs.Identity.Places
import ModuleBoundary.Proofs.Listing.Scan
import ModuleBoundary.Proofs.Routing.Sites

namespace ModuleBoundary

variable {g : Guard} {t : Tree}

namespace Violation

def isImport (v : Violation) : Bool :=
  [Rule.sharedContractsImport, .moduleContractsImport, .crossModuleImport].any
    fun rule => v.code == rule.code

end Violation

def Tree.imports (t : Tree) (file : Path) : List Import :=
  match Language.ofPath? file, t.read file with
  | some language, .ok bytes => language.imports (Utf8.decodeLossy bytes)
  | _, _ => []

namespace Guard

/-! ## One file -/

/-- A listed file that a pass checks: it has an identity, which is a module in the pass
over the module root, it has a language, and it can be read. -/
def counts (g : Guard) (t : Tree) (sharedPass : Bool) (file : Path) : Bool :=
  (g.roots.identify file).any (fun source => sharedPass || source != .sharedContracts) &&
    (Language.ofPath? file).isSome && (t.readSource file).isOk

def verdict? (g : Guard) (file : Path) (source : Identity) (i : Import) : Option Violation :=
  (g.classifier.classify i.target).bind fun reference =>
    (source.breach? reference).map fun breach =>
      { code := breach.rule.code, rule := breach.rule.name, file := file.relativeTo g.base,
        line := i.line, target := i.target, message := breach.message }

def verdicts (g : Guard) (t : Tree) (file : Path) : List Violation :=
  match g.roots.identify file with
  | some source => (t.imports file).filterMap (g.verdict? file source)
  | none => []

theorem ofImport?_eq_verdict? (file : Path) (source : Identity) (i : Import) :
    Violation.ofImport? g.classifier (file.relativeTo g.base) source i =
      g.verdict? file source i := by
  rw [Violation.ofImport?, verdict?]
  cases g.classifier.classify i.target with
  | none => rfl
  | some reference =>
    simp only [Option.bind_eq_bind, Option.bind_some]
    cases source.breach? reference <;> rfl

theorem counts_iff {sharedPass : Bool} {file : Path} :
    g.counts t sharedPass file = true ↔ ∃ source language bytes,
      g.roots.identify file = some source ∧ (sharedPass = true ∨ source ≠ .sharedContracts) ∧
        Language.ofPath? file = some language ∧ t.read file = .ok bytes := by
  have hread : (t.readSource file).isOk = true ↔ ∃ bytes, t.read file = .ok bytes := by
    rw [Tree.readSource]
    cases t.read file <;> simp [Except.map, Except.isOk, Except.toBool]
  rw [counts, Bool.and_eq_true, Bool.and_eq_true, hread, Option.any_eq_true,
    Option.isSome_iff_exists]
  constructor
  · rintro ⟨⟨⟨source, hsource, hpass⟩, language, hlanguage⟩, bytes, hbytes⟩
    exact ⟨source, language, bytes, hsource, by simpa using hpass, hlanguage, hbytes⟩
  · rintro ⟨source, language, bytes, hsource, hpass, hlanguage, hbytes⟩
    exact ⟨⟨⟨source, hsource, by simpa using hpass⟩, language, hlanguage⟩, bytes, hbytes⟩

/-- A file that counts is checked, with its verdicts as violations. -/
theorem checkFile_of_counts {sharedPass : Bool} {file : Path}
    (h : g.counts t sharedPass file = true) :
    g.checkFile t sharedPass file = .checked (g.verdicts t file) := by
  obtain ⟨source, language, bytes, hsource, hpass, hlanguage, hbytes⟩ := counts_iff.mp h
  have hkept : (!sharedPass && source == .sharedContracts) = false := by
    rcases hpass with rfl | hne
    · rfl
    · simp [hne]
  have hverdict : Violation.ofImport? g.classifier (file.relativeTo g.base) source =
      g.verdict? file source := funext (ofImport?_eq_verdict? file source)
  have himports : t.imports file = language.imports (Utf8.decodeLossy bytes) := by
    rw [Tree.imports, hlanguage, hbytes]
  simp only [checkFile, hsource, hkept, hlanguage, Tree.readSource, hbytes, Except.map, verdicts,
    himports, Violation.ofImports, hverdict, Bool.false_eq_true, if_false]

theorem checkFile_of_not_counts {sharedPass : Bool} {file : Path}
    (h : g.counts t sharedPass file = false) :
    (g.checkFile t sharedPass file).isChecked = false ∧
      (g.checkFile t sharedPass file).violations = [] := by
  rw [Bool.eq_false_iff, ne_eq, counts_iff] at h
  rw [checkFile]
  split
  · exact ⟨rfl, rfl⟩
  · next source hsource =>
    split
    · exact ⟨rfl, rfl⟩
    · next hpass =>
      split
      · exact ⟨rfl, rfl⟩
      · next language hlanguage =>
        split
        · exact ⟨rfl, rfl⟩
        · next text htext =>
          rw [Tree.readSource] at htext
          cases hbytes : t.read file with
          | error e => simp [hbytes, Except.map] at htext
          | ok bytes =>
            have hkept : sharedPass = true ∨ source ≠ .sharedContracts := by
              cases sharedPass <;> simp_all
            exact absurd ⟨source, language, bytes, hsource, hkept, hlanguage, hbytes⟩ h

theorem isChecked_checkFile (sharedPass : Bool) (file : Path) :
    (g.checkFile t sharedPass file).isChecked = g.counts t sharedPass file := by
  cases h : g.counts t sharedPass file with
  | true => rw [checkFile_of_counts h]; rfl
  | false => exact (checkFile_of_not_counts h).1

/-! ## One pass -/

theorem violations_pass (sharedPass : Bool) (files : List Path) :
    (g.pass t sharedPass files).flatMap FileResult.violations =
      (files.filter (g.counts t sharedPass)).flatMap (g.verdicts t) := by
  induction files with
  | nil => rfl
  | cons file files ih =>
    rw [pass, List.map_cons, List.flatMap_cons, ← pass, ih]
    by_cases h : g.counts t sharedPass file = true
    · rw [List.filter_cons_of_pos h, checkFile_of_counts h, List.flatMap_cons]
      rfl
    · rw [List.filter_cons_of_neg h, (checkFile_of_not_counts (Bool.eq_false_iff.mpr h)).2,
        List.nil_append]

theorem countP_pass (sharedPass : Bool) (files : List Path) :
    (g.pass t sharedPass files).countP FileResult.isChecked =
      (files.filter (g.counts t sharedPass)).length := by
  have hchecked : FileResult.isChecked ∘ g.checkFile t sharedPass = g.counts t sharedPass :=
    funext (isChecked_checkFile sharedPass)
  rw [pass, List.countP_map, List.countP_eq_length_filter, hchecked]

/-! ## A run -/

/-- The files that a run checks, in its order: those that count in the pass over the
shared contracts, if their root is a directory, and in the pass over the module root. -/
def analysed (g : Guard) (t : Tree) (source : FileSource) : List Path :=
  if t.isDir g.roots.moduleRoot then
    (g.roots.sharedRoot.filter t.isDir).toList.flatMap
        (fun root => (source root).files.filter (g.counts t true)) ++
      (source g.roots.moduleRoot).files.filter (g.counts t false)
  else []

def routeViolations (g : Guard) (t : Tree) : List Violation :=
  (if g.routing.isEmpty then Checked.none else g.routing.check t g.base).violations

/-- What a run finds is made of the files that it checks, and of nothing else that the
source of files gives. -/
theorem outcome_of_isDir {source : FileSource} (h : t.isDir g.roots.moduleRoot = true) :
    (g.run t source).outcome = .checked (Findings.sort
      ⟨(g.analysed t source).flatMap (g.verdicts t) ++ g.routeViolations t,
        (g.analysed t source).length⟩) := by
  have hshared : ∀ roots : List Path,
      ((roots.map source).flatMap fun l => g.pass t true l.files).flatMap FileResult.violations =
          (roots.flatMap fun root => (source root).files.filter (g.counts t true)).flatMap
            (g.verdicts t) ∧
        ((roots.map source).flatMap fun l => g.pass t true l.files).countP FileResult.isChecked =
          (roots.flatMap fun root => (source root).files.filter (g.counts t true)).length := by
    intro roots
    induction roots with
    | nil => exact ⟨rfl, rfl⟩
    | cons root roots ih =>
      simp only [List.map_cons, List.flatMap_cons, List.flatMap_append, List.countP_append,
        List.length_append, violations_pass, countP_pass, ih.1, ih.2, and_self]
  simp only [run, h, if_true, analysed, routeViolations, List.flatMap_append, List.countP_append,
    violations_pass, countP_pass, (hshared _).1, (hshared _).2, List.length_append]

/-! ## Which rules are reported -/

theorem isImport_of_breach? {source : Identity} {reference : Reference} {breach : Breach}
    (h : source.breach? reference = some breach) :
    [Rule.sharedContractsImport, .moduleContractsImport, .crossModuleImport].any
      (fun rule => breach.rule.code == rule.code) = true := by
  cases Identity.breach?_eq_some_iff.mp h with
  | sharedContracts => rfl
  | moduleContracts => rfl
  | acrossModules => rfl

/-- A verdict is about an import of a file with an identity, which breaks a rule there. -/
theorem mem_verdicts {file : Path} {v : Violation} :
    v ∈ g.verdicts t file ↔ ∃ source i reference breach,
      g.roots.identify file = some source ∧ i ∈ t.imports file ∧
        g.classifier.classify i.target = some reference ∧
        source.breach? reference = some breach ∧
        v = ⟨breach.rule.code, breach.rule.name, file.relativeTo g.base, i.line, i.target,
          breach.message⟩ := by
  rw [verdicts]
  constructor
  · intro h
    split at h
    · next source hsource =>
      obtain ⟨i, himport, hi⟩ := List.mem_filterMap.mp h
      obtain ⟨reference, hreference, hv⟩ := Option.bind_eq_some_iff.mp hi
      obtain ⟨breach, hbreach, rfl⟩ := Option.map_eq_some_iff.mp hv
      exact ⟨source, i, reference, breach, hsource, himport, hreference, hbreach, rfl⟩
    · exact absurd h List.not_mem_nil
  · rintro ⟨source, i, reference, breach, hsource, himport, hreference, hbreach, rfl⟩
    rw [hsource]
    refine List.mem_filterMap.mpr ⟨i, himport, ?_⟩
    rw [verdict?, hreference, Option.bind_some, hbreach, Option.map_some]

theorem isImport_of_mem_verdicts {file : Path} {v : Violation} (h : v ∈ g.verdicts t file) :
    v.isImport = true := by
  obtain ⟨_, _, _, breach, _, _, _, hbreach, rfl⟩ := mem_verdicts.mp h
  exact isImport_of_breach? hbreach

/-- Without routing checks the check that is left out would find nothing. -/
theorem routeViolations_eq (g : Guard) (t : Tree) :
    g.routeViolations t = (g.routing.check t g.base).violations := by
  rw [routeViolations]
  split
  · next h =>
    rw [Routing.isEmpty_iff.mp h, Routing.check_none]
  · rfl

theorem isImport_of_mem_routeViolations {v : Violation} (h : v ∈ g.routeViolations t) :
    v.isImport = false := by
  rw [routeViolations_eq] at h
  rcases Routing.code_of_mem_check h with h | h <;> simp [Violation.isImport, h] <;> decide

theorem eq_of_skipped {source : FileSource} {root : Path}
    (h : (g.run t source).outcome = .skipped root) : root = g.roots.moduleRoot := by
  cases hdir : t.isDir g.roots.moduleRoot with
  | true =>
    rw [outcome_of_isDir hdir] at h
    exact nomatch h
  | false =>
    rw [run_of_not_isDir hdir] at h
    exact (Outcome.skipped.inj h).symm

theorem isDir_of_checked {source : FileSource} {findings : Findings}
    (h : (g.run t source).outcome = .checked findings) : t.isDir g.roots.moduleRoot = true := by
  cases hdir : t.isDir g.roots.moduleRoot with
  | true => rfl
  | false =>
    rw [run_of_not_isDir hdir] at h
    exact nomatch h

/-- What a run finds are the verdicts on the files that it checks, and the violations of the
routing checks. -/
theorem mem_violations_run {source : FileSource} {findings : Findings} {v : Violation}
    (h : (g.run t source).outcome = .checked findings) :
    v ∈ findings.violations ↔ (∃ file ∈ g.analysed t source, v ∈ g.verdicts t file) ∨
      v ∈ (g.routing.check t g.base).violations := by
  rw [outcome_of_isDir (isDir_of_checked h)] at h
  obtain rfl := Outcome.checked.inj h
  rw [(Findings.sort_perm _).mem_iff, List.mem_append, List.mem_flatMap, routeViolations_eq]

theorem exists_mem_verdicts {source : FileSource} {findings : Findings} {v : Violation}
    (h : (g.run t source).outcome = .checked findings) (hv : v ∈ findings.violations)
    (himport : v.isImport = true) : ∃ file ∈ g.analysed t source, v ∈ g.verdicts t file := by
  rcases (mem_violations_run h).mp hv with hverdict | hroute
  · exact hverdict
  · rw [← routeViolations_eq] at hroute
    exact absurd (himport.symm.trans (isImport_of_mem_routeViolations hroute)) (by simp)

/-! ## With the files of a scan -/

/-- Whatever a scan gives counts, unless the place where it stands keeps it out. -/
theorem counts_of_mem_scan {sharedPass : Bool} {root file : Path}
    (h : file ∈ (Listing.scan t root).files) :
    g.counts t sharedPass file = true ↔ ∃ source, g.roots.identify file = some source ∧
      (sharedPass = true ∨ source ≠ .sharedContracts) := by
  obtain ⟨bytes, hbytes⟩ := Listing.read_of_mem_scan h
  have hlanguage : (Language.ofPath? file).isSome = true := by
    have hsource := Listing.isSource_of_mem_scan h
    rw [Listing.isSource, Bool.and_eq_true] at hsource
    rw [Language.isSome_ofPath?]
    exact hsource.1
  obtain ⟨language, hlanguage⟩ := Option.isSome_iff_exists.mp hlanguage
  rw [counts_iff]
  constructor
  · rintro ⟨source, _, _, hsource, hpass, _, _⟩
    exact ⟨source, hsource, hpass⟩
  · rintro ⟨source, hsource, hpass⟩
    exact ⟨source, language, bytes, hsource, hpass, hlanguage, hbytes⟩

theorem sharedRoot_roots {root : Path} (h : g.profile.roots.sharedRoot = some root) :
    g.roots.sharedRoot = some (g.base.join root) := by
  rw [roots, h, Option.map_some]

theorem identify_eq_sharedContracts_iff {file : Path} :
    g.roots.identify file = some .sharedContracts ↔ ∃ root, g.profile.roots.sharedRoot = some root ∧
      file.startsWith (g.base.join root) = true := by
  rw [Roots.identify_eq_sharedContracts_iff]
  constructor
  · rintro ⟨spelled, hspelled, hstarts⟩
    obtain ⟨root, hroot, rfl⟩ := Option.map_eq_some_iff.mp hspelled
    exact ⟨root, hroot, hstarts⟩
  · rintro ⟨root, hroot, hstarts⟩
    exact ⟨_, sharedRoot_roots hroot, hstarts⟩

theorem identify_of_mem_scan_shared {root file : Path}
    (hroot : g.profile.roots.sharedRoot = some root)
    (h : file ∈ (Listing.scan t (g.base.join root)).files) :
    g.roots.identify file = some .sharedContracts :=
  identify_eq_sharedContracts_iff.mpr ⟨root, hroot, Listing.startsWith_of_mem_scan h⟩

/-- What the pass over the shared contracts checks with the files of a scan. -/
theorem mem_shared_scan {file : Path} :
    file ∈ (g.roots.sharedRoot.filter t.isDir).toList.flatMap
        (fun root => (Listing.scan t root).files.filter (g.counts t true)) ↔
      ∃ root, g.profile.roots.sharedRoot = some root ∧ t.isDir (g.base.join root) = true ∧
        file ∈ (Listing.scan t (g.base.join root)).files ∧
        (g.roots.identify file).isSome = true := by
  rw [List.mem_flatMap]
  constructor
  · rintro ⟨spelled, hroot, hfile⟩
    rw [Option.mem_toList, Option.filter_eq_some_iff] at hroot
    obtain ⟨root, hroot', rfl⟩ := Option.map_eq_some_iff.mp hroot.1
    obtain ⟨hfile, -⟩ := List.mem_filter.mp hfile
    exact ⟨root, hroot', hroot.2, hfile, by rw [identify_of_mem_scan_shared hroot' hfile]; rfl⟩
  · rintro ⟨root, hroot, hdir, hfile, _⟩
    refine ⟨g.base.join root, ?_, List.mem_filter.mpr ⟨hfile, ?_⟩⟩
    · rw [Option.mem_toList, Option.filter_eq_some_iff]
      exact ⟨sharedRoot_roots hroot, hdir⟩
    · exact (counts_of_mem_scan hfile).mpr
        ⟨.sharedContracts, identify_of_mem_scan_shared hroot hfile, Or.inl rfl⟩

theorem mem_analysed_scan {file : Path} (h : t.isDir g.roots.moduleRoot = true) :
    file ∈ g.analysed t (Listing.scan t) ↔
      (∃ root, g.profile.roots.sharedRoot = some root ∧ t.isDir (g.base.join root) = true ∧
        file ∈ (Listing.scan t (g.base.join root)).files ∧
        (g.roots.identify file).isSome = true) ∨
      (file ∈ (Listing.scan t (g.base.join g.profile.roots.moduleRoot)).files ∧
        ∃ name strict, g.roots.identify file = some (.inModule name strict)) := by
  rw [analysed, if_pos h, List.mem_append, mem_shared_scan, List.mem_filter]
  refine or_congr Iff.rfl ⟨?_, ?_⟩
  · rintro ⟨hfile, hcounts⟩
    obtain ⟨source, hsource, hpass⟩ := (counts_of_mem_scan hfile).mp hcounts
    cases source with
    | sharedContracts => simp at hpass
    | inModule name strict => exact ⟨hfile, name, strict, hsource⟩
  · rintro ⟨hfile, name, strict, hsource⟩
    exact ⟨hfile, (counts_of_mem_scan hfile).mpr ⟨_, hsource, Or.inr (by simp)⟩⟩

/-- What a run over scans checks comes from a scan of one of its two roots. -/
theorem mem_scan_of_mem_analysed {file : Path} (h : file ∈ g.analysed t (Listing.scan t)) :
    ∃ root, (g.profile.roots.sharedRoot = some root ∨ g.profile.roots.moduleRoot = root) ∧
      file ∈ (Listing.scan t (g.base.join root)).files := by
  cases hdir : t.isDir g.roots.moduleRoot with
  | false => simp [analysed, hdir] at h
  | true =>
    rcases (mem_analysed_scan hdir).mp h with ⟨root, hroot, _, hfile, _⟩ | ⟨hfile, _⟩
    · exact ⟨root, Or.inl hroot, hfile⟩
    · exact ⟨_, Or.inr rfl, hfile⟩

theorem nodup_filter_scan (p : Path → Bool) (root : Path) :
    ((Listing.scan t root).files.filter p).Nodup := by
  have hplaces := List.pairwise_map.mp (Listing.nodup_resolve_scan t root)
  exact List.filter_sublist.nodup (hplaces.imp fun hne heq => hne (congrArg t.resolve heq))

/-- A run over scans checks no path twice: the passes differ in the identity of what
they check. -/
theorem nodup_analysed_scan (g : Guard) (t : Tree) :
    (g.analysed t (Listing.scan t)).Nodup := by
  rw [analysed]
  split
  · have hshared : ∀ file ∈ (g.roots.sharedRoot.filter t.isDir).toList.flatMap
        (fun root => (Listing.scan t root).files.filter (g.counts t true)),
        g.roots.identify file = some .sharedContracts := by
      intro file hfile
      obtain ⟨root, hroot, _, hfile, _⟩ := mem_shared_scan.mp hfile
      exact identify_of_mem_scan_shared hroot hfile
    refine List.nodup_append.mpr ⟨?_, nodup_filter_scan _ _, ?_⟩
    · cases g.roots.sharedRoot.filter t.isDir with
      | none => exact List.nodup_nil
      | some root => simpa using nodup_filter_scan (g.counts t true) root
    · rintro file hfile other hother rfl
      obtain ⟨hother, hcounts⟩ := List.mem_filter.mp hother
      obtain ⟨source, hsource, hpass⟩ := (counts_of_mem_scan hother).mp hcounts
      rw [hshared file hfile] at hsource
      obtain rfl := Option.some.inj hsource
      simp at hpass
  · exact List.nodup_nil

/-- The files that a run over scans has to check, each of them once: below the root of
shared contracts, if that is a directory, every file that has an identity, and below the
module root every file of a module.  They all have a language and can be read. -/
structure Covers (g : Guard) (t : Tree) (files : List Path) : Prop where
  nodup : files.Nodup
  mem_iff : ∀ file, file ∈ files ↔
    (∃ root, g.profile.roots.sharedRoot = some root ∧ t.isDir (g.base.join root) = true ∧
      file ∈ (Listing.scan t (g.base.join root)).files ∧
      (g.roots.identify file).isSome = true) ∨
    (file ∈ (Listing.scan t (g.base.join g.profile.roots.moduleRoot)).files ∧
      ∃ name strict, g.roots.identify file = some (.inModule name strict))
  language : ∀ file ∈ files, (Language.ofPath? file).isSome = true
  readable : ∀ file ∈ files, ∃ bytes, t.read file = .ok bytes

theorem covers_analysed_scan (h : t.isDir g.roots.moduleRoot = true) :
    g.Covers t (g.analysed t (Listing.scan t)) := by
  refine ⟨nodup_analysed_scan g t, fun file => mem_analysed_scan h, ?_, ?_⟩
  · intro file hfile
    obtain ⟨root, _, hfile⟩ := mem_scan_of_mem_analysed hfile
    have hsource := Listing.isSource_of_mem_scan hfile
    rw [Listing.isSource, Bool.and_eq_true, ← Language.isSome_ofPath?] at hsource
    exact hsource.1
  · intro file hfile
    obtain ⟨root, _, hfile⟩ := mem_scan_of_mem_analysed hfile
    exact Listing.read_of_mem_scan hfile

/-- Of what a run finds, the verdicts on the files that it checks are about boundary
rules, and nothing else is. -/
theorem filter_isImport_append (g : Guard) (t : Tree) (files : List Path) :
    (files.flatMap (g.verdicts t) ++ g.routeViolations t).filter Violation.isImport =
      files.flatMap (g.verdicts t) := by
  have hverdicts : (files.flatMap (g.verdicts t)).filter Violation.isImport =
      files.flatMap (g.verdicts t) := by
    refine List.filter_eq_self.mpr fun v hv => ?_
    obtain ⟨file, _, hv⟩ := List.mem_flatMap.mp hv
    exact isImport_of_mem_verdicts hv
  have hroutes : (g.routeViolations t).filter Violation.isImport = [] :=
    List.filter_eq_nil_iff.mpr fun v hv => by simp [isImport_of_mem_routeViolations hv]
  rw [List.filter_append, hverdicts, hroutes, List.append_nil]

theorem filter_isImport_perm (g : Guard) (t : Tree) (files : List Path) (n : Nat) :
    ((Findings.sort ⟨files.flatMap (g.verdicts t) ++ g.routeViolations t, n⟩).violations.filter
      Violation.isImport).Perm (files.flatMap (g.verdicts t)) := by
  have hsorted := (Findings.sort_perm
    ⟨files.flatMap (g.verdicts t) ++ g.routeViolations t, n⟩).filter Violation.isImport
  rwa [filter_isImport_append] at hsorted

/-- A run over the files of a scan is skipped, and asks for no files, if the module root
is no directory.  Otherwise the violations of boundary rules are the verdicts on the
files that it has to check, each file taken once. -/
theorem run_scan_outcome (g : Guard) (t : Tree) :
    (t.isDir (g.base.join g.profile.roots.moduleRoot) = false ∧
      (g.run t (Listing.scan t)).outcome =
        .skipped (g.base.join g.profile.roots.moduleRoot) ∧
      (g.run t (Listing.scan t)).asked = []) ∨
    (t.isDir (g.base.join g.profile.roots.moduleRoot) = true ∧
      ∃ (findings : Findings) (files : List Path),
        (g.run t (Listing.scan t)).outcome = .checked findings ∧ g.Covers t files ∧
        findings.filesChecked = files.length ∧
        (findings.violations.filter Violation.isImport).Perm
          (files.flatMap (g.verdicts t))) := by
  cases hdir : t.isDir (g.base.join g.profile.roots.moduleRoot) with
  | false =>
    have hrun : g.run t (Listing.scan t) = _ := run_of_not_isDir hdir
    exact Or.inl ⟨rfl, by rw [hrun]; rfl, by rw [hrun]⟩
  | true =>
    exact Or.inr ⟨rfl, _, g.analysed t (Listing.scan t), outcome_of_isDir hdir,
      covers_analysed_scan hdir, rfl, filter_isImport_perm g t _ _⟩

end Guard

/-! ## A small layout -/

namespace Layout

def php (s : String) : Entry := .file (Utf8.encode s.toList)

/-- A module root with a module of two files, and the shared contracts below it. -/
def nested : Tree where
  entries :=
    [(["modules".toList], .dir),
      (["modules".toList, "api".toList], .dir),
      (["modules".toList, "api".toList, "Bus.php".toList], php "use Domains\\User\\Mail;\n"),
      (["modules".toList, "user".toList], .dir),
      (["modules".toList, "user".toList, "Mail.php".toList], php "<?php\n"),
      (["modules".toList, "user".toList, "Store.php".toList], php "use Domains\\Order\\Total;\n")]
  valid := ⟨by decide, by decide, by decide, by decide⟩

def guard : Guard := ⟨".", ⟨"web".toList, "modules", some "modules/api"⟩, ⟨[], none⟩⟩

end Layout
end ModuleBoundary
