/-
Which files break which rule.

Whether an import is reported, and under which code, is a matter of three things: where the
file stands below the two roots, what module the target names, and whether it points at the
contracts of that module.  `Guard.Breaks` says so rule by rule, in terms of paths and without
the identity of the file.  The theorem this file exists for is `run_rules`: what a run over a
scan reports about imports breaks the rule of its code, and an import that breaks a rule is
reported.  Two rules can forbid one import, where the root of shared contracts lies in the
contracts of a module; it is reported under one of them all the same.

That a report is about one file needs the paths in it to be told apart.  They are, because
each file of a run lies below the base or is absolute (`startsWith_base_of_mem_scan`), and no
path has both a beginning that was cut off and a root behind it
(`Path.components_eq_of_relativeTo_eq`).
-/
import ModuleBoundary.Proofs.Path.Relative
import ModuleBoundary.Proofs.Reference.Names
import ModuleBoundary.Proofs.Run.Analysis

namespace ModuleBoundary

structure Violation.IsOn (v : Violation) (base file : Path) (i : Import) : Prop where
  file_eq : v.file = file.relativeTo base
  line_eq : v.line = i.line
  target_eq : v.target = i.target

namespace Guard

open Identity (InContracts)

variable {g : Guard} {t : Tree} {file : Path} {i : Import} {r : Reference} {v : Violation}

/-- A file that a run over a scan checks has an import that is classified as the reference. -/
structure Refers (g : Guard) (t : Tree) (file : Path) (i : Import) (r : Reference) : Prop where
  analysed : file ∈ g.analysed t (Listing.scan t)
  imported : i ∈ t.imports file
  classified : g.classifier.classify i.target = some r

/-- The path of the file goes on behind the module root by names, of which these are the texts. -/
def IsBelowModules (g : Guard) (file : Path) (names : List Text) : Prop :=
  ∃ behind : List Bytes, file.components =
      (g.base.join g.profile.roots.moduleRoot).components ++ behind.map .name ∧
    behind.filterMap Utf8.decode? = names

/-- The reference breaks a rule in the file.  A file in the module root itself is a module of
its own, with nothing below. -/
inductive Breaks (g : Guard) (file : Path) (r : Reference) : Rule → Prop
  | sharedContracts {root : Path} (hroot : g.profile.roots.sharedRoot = some root)
      (hfile : file.startsWith (g.base.join root) = true) :
      Breaks g file r .sharedContractsImport
  | moduleContracts {m : Text} {below : List Text}
      (hfile : g.IsBelowModules file (m :: "contracts".toList :: below)) (hbelow : below ≠ [])
      (hm : isShared m = false) (hne : m ≠ r.moduleName) :
      Breaks g file r .moduleContractsImport
  | crossModule {m : Text} {below : List Text} (hfile : g.IsBelowModules file (m :: below))
      (hbelow : ¬InContracts below) (hm : isShared m = false) (hne : m ≠ r.moduleName)
      (hlayer : r.layer = .internals) :
      Breaks g file r .crossModuleImport

/-! ## Places and identities -/

theorem startsWith_of_mem_analysed (h : file ∈ g.analysed t (Listing.scan t)) :
    file.startsWith g.base = true ∨ file.isAbsolute = true := by
  obtain ⟨root, _, hfile⟩ := mem_scan_of_mem_analysed h
  exact Listing.startsWith_base_of_mem_scan hfile

theorem isBelowModules_of_identify {name : Text} {strict : Bool}
    (hfile : file ∈ g.analysed t (Listing.scan t))
    (h : g.roots.identify file = some (.inModule name strict)) :
    ∃ below, g.IsBelowModules file (name :: below) ∧ isShared name = false ∧
      strict = decide (InContracts below) := by
  have hscan : file ∈ (Listing.scan t g.roots.moduleRoot).files := by
    -- A scan below the root of shared contracts gives shared contracts only.
    obtain ⟨root, hroot | rfl, hscan⟩ := mem_scan_of_mem_analysed hfile
    · rw [identify_of_mem_scan_shared hroot hscan] at h
      exact nomatch h
    · exact hscan
  obtain ⟨behind, hbehind⟩ := Listing.components_of_mem_scan hscan
  obtain ⟨-, below, htexts, hshared, hstrict⟩ := (Roots.identify_eq_inModule_iff hbehind).mp h
  exact ⟨below, ⟨behind, hbehind, htexts⟩, hshared, hstrict⟩

theorem identify_of_isBelowModules {name : Text} {below : List Text}
    (hplace : g.IsBelowModules file (name :: below)) (hname : isShared name = false)
    (hshared : g.roots.identify file ≠ some .sharedContracts) :
    g.roots.identify file = some (.inModule name (decide (InContracts below))) := by
  obtain ⟨behind, hbehind, htexts⟩ := hplace
  have hfile : file.components = g.roots.moduleRoot.components ++ behind.map .name := hbehind
  exact (Roots.identify_eq_inModule_iff hfile).mpr ⟨hshared, below, htexts, hname, rfl⟩

theorem breaks_of_breaches {source : Identity} {breach : Breach}
    (hfile : file ∈ g.analysed t (Listing.scan t)) (hsource : g.roots.identify file = some source)
    (h : source.Breaches r breach) : g.Breaks file r breach.rule := by
  cases h with
  | sharedContracts =>
    obtain ⟨root, hroot, hstarts⟩ := identify_eq_sharedContracts_iff.mp hsource
    exact .sharedContracts hroot hstarts
  | moduleContracts hne =>
    obtain ⟨below, hplace, hshared, hstrict⟩ := isBelowModules_of_identify hfile hsource
    obtain ⟨more, hmore, rfl⟩ := of_decide_eq_true hstrict.symm
    exact .moduleContracts hplace hmore hshared hne
  | acrossModules hne hlayer =>
    obtain ⟨below, hplace, hshared, hstrict⟩ := isBelowModules_of_identify hfile hsource
    exact .crossModule hplace (of_decide_eq_false hstrict.symm) hshared hne hlayer

theorem exists_breaches_of_breaks {rule : Rule} (h : g.Breaks file r rule) :
    ∃ source breach, g.roots.identify file = some source ∧ source.Breaches r breach := by
  -- Shared contracts come first in the table, also where another rule is broken as well.
  by_cases hshared : g.roots.identify file = some .sharedContracts
  · exact ⟨_, _, hshared, .sharedContracts r⟩
  cases h with
  | sharedContracts hroot hstarts =>
    exact absurd (identify_eq_sharedContracts_iff.mpr ⟨_, hroot, hstarts⟩) hshared
  | moduleContracts hplace hbelow hm hne =>
    have hsource := identify_of_isBelowModules hplace hm hshared
    rw [decide_eq_true ⟨_, hbelow, rfl⟩] at hsource
    exact ⟨_, _, hsource, .moduleContracts hne⟩
  | crossModule hplace hbelow hm hne hlayer =>
    have hsource := identify_of_isBelowModules hplace hm hshared
    rw [decide_eq_false hbelow] at hsource
    exact ⟨_, _, hsource, .acrossModules hne hlayer⟩

/-! ## What is reported on one import -/

theorem identify_eq_of_relativeTo_eq {p q : Path} (hp : p ∈ g.analysed t (Listing.scan t))
    (hq : q ∈ g.analysed t (Listing.scan t)) (h : p.relativeTo g.base = q.relativeTo g.base) :
    g.roots.identify p = g.roots.identify q := by
  exact g.roots.identify_congr (Path.components_eq_of_relativeTo_eq
    (startsWith_of_mem_analysed hp) (startsWith_of_mem_analysed hq) h)

theorem breach_of_isOn {findings : Findings}
    (h : (g.run t (Listing.scan t)).outcome = .checked findings) (hv : v ∈ findings.violations)
    (himport : v.isImport = true) (hon : v.IsOn g.base file i) (hr : g.Refers t file i r) :
    ∃ source breach, g.roots.identify file = some source ∧ source.breach? r = some breach ∧
      v.code = breach.rule.code := by
  -- The verdict may be on another file that is reported by the same path; it has the same place.
  obtain ⟨other, hother, hv⟩ := exists_mem_verdicts h hv himport
  obtain ⟨source, j, r', breach, hsource, _, hr', hbreach, rfl⟩ := mem_verdicts.mp hv
  rw [identify_eq_of_relativeTo_eq hother hr.analysed hon.file_eq] at hsource
  have htarget : j.target = i.target := hon.target_eq
  rw [htarget, hr.classified] at hr'
  obtain rfl := Option.some.inj hr'
  exact ⟨source, breach, hsource, hbreach, rfl⟩

theorem exists_isOn_of_breach {findings : Findings}
    (h : (g.run t (Listing.scan t)).outcome = .checked findings) (hr : g.Refers t file i r)
    {source : Identity} {breach : Breach} (hsource : g.roots.identify file = some source)
    (hbreach : source.breach? r = some breach) :
    ∃ v ∈ findings.violations, v.isImport = true ∧ v.IsOn g.base file i ∧
      v.code = breach.rule.code := by
  have hv := mem_verdicts.mpr
    ⟨source, i, r, breach, hsource, hr.imported, hr.classified, hbreach, rfl⟩
  exact ⟨_, (mem_violations_run h).mpr (Or.inl ⟨file, hr.analysed, hv⟩),
    isImport_of_mem_verdicts hv, ⟨rfl, rfl, rfl⟩, rfl⟩

/-- What a run over a scan reports on imports are references that name a module and break the
rule of the reported code, and every reference that breaks a rule is reported, with one code. -/
theorem run_rules {findings : Findings}
    (h : (g.run t (Listing.scan t)).outcome = .checked findings) :
    (∀ v ∈ findings.violations, v.isImport = true →
      (∃ file i r, g.Refers t file i r ∧ v.IsOn g.base file i) ∧
      ∀ file i r, g.Refers t file i r → v.IsOn g.base file i →
        r.Names i.target ∧ ∃ rule, v.code = rule.code ∧ g.Breaks file r rule) ∧
    ∀ file i r, g.Refers t file i r → (∃ rule, g.Breaks file r rule) →
      ∃ rule, g.Breaks file r rule ∧
        (∃ v ∈ findings.violations, v.isImport = true ∧ v.IsOn g.base file i ∧
          v.code = rule.code) ∧
        ∀ v ∈ findings.violations, v.isImport = true → v.IsOn g.base file i →
          v.code = rule.code := by
  refine ⟨fun v hv himport => ⟨?_, ?_⟩, ?_⟩
  · obtain ⟨file, hfile, hverdict⟩ := exists_mem_verdicts h hv himport
    obtain ⟨_, i, r, _, _, hi, hr, _, rfl⟩ := mem_verdicts.mp hverdict
    exact ⟨file, i, r, ⟨hfile, hi, hr⟩, rfl, rfl, rfl⟩
  · intro file i r hr hon
    obtain ⟨source, breach, hsource, hbreach, hcode⟩ := breach_of_isOn h hv himport hon hr
    exact ⟨Classifier.names_of_classify hr.classified, breach.rule, hcode,
      breaks_of_breaches hr.analysed hsource (Identity.breach?_eq_some_iff.mp hbreach)⟩
  · rintro file i r hr ⟨_, hbreaks⟩
    obtain ⟨source, breach, hsource, hbreaches⟩ := exists_breaches_of_breaks hbreaks
    have hbreach := Identity.breach?_eq_some_iff.mpr hbreaches
    refine ⟨breach.rule, breaks_of_breaches hr.analysed hsource hbreaches,
      exists_isOn_of_breach h hr hsource hbreach, fun v hv himport hon => ?_⟩
    -- Whatever is reported there is the answer of one table to one reference.
    obtain ⟨source', breach', hsource', hbreach', hcode⟩ := breach_of_isOn h hv himport hon hr
    obtain rfl := Option.some.inj (hsource.symm.trans hsource')
    obtain rfl := Option.some.inj (hbreach.symm.trans hbreach')
    exact hcode

def layered : Tree where
  entries :=
    [(["modules".toList], .dir),
      (["modules".toList, "user".toList], .dir),
      (["modules".toList, "user".toList, "Mail.php".toList], Layout.php "use Domains\\Order\\Total;\n"),
      (["modules".toList, "user".toList, "contracts".toList], .dir),
      (["modules".toList, "user".toList, "contracts".toList, "Port.php".toList],
        Layout.php "use Domains\\Order\\Total;\n"),
      (["modules".toList, "user".toList, "contracts".toList, "api".toList], .dir),
      (["modules".toList, "user".toList, "contracts".toList, "api".toList, "Bus.php".toList],
        Layout.php "use Domains\\Order\\Total;\n")]
  valid := ⟨by decide, by decide, by decide, by decide⟩

def layeredGuard : Guard :=
  ⟨".", ⟨"web".toList, "modules", some "modules/user/contracts/api"⟩, ⟨[], none⟩⟩

/-- In the file of the shared contracts two rules forbid the import, and one is reported. -/
theorem run_rules_layered :
    ∃ findings, (layeredGuard.run layered (Listing.scan layered)).outcome = .checked findings ∧
      (findings.violations.map Violation.code).Perm
        ["CP001".toList, "CP003".toList, "CP002".toList] ∧
      ∃ file i r, layeredGuard.Refers layered file i r ∧
        layeredGuard.Breaks file r .sharedContractsImport ∧
        layeredGuard.Breaks file r .moduleContractsImport ∧
        ∃ rule, layeredGuard.Breaks file r rule ∧
          (∃ v ∈ findings.violations, v.isImport = true ∧ v.IsOn layeredGuard.base file i ∧
            v.code = rule.code) ∧
          ∀ v ∈ findings.violations, v.isImport = true → v.IsOn layeredGuard.base file i →
            v.code = rule.code := by
  have hdir : layered.isDir layeredGuard.roots.moduleRoot = true := by decide +kernel
  have houtcome := @outcome_of_isDir layeredGuard layered (Listing.scan layered) hdir
  have hcodes : ((layeredGuard.analysed layered (Listing.scan layered)).flatMap
      (layeredGuard.verdicts layered) ++ layeredGuard.routeViolations layered).map Violation.code =
        ["CP001".toList, "CP003".toList, "CP002".toList] := by
    decide +kernel
  let file : Path := "./modules/user/contracts/api/Bus.php"
  let i : Import := ⟨"Domains\\Order\\Total".toList, 1⟩
  let r : Reference := ⟨"Order".toList, .internals, .qualified⟩
  have hr : layeredGuard.Refers layered file i r :=
    ⟨by decide +kernel, by decide +kernel, by decide +kernel⟩
  have hshared : layeredGuard.Breaks file r .sharedContractsImport :=
    .sharedContracts rfl (by decide +kernel)
  have hmodule : layeredGuard.Breaks file r .moduleContractsImport := by
    have hplace : layeredGuard.IsBelowModules file
        ("user".toList :: "contracts".toList :: ["api".toList, "Bus.php".toList]) :=
      ⟨["user".toList, "contracts".toList, "api".toList, "Bus.php".toList], by decide +kernel,
        by decide +kernel⟩
    exact .moduleContracts hplace (by decide) (by decide) (by decide)
  refine ⟨_, houtcome, ?_, file, i, r, hr, hshared, hmodule,
    (run_rules houtcome).2 file i r hr ⟨_, hshared⟩⟩
  exact hcodes ▸ (List.mergeSort_perm _ _).map Violation.code

/-- The path of the file is that of the module root with these names behind it, whatever bytes they
are. -/
def IsAt (g : Guard) (file : Path) (behind : List Bytes) : Prop :=
  file.components = (g.base.join g.profile.roots.moduleRoot).components ++ behind.map .name

instance (g : Guard) (file : Path) (behind : List Bytes) : Decidable (g.IsAt file behind) :=
  inferInstanceAs (Decidable (_ = _))

/-- A file of its own in the module root, and a directory between a module and its contracts with
a name that is no text. -/
def stray : Tree where
  entries :=
    [(["modules".toList], .dir),
      (["modules".toList, "index.php".toList], Layout.php "use Domains\\Order\\Total;\n"),
      (["modules".toList, "billing".toList], .dir),
      (["modules".toList, "billing".toList, [0xFF]], .dir),
      (["modules".toList, "billing".toList, [0xFF], "contracts".toList], .dir),
      (["modules".toList, "billing".toList, [0xFF], "contracts".toList, "Port.php".toList],
        Layout.php "use Domains\\Order\\Total;\n")]
  valid := ⟨by decide, by decide, by decide, by decide⟩

def strayGuard : Guard := ⟨".", ⟨"web".toList, "modules", none⟩, ⟨[], none⟩⟩

def strayFile : Path := "./modules/index.php"

def strayPort : Path := .join "./modules/billing" (.ofNames
  [[0xFF], Utf8.encode "contracts".toList, Utf8.encode "Port.php".toList])

theorem analysed_stray :
    strayGuard.analysed stray (Listing.scan stray) = [strayFile, strayPort] := by decide +kernel

/-- What the run reports is reported of the two files, and each of them is told by its path. -/
theorem exists_run_stray : ∃ findings,
    (strayGuard.run stray (Listing.scan stray)).outcome = .checked findings ∧
      ∀ file ∈ [strayFile, strayPort], ∃ v ∈ findings.violations,
        (strayGuard.verdicts stray file).map Violation.code = [v.code] ∧
          ∀ other ∈ [strayFile, strayPort], v.file = other.relativeTo strayGuard.base →
            other = file := by
  have hdir : stray.isDir strayGuard.roots.moduleRoot = true := by decide +kernel
  have houtcome := @outcome_of_isDir strayGuard stray (Listing.scan stray) hdir
  have hfound : ∀ file ∈ [strayFile, strayPort], ∃ v ∈ (strayGuard.analysed stray
      (Listing.scan stray)).flatMap (strayGuard.verdicts stray) ++ strayGuard.routeViolations stray,
        (strayGuard.verdicts stray file).map Violation.code = [v.code] ∧
          ∀ other ∈ [strayFile, strayPort], v.file = other.relativeTo strayGuard.base →
            other = file := by
    decide +kernel
  refine ⟨_, houtcome, fun file hfile => ?_⟩
  obtain ⟨v, hv, hrest⟩ := hfound file hfile
  exact ⟨v, (List.mergeSort_perm _ _).mem_iff.mpr hv, hrest⟩

/-- The rule across modules is also broken in the module root itself, and the rule for the contracts
of a module also in a directory that is not right below the module. -/
theorem not_forall_isAt :
    (¬ ∀ (g : Guard) (t : Tree) (findings : Findings),
      (g.run t (Listing.scan t)).outcome = .checked findings →
      ∀ v ∈ findings.violations, v.code = Rule.crossModuleImport.code →
        ∃ file ∈ g.analysed t (Listing.scan t), v.file = file.relativeTo g.base ∧
          ∃ m more, more ≠ [] ∧ g.IsAt file (m :: more)) ∧
    ¬ ∀ (g : Guard) (t : Tree) (findings : Findings),
      (g.run t (Listing.scan t)).outcome = .checked findings →
      ∀ v ∈ findings.violations, v.code = Rule.moduleContractsImport.code →
        ∃ file ∈ g.analysed t (Listing.scan t), v.file = file.relativeTo g.base ∧
          ∃ m more, more ≠ [] ∧ g.IsAt file (m :: Utf8.encode "contracts".toList :: more) := by
  obtain ⟨findings, hrun, hfound⟩ := exists_run_stray
  constructor
  · intro h
    obtain ⟨v, hv, hcode, htold⟩ := hfound strayFile List.mem_cons_self
    have hverdicts : (strayGuard.verdicts stray strayFile).map Violation.code =
        [Rule.crossModuleImport.code] := by decide +kernel
    obtain ⟨file, hfile, hpath, m, more, hne, hat⟩ :=
      h strayGuard stray findings hrun v hv (List.singleton_inj.mp (hcode.symm.trans hverdicts))
    rw [analysed_stray] at hfile
    obtain rfl := htold file hfile hpath
    have hplace : strayGuard.IsAt strayFile [Utf8.encode "index.php".toList] := by decide +kernel
    have hbehind := List.append_cancel_left (hat.symm.trans hplace)
    exact hne (by simpa using (List.cons.inj hbehind).2)
  · intro h
    obtain ⟨v, hv, hcode, htold⟩ := hfound strayPort (by decide)
    have hverdicts : (strayGuard.verdicts stray strayPort).map Violation.code =
        [Rule.moduleContractsImport.code] := by decide +kernel
    obtain ⟨file, hfile, hpath, m, more, hne, hat⟩ :=
      h strayGuard stray findings hrun v hv (List.singleton_inj.mp (hcode.symm.trans hverdicts))
    rw [analysed_stray] at hfile
    obtain rfl := htold file hfile hpath
    have hplace : strayGuard.IsAt strayPort [Utf8.encode "billing".toList, [0xFF],
        Utf8.encode "contracts".toList, Utf8.encode "Port.php".toList] := by decide +kernel
    have hbehind := List.append_cancel_left (hat.symm.trans hplace)
    have hlayer := (List.cons.inj (List.cons.inj hbehind).2).1
    exact absurd (Component.name.inj hlayer) (by decide)

end Guard
end ModuleBoundary
