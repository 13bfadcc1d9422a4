/-
Every violation of a run shows in a line of a file.

A violation is about a line: its number is one of a line of the file in which it was found,
and that line has on it what the violation says (`Guard.Evidence`).  This goes back to the
two places where violations are made, the lines that break a routing rule
(`Routing.mem_violations_check`) and the imports of a file (`Guard.mem_verdicts`), and for
imports on to the places of targets in lines.
-/
import ModuleBoundary.Proofs.Import.Places
import ModuleBoundary.Proofs.Run.Analysis

namespace ModuleBoundary

theorem Tree.imports_eq {t : Tree} {file : Path} {language : Language} {bytes : Bytes}
    (hlanguage : Language.ofPath? file = some language) (hbytes : t.read file = .ok bytes) :
    t.imports file = language.imports (Utf8.decodeLossy bytes) := by
  rw [imports, hlanguage, hbytes]

/-- The violation names the line of the file by its number, and the file by its path from
the base; the lines are those of the decoded bytes. -/
structure Violation.IsAt (v : Violation) (t : Tree) (base file : Path) (line : Text) : Prop where
  file_eq : v.file = file.relativeTo base
  read_eq : ∃ bytes, t.read file = .ok bytes ∧
    1 ≤ v.line ∧ v.line ≤ (Text.lines (Utf8.decodeLossy bytes)).length ∧
    (Text.lines (Utf8.decodeLossy bytes))[v.line - 1]? = some line

namespace Guard

variable {g : Guard} {t : Tree} {source : FileSource} {v : Violation}

/-- What the line of a file shows of a violation.  The file is one in which the routing
rule is checked, or one whose imports are checked in the language of its extension. -/
inductive Evidence (g : Guard) (t : Tree) (source : FileSource) (v : Violation) (file : Path)
    (line : Text) : Prop
  | route {rule : Rule} {isBroken : Text → Bool}
      (hchecks : Routing.Checks g.routing t g.base rule isBroken file) (hcode : v.code = rule.code)
      (hbroken : isBroken line = true) (htarget : v.target = Text.trim line)
  | script (himport : v.isImport = true) (hfile : file ∈ g.analysed t source)
      (hlanguage : Language.ofPath? file = some .script)
      (htarget : Text.IsQuotedIn v.target line)
  | php (himport : v.isImport = true) (hfile : file ∈ g.analysed t source)
      (hlanguage : Language.ofPath? file = some .php)
      (htarget : Import.Use.Shows line v.target)

theorem counts_of_mem_analysed {file : Path} (h : file ∈ g.analysed t source) :
    ∃ sharedPass, g.counts t sharedPass file = true := by
  rw [analysed] at h
  split at h
  · rcases List.mem_append.mp h with h | h
    · obtain ⟨root, _, h⟩ := List.mem_flatMap.mp h
      exact ⟨true, (List.mem_filter.mp h).2⟩
    · exact ⟨false, (List.mem_filter.mp h).2⟩
  · exact absurd h List.not_mem_nil

theorem isAt_of_line {file : Path} {bytes : Bytes} {k : Nat} {line : Text}
    (hfile : v.file = file.relativeTo g.base) (hbytes : t.read file = .ok bytes)
    (hline : (Text.lines (Utf8.decodeLossy bytes))[k]? = some line) (hk : v.line = k + 1) :
    v.IsAt t g.base file line := by
  obtain ⟨hlt, _⟩ := List.getElem?_eq_some_iff.mp hline
  refine ⟨hfile, bytes, hbytes, ?_, ?_, ?_⟩
  · omega
  · omega
  · rw [hk, Nat.add_sub_cancel, hline]

theorem evidence_of_mem_check (h : v ∈ (g.routing.check t g.base).violations) :
    ∃ file line, v.IsAt t g.base file line ∧ g.Evidence t source v file line := by
  obtain ⟨rule, isBroken, file, hchecks, hv⟩ := Routing.mem_violations_check.mp h
  obtain ⟨bytes, k, line, hbytes, hline, hbroken, rfl⟩ := Routing.mem_violations_checkFile.mp hv
  exact ⟨file, line, isAt_of_line rfl hbytes hline rfl, .route hchecks rfl hbroken rfl⟩

theorem evidence_of_mem_verdicts {file : Path} (hfile : file ∈ g.analysed t source)
    (h : v ∈ g.verdicts t file) :
    ∃ line, v.IsAt t g.base file line ∧ g.Evidence t source v file line := by
  obtain ⟨_, i, _, breach, _, himport, _, hbreach, hv⟩ := mem_verdicts.mp h
  obtain ⟨sharedPass, hcounts⟩ := counts_of_mem_analysed hfile
  obtain ⟨_, language, bytes, _, _, hlanguage, hbytes⟩ := counts_iff.mp hcounts
  rw [Tree.imports_eq hlanguage hbytes, Language.imports] at himport
  obtain ⟨k, line, hline, htarget, hk⟩ := Import.mem_ofText.mp himport
  have hisImport := isImport_of_mem_verdicts h
  have hvtarget : v.target = i.target := by rw [hv]
  have hat : v.IsAt t g.base file line :=
    isAt_of_line (by rw [hv]) hbytes hline (by rw [hv]; exact hk)
  refine ⟨line, hat, ?_⟩
  cases language with
  | php =>
    refine .php hisImport hfile hlanguage ?_
    rw [hvtarget]
    exact Import.Use.shows_of_mem_targets htarget
  | script =>
    refine .script hisImport hfile hlanguage ?_
    rw [hvtarget]
    exact Import.Specifier.isQuotedIn_of_mem_targets htarget

/-- Every location that a run reports is real: the violation is at a line of a file that
can be read, and this line shows what the violation is about. -/
theorem run_evidence {findings : Findings} (h : (g.run t source).outcome = .checked findings)
    (hv : v ∈ findings.violations) :
    ∃ file line, v.IsAt t g.base file line ∧ g.Evidence t source v file line := by
  cases hdir : t.isDir g.roots.moduleRoot with
  | false =>
    rw [run_of_not_isDir hdir] at h
    exact nomatch h
  | true =>
    rw [outcome_of_isDir hdir] at h
    obtain rfl := Outcome.checked.inj h
    have hmem := (List.mergeSort_perm _ _).mem_iff.mp hv
    rcases List.mem_append.mp hmem with hverdict | hroute
    · obtain ⟨file, hfile, hverdict⟩ := List.mem_flatMap.mp hverdict
      obtain ⟨line, hline⟩ := evidence_of_mem_verdicts hfile hverdict
      exact ⟨file, line, hline⟩
    · rw [routeViolations_eq] at hroute
      exact evidence_of_mem_check hroute

/-- A group import behind a line that is no UTF-8, a module specifier, and a registration
file with an unfinished last line. -/
def mixed : Tree where
  entries :=
    [(["modules".toList], .dir),
      (["modules".toList, "user".toList], .dir),
      (["modules".toList, "user".toList, "Mail.php".toList],
        .file (0xFF :: 0x0D :: 0x0A :: Utf8.encode " use Domains\\Order\\{Total as T};".toList)),
      (["modules".toList, "user".toList, "mail.ts".toList],
        .file (Utf8.encode "\r\nimport('@/modules/order')".toList)),
      (["web.php".toList], .file (Utf8.encode "<?php\n\tglob('*.php');\r".toList))]
  valid := ⟨by decide, by decide, by decide, by decide⟩

def mixedGuard : Guard := ⟨".", ⟨"web".toList, "modules", none⟩, ⟨[], some "web.php"⟩⟩

def mixedReport : List Violation :=
  let across (file : Path) (target name : Text) : Violation :=
    ⟨Rule.code .crossModuleImport, Rule.name .crossModuleImport, file, 2, target,
      (Breach.acrossModules "user".toList name).message⟩
  [across "modules/user/Mail.php" "Domains\\Order\\Total".toList "Order".toList,
    across "modules/user/mail.ts" "@/modules/order".toList "order".toList,
    ⟨Rule.code .routeAutoDiscovery, Rule.name .routeAutoDiscovery, "web.php", 2,
      "glob('*.php');".toList, Rule.routeMessage .routeAutoDiscovery⟩]

theorem run_evidence_mixed :
    ∃ findings, (mixedGuard.run mixed (Listing.scan mixed)).outcome = .checked findings ∧
      ∀ v ∈ mixedReport, v ∈ findings.violations ∧
        ∃ file line, v.IsAt mixed mixedGuard.base file line ∧
          mixedGuard.Evidence mixed (Listing.scan mixed) v file line := by
  have hdir : mixed.isDir mixedGuard.roots.moduleRoot = true := by decide +kernel
  have houtcome := @outcome_of_isDir mixedGuard mixed (Listing.scan mixed) hdir
  have hfound : (mixedGuard.analysed mixed (Listing.scan mixed)).flatMap
      (mixedGuard.verdicts mixed) ++ mixedGuard.routeViolations mixed = mixedReport := by
    decide +kernel
  rw [hfound] at houtcome
  refine ⟨_, houtcome, fun v hv => ?_⟩
  have hmem := (List.mergeSort_perm mixedReport Violation.le).mem_iff.mpr hv
  exact ⟨hmem, run_evidence houtcome hmem⟩

end Guard
end ModuleBoundary
