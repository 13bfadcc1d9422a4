/-
What a routing check finds, file by file.

In a file a check finds one violation for each line that breaks the rule, in the order of the
lines (`FlagsExactly`), and nothing if the file cannot be read.  What it finds for all patterns
together are such blocks, one behind the other, and a file has as many of them as it is matched
times (`violations_checkDefinitions`).
-/
import ModuleBoundary.Proofs.Routing.Sites

namespace ModuleBoundary
namespace Routing

variable {rule : Rule} {isBroken : Text → Bool}

/-! ## One file -/

/-- The violations are those of the lines of the file that break the rule, one for each of them,
in the order of the lines. -/
structure FlagsExactly (t : Tree) (base : Path) (rule : Rule) (Breaks : Text → Prop) (file : Path)
    (violations : List Violation) : Prop where
  ascending : violations.Pairwise fun v w => v.line < w.line
  mem_iff : ∀ v, v ∈ violations ↔ ∃ bytes k line, t.read file = .ok bytes ∧
    (Text.lines (Utf8.decodeLossy bytes))[k]? = some line ∧ Breaks line ∧
      v = ⟨rule.code, rule.name, file.relativeTo base, k + 1, Text.trim line, rule.routeMessage⟩

theorem ascending_lineViolations (reported : Path) (lines : List Text) :
    (lineViolations rule isBroken reported lines).Pairwise fun v w => v.line < w.line := by
  have hnumbers : (lines.zipIdx 1).Pairwise fun l m => l.2 < m.2 := by
    refine List.pairwise_map.mp ?_
    rw [List.zipIdx_map_snd]
    exact List.pairwise_lt_range'
  exact List.pairwise_map.mpr (hnumbers.filter _)

theorem ascending_checkFile (t : Tree) (base : Path) (rule : Rule) (isBroken : Text → Bool)
    (file : Path) :
    (checkFile t base rule isBroken file).violations.Pairwise fun v w => v.line < w.line := by
  rw [checkFile]
  cases t.readSource file with
  | ok s => exact ascending_lineViolations _ _
  | error e => exact List.Pairwise.nil

theorem flagsExactly_checkFile {Breaks : Text → Prop}
    (h : ∀ line, isBroken line = true ↔ Breaks line) (t : Tree) (base file : Path) :
    FlagsExactly t base rule Breaks file (checkFile t base rule isBroken file).violations := by
  refine ⟨ascending_checkFile t base rule isBroken file, fun v => ?_⟩
  rw [mem_violations_checkFile]
  simp only [h]

/-! ## All patterns -/

def matchedBy (t : Tree) (base : Path) (glob : Text) : List Path :=
  match Glob.ofText? (base.join (.ofText glob)).text with
  | .none => []
  | some g => (g.expand t).filter fun p => t.isFile p && isPhp p

def matched (r : Routing) (t : Tree) (base : Path) : List Path := r.globs.flatMap (matchedBy t base)

def definitionsIn (t : Tree) (base file : Path) : List Violation :=
  (checkFile t base .inlineRouteDefinition RouteLine.isDefinition file).violations

theorem violations_checkGlob (t : Tree) (base : Path) (glob : Text) :
    (checkGlob t base glob).violations = (matchedBy t base glob).flatMap (definitionsIn t base) := by
  rw [checkGlob, matchedBy]
  cases Glob.ofText? (base.join (.ofText glob)).text with
  | none => rfl
  | some g =>
    show (Checked.concat _).violations = _
    rw [Checked.violations_concat, List.flatMap_map]
    rfl

/-- A file has a block for each time that it is matched. -/
theorem violations_checkDefinitions (r : Routing) (t : Tree) (base : Path) :
    (r.checkDefinitions t base).violations = (r.matched t base).flatMap (definitionsIn t base) := by
  rw [checkDefinitions, Checked.violations_concat, List.flatMap_map, matched, List.flatMap_assoc]
  simp only [violations_checkGlob]

theorem file_of_mem_definitionsIn {t : Tree} {base file : Path} {v : Violation}
    (h : v ∈ definitionsIn t base file) : v.file = file.relativeTo base := by
  obtain ⟨_, _, _, _, _, _, rfl⟩ := mem_violations_checkFile.mp h
  rfl

/-- What is reported of one place, is reported of the files that are reported as it. -/
theorem filter_checkDefinitions (r : Routing) (t : Tree) (base : Path) (place : List Component) :
    (r.checkDefinitions t base).violations.filter (fun v => decide (v.file.components = place)) =
      ((r.matched t base).filter fun p => decide ((p.relativeTo base).components = place)).flatMap
        (definitionsIn t base) := by
  rw [violations_checkDefinitions]
  induction r.matched t base with
  | nil => rfl
  | cons p files ih =>
    rw [List.flatMap_cons, List.filter_append, ih]
    by_cases h : (p.relativeTo base).components = place
    · have hall : (definitionsIn t base p).filter (fun v => decide (v.file.components = place)) =
          definitionsIn t base p := by
        refine List.filter_eq_self.mpr fun v hv => ?_
        rw [file_of_mem_definitionsIn hv]
        exact decide_eq_true h
      rw [hall, List.filter_cons, if_pos (decide_eq_true h), List.flatMap_cons]
    · have hnone : (definitionsIn t base p).filter (fun v => decide (v.file.components = place)) =
          [] := by
        refine List.filter_eq_nil_iff.mpr fun v hv => ?_
        rw [file_of_mem_definitionsIn hv, decide_eq_true_eq]
        exact h
      rw [hnone, List.nil_append, List.filter_cons, if_neg (by simpa using h)]

end Routing
end ModuleBoundary
