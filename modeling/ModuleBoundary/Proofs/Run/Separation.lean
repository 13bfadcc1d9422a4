/-
Boundary rules and routing rules in one run.

A run keeps the violations of both in one list and sorts it, and it leaves the routing
checks out if there are none to make.  Neither shows in what it finds: sorting commutes
with choosing (`Findings.filter_sort`), and checks that are left out would find nothing
(`Guard.routeViolations_eq`).  So `run_separates` can say for all routing checks at once
what a run finds against the boundary rules, and for all profiles at once what it finds
against the routing rules.
-/
import ModuleBoundary.Proofs.Run.Analysis

namespace ModuleBoundary

namespace Violation

def isRoute (v : Violation) : Bool :=
  [Rule.inlineRouteDefinition, .routeAutoDiscovery].any fun rule => v.code == rule.code

theorem isRoute_of_isImport {v : Violation} (h : v.isImport = true) : v.isRoute = false := by
  obtain ⟨rule, hrule, hcode⟩ := List.any_eq_true.mp h
  have hv : v.code = rule.code := by simpa using hcode
  rw [isRoute, hv]
  simp only [List.mem_cons, List.not_mem_nil, or_false] at hrule
  rcases hrule with rfl | rfl | rfl <;> decide

end Violation

namespace Guard

variable {g : Guard} {t : Tree}

theorem isRoute_of_mem_routeViolations {v : Violation} (h : v ∈ g.routeViolations t) :
    v.isRoute = true := by
  rw [routeViolations_eq] at h
  rcases Routing.code_of_mem_check h with h | h <;> simp [Violation.isRoute, h]

theorem filter_isRoute_append (g : Guard) (t : Tree) (files : List Path) :
    (files.flatMap (g.verdicts t) ++ g.routeViolations t).filter Violation.isRoute =
      g.routeViolations t := by
  have hverdicts : (files.flatMap (g.verdicts t)).filter Violation.isRoute = [] := by
    refine List.filter_eq_nil_iff.mpr fun v hv => ?_
    obtain ⟨file, _, hv⟩ := List.mem_flatMap.mp hv
    simp [Violation.isRoute_of_isImport (isImport_of_mem_verdicts hv)]
  have hroutes : (g.routeViolations t).filter Violation.isRoute = g.routeViolations t :=
    List.filter_eq_self.mpr fun v hv => isRoute_of_mem_routeViolations hv
  rw [List.filter_append, hverdicts, hroutes, List.nil_append]

/-- The findings of a run, taken apart: the verdicts on the files that it checks and the
findings of the routing checks, each sorted on its own. -/
theorem outcome_separates {source : FileSource} (h : t.isDir g.roots.moduleRoot = true) :
    ∃ findings, (g.run t source).outcome = .checked findings ∧
      findings.filesChecked = (g.analysed t source).length ∧
      findings.violations.filter Violation.isImport =
        ((g.analysed t source).flatMap (g.verdicts t)).mergeSort Violation.le ∧
      findings.violations.filter Violation.isRoute =
        (g.routing.check t g.base).violations.mergeSort Violation.le := by
  refine ⟨_, outcome_of_isDir h, rfl, ?_, ?_⟩
  · rw [Findings.filter_sort, filter_isImport_append]
  · rw [Findings.filter_sort, filter_isRoute_append, routeViolations_eq]

/-- The two kinds of checks do not interfere.  For all routing checks alike a run is
skipped, or it checks as many files and finds the same violations of boundary rules in
the same order.  What it finds against the routing rules is what these checks find on
their own, sorted, whatever the profile is. -/
theorem run_separates (base : Path) (t : Tree) (source : FileSource) (profile : Profile) :
    (t.isDir (base.join profile.roots.moduleRoot) = false ∧ ∀ routing : Routing,
      (run ⟨base, profile, routing⟩ t source).outcome =
        .skipped (base.join profile.roots.moduleRoot)) ∨
    (t.isDir (base.join profile.roots.moduleRoot) = true ∧
      ∃ (files : Nat) (imports : List Violation), ∀ routing : Routing, ∃ findings,
        (run ⟨base, profile, routing⟩ t source).outcome = .checked findings ∧
        findings.filesChecked = files ∧
        findings.violations.filter Violation.isImport = imports ∧
        findings.violations.filter Violation.isRoute =
          (routing.check t base).violations.mergeSort Violation.le) := by
  cases hdir : t.isDir (base.join profile.roots.moduleRoot) with
  | false =>
    refine Or.inl ⟨rfl, fun routing => ?_⟩
    have hrun : run ⟨base, profile, routing⟩ t source = _ := run_of_not_isDir hdir
    rw [hrun]
    rfl
  | true =>
    -- The files that are checked and the verdicts on them do not look at the routing checks.
    let g : Guard := ⟨base, profile, .none⟩
    refine Or.inr ⟨rfl, (g.analysed t source).length,
      ((g.analysed t source).flatMap (g.verdicts t)).mergeSort Violation.le, fun routing => ?_⟩
    exact outcome_separates (g := ⟨base, profile, routing⟩) hdir

end Guard
end ModuleBoundary
