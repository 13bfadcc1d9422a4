/-
Violations, and the findings of a run.

Findings are sorted by file and then by line, where files are compared by their
components.  Two violations of one line keep their order, because sorting is
stable.
-/
import ModuleBoundary.Path

namespace ModuleBoundary

inductive Rule
  | sharedContractsImport
  | moduleContractsImport
  | crossModuleImport
  | inlineRouteDefinition
  | routeAutoDiscovery
  deriving DecidableEq, Repr

namespace Rule

def code : Rule → Text
  | .sharedContractsImport => "CP001".toList
  | .moduleContractsImport => "CP002".toList
  | .crossModuleImport => "CP003".toList
  | .inlineRouteDefinition => "CP101".toList
  | .routeAutoDiscovery => "CP102".toList

def name : Rule → Text
  | .sharedContractsImport => "shared-contracts-import".toList
  | .moduleContractsImport => "module-contracts-import".toList
  | .crossModuleImport => "cross-module-import".toList
  | .inlineRouteDefinition => "inline-route-definition".toList
  | .routeAutoDiscovery => "route-auto-discovery".toList

/-- A code names one rule. -/
theorem code_injective {a b : Rule} (h : a.code = b.code) : a = b := by
  revert h
  cases a <;> cases b <;> decide

end Rule

structure Violation where
  code : Text
  rule : Text
  file : Path
  /-- Counted from one. -/
  line : Nat
  /-- The import target, or the line, that broke the rule. -/
  target : Text
  message : Text
  deriving DecidableEq, Repr

namespace Violation

/-- `file:line: message`. -/
def display (v : Violation) : Text :=
  v.file.text ++ ':' :: Text.ofNat v.line ++ ": ".toList ++ v.message

/-- `a` may stand before `b`: its file comes first, or the files are the same and
its line does not come later. -/
def le (a b : Violation) : Bool :=
  a.file.key < b.file.key || (a.file.key == b.file.key && a.line ≤ b.line)

end Violation

structure Findings where
  violations : List Violation
  filesChecked : Nat
  deriving DecidableEq, Repr

namespace Findings

def empty : Findings := ⟨[], 0⟩

def hasViolations (f : Findings) : Bool := !f.violations.isEmpty

def byCode (f : Findings) (code : Text) : List Violation := f.violations.filter (·.code == code)

def push (f : Findings) (v : Violation) : Findings := { f with violations := f.violations ++ [v] }

def sort (f : Findings) : Findings := { f with violations := f.violations.mergeSort Violation.le }

/-- Sorting loses and adds nothing. -/
theorem sort_perm (f : Findings) : f.sort.violations.Perm f.violations := List.mergeSort_perm ..

theorem filesChecked_sort (f : Findings) : f.sort.filesChecked = f.filesChecked := rfl

end Findings
end ModuleBoundary
