/-
A run over a tree: every source file is placed, read, and held against the boundary
rules, and the routing checks follow.

The files below the root of shared contracts are checked first, and the files below
the module root after them; there the shared contracts are left out, because they
have been checked.  A file without an identity, or in no known language, is not
checked.  A run never fails: what cannot be read is worth a warning.
-/
import ModuleBoundary.Boundary
import ModuleBoundary.Language
import ModuleBoundary.Listing
import ModuleBoundary.Routing.Check

namespace ModuleBoundary

/-- What a run is about: a profile and its routing checks, with all their paths seen
from `base`. -/
structure Guard where
  base : Path
  profile : Profile
  routing : Routing
  deriving DecidableEq, Repr

inductive Outcome
  /-- The module root is no directory. -/
  | skipped (moduleRoot : Path)
  | checked (findings : Findings)
  deriving DecidableEq, Repr

structure Run where
  outcome : Outcome
  warnings : Nat
  /-- The roots whose files were asked for. -/
  asked : List Path
  deriving DecidableEq, Repr

inductive FileResult
  | passedOver
  | unreadable
  | checked (violations : List Violation)
  deriving DecidableEq, Repr

namespace FileResult

def violations : FileResult → List Violation
  | .checked vs => vs
  | _ => []

def isChecked : FileResult → Bool
  | .checked _ => true
  | _ => false

def isUnreadable : FileResult → Bool
  | .unreadable => true
  | _ => false

end FileResult

namespace Guard

def roots (g : Guard) : Roots :=
  ⟨g.base.join g.profile.roots.moduleRoot, g.profile.roots.sharedRoot.map g.base.join⟩

/-- Shared contracts are recognised in targets by the root as the rulebook spells it. -/
def classifier (g : Guard) : Classifier := .ofRoot g.profile.roots.sharedRoot

/-- Checks one file.  The pass over the module root leaves out shared contracts. -/
def checkFile (g : Guard) (t : Tree) (sharedPass : Bool) (file : Path) : FileResult :=
  match g.roots.identify file with
  | none => .passedOver
  | some source =>
    if !sharedPass && source == .sharedContracts then .passedOver
    else match Language.ofPath? file with
      | none => .passedOver
      | some language =>
        match t.readSource file with
        | .error _ => .unreadable
        | .ok text =>
          .checked (Violation.ofImports g.classifier (file.relativeTo g.base) source (language.imports text))

def pass (g : Guard) (t : Tree) (sharedPass : Bool) (files : List Path) : List FileResult :=
  files.map (g.checkFile t sharedPass)

def run (g : Guard) (t : Tree) (source : FileSource) : Run :=
  let moduleRoot := g.roots.moduleRoot
  if t.isDir moduleRoot then
    let sharedRoots := (g.roots.sharedRoot.filter t.isDir).toList
    let shared := sharedRoots.map source
    let modules := source moduleRoot
    let results :=
      shared.flatMap (fun l => g.pass t true l.files) ++ g.pass t false modules.files
    let routes := if g.routing.isEmpty then Checked.none else g.routing.check t g.base
    let findings : Findings :=
      ⟨results.flatMap FileResult.violations ++ routes.violations, results.countP FileResult.isChecked⟩
    { outcome := .checked findings.sort
      warnings :=
        shared.foldl (fun n l => n + l.warnings) 0 + modules.warnings + results.countP FileResult.isUnreadable +
          routes.warnings
      asked := sharedRoots ++ [moduleRoot] }
  else { outcome := .skipped moduleRoot, warnings := 0, asked := [] }

/-- Without a module root there is nothing to ask for. -/
theorem run_of_not_isDir {g : Guard} {t : Tree} {source : FileSource}
    (h : t.isDir g.roots.moduleRoot = false) :
    g.run t source = ⟨.skipped g.roots.moduleRoot, 0, []⟩ := by
  simp [run, h]

end Guard
end ModuleBoundary
