/-
The routing checks over a tree.

Route definitions are forbidden in the PHP files that a pattern stands for, and
discovery in the registration file.  Each line that breaks a rule is a violation of
its own; its target is the line without the blanks at its ends.
-/
import ModuleBoundary.Glob.Expand
import ModuleBoundary.Routing.Line
import ModuleBoundary.Rulebook.Basic
import ModuleBoundary.Violation

namespace ModuleBoundary

structure Checked where
  violations : List Violation
  warnings : Nat
  deriving DecidableEq, Repr

namespace Checked

def none : Checked := ⟨[], 0⟩

def append (a b : Checked) : Checked := ⟨a.violations ++ b.violations, a.warnings + b.warnings⟩

def concat (cs : List Checked) : Checked := cs.foldr append none

theorem violations_concat (cs : List Checked) :
    (concat cs).violations = cs.flatMap Checked.violations := by
  induction cs with
  | nil => rfl
  | cons c cs ih => exact congrArg (c.violations ++ ·) ih

end Checked

/-! ## One file -/

namespace Rule

def routeMessage : Rule → Text
  | .routeAutoDiscovery =>
    "Route files must not be auto-discovered; register an explicit, enumerated list of module route files.".toList
  | _ =>
    "Route definitions are not allowed here; move them into a module routes file and mount it explicitly from the composition root.".toList

end Rule

namespace Routing

def lineViolations (rule : Rule) (isBroken : Text → Bool) (file : Path) (lines : List Text) :
    List Violation :=
  ((lines.zipIdx 1).filter fun l => isBroken l.1).map fun l =>
    ⟨rule.code, rule.name, file, l.2, Text.trim l.1, rule.routeMessage⟩

/-- The violations of a routing rule in a file; a file that cannot be read is worth a
warning. -/
def checkFile (t : Tree) (base : Path) (rule : Rule) (isBroken : Text → Bool) (file : Path) : Checked :=
  match t.readSource file with
  | .ok s => ⟨lineViolations rule isBroken (file.relativeTo base) (Text.lines s), 0⟩
  | .error _ => ⟨[], 1⟩

def isPhp (p : Path) : Bool := p.hasExtension ["php".toList]

/-! ## The two checks -/

/-- Route definitions in the files of one pattern; a malformed pattern is worth a
warning. -/
def checkGlob (t : Tree) (base : Path) (glob : Text) : Checked :=
  match Glob.ofText? (base.join (.ofText glob)).text with
  | .none => ⟨[], 1⟩
  | some g =>
    Checked.concat (((g.expand t).filter fun p => t.isFile p && isPhp p).map
      (checkFile t base .inlineRouteDefinition RouteLine.isDefinition))

def checkDefinitions (r : Routing) (t : Tree) (base : Path) : Checked :=
  Checked.concat (r.globs.map (checkGlob t base))

/-- Discovery in the registration file.  A file that is not there is no violation, and
one that is no PHP file is worth a warning. -/
def checkDiscovery (r : Routing) (t : Tree) (base : Path) : Checked :=
  match r.registration with
  | .none => .none
  | some location =>
    if !isPhp location then ⟨[], 1⟩
    else if t.isFile (base.join location) then
      checkFile t base .routeAutoDiscovery RouteLine.isDiscovery (base.join location)
    else .none

def check (r : Routing) (t : Tree) (base : Path) : Checked :=
  (r.checkDefinitions t base).append (r.checkDiscovery t base)

/-- Without checks there is nothing to find. -/
theorem check_none (t : Tree) (base : Path) : Routing.none.check t base = .none := rfl

end Routing
end ModuleBoundary
