/-
Reading a target in several ways, one after the other.

A strategy is any function that answers for a target; the two that every layout has are given by
markers and by patterns.
Shared contracts are never references: a target that contains one of the shared
markers is let through before any way of reading is tried.
-/
import ModuleBoundary.Path
import ModuleBoundary.Reference.Marker
import ModuleBoundary.Reference.Qualified

namespace ModuleBoundary

structure Strategy where
  name : Text
  attempt : Text → Attempt

namespace Strategy

def markers (markers : List Text) : Strategy := ⟨"path".toList, Reference.ofMarkers markers⟩

def patterns (patterns : List Reference.Pattern) : Strategy :=
  ⟨"namespace".toList, Reference.ofPatterns patterns⟩

def defaults : List Strategy :=
  [.markers Reference.defaultMarkers, .patterns Reference.defaultPatterns]

/-- The answer of the first strategy for whose spelling the target is meant. -/
def firstAnswer? (target : Text) : List Strategy → Option Reference
  | [] => none
  | s :: rest =>
    match s.attempt target with
    | .noMatch => firstAnswer? target rest
    | .rejected => none
    | .found r => some r

end Strategy

structure Classifier where
  /-- Parts of targets that mark shared contracts. -/
  sharedMarkers : List Text
  strategies : List Strategy

namespace Classifier

def fixedMarkers : List Text := ["/shared/contracts/".toList, "\\Shared\\Contracts\\".toList]

/-- A classifier for a layout with the given root of shared contracts.  A root
with an empty spelling marks nothing. -/
def new (sharedRoot : Option Path) (strategies : List Strategy) : Classifier :=
  ⟨((sharedRoot.map Path.text).filter (· ≠ [])).toList ++ fixedMarkers, strategies⟩

def ofRoot (sharedRoot : Option Path) : Classifier := new sharedRoot Strategy.defaults

def isSharedTarget (c : Classifier) (target : Text) : Bool :=
  c.sharedMarkers.any fun m => Text.hasPart m target

def classify (c : Classifier) (target : Text) : Option Reference :=
  if target = [] ∨ c.isSharedTarget target = true then none
  else Strategy.firstAnswer? target c.strategies

theorem classify_nil (c : Classifier) : c.classify [] = none := by simp [classify]

end Classifier
end ModuleBoundary
