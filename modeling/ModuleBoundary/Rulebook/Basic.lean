/-
The rulebook: the profiles of a project, and the routing checks of each profile.
-/
import ModuleBoundary.Identity
import ModuleBoundary.Keyed

namespace ModuleBoundary

structure Profile where
  key : Text
  roots : Roots
  deriving DecidableEq, Repr

structure Routing where
  /-- The patterns of the files that must hold no route definitions. -/
  globs : List Text
  /-- The file that must list the route files one by one. -/
  registration : Option Path
  deriving DecidableEq, Repr

namespace Routing

def none : Routing := ⟨[], .none⟩

def isEmpty (r : Routing) : Bool := r.globs.isEmpty && r.registration.isNone

theorem isEmpty_iff {r : Routing} : r.isEmpty = true ↔ r = none := by
  obtain ⟨g, p⟩ := r
  simp [isEmpty, none]

end Routing

structure Rulebook where
  profiles : Keyed Profile
  routing : Keyed Routing

namespace Rulebook

/-- The rulebook of some profiles; of two with one key the later one counts. -/
def new (profiles : List Profile) (routing : Keyed Routing) : Rulebook :=
  ⟨.ofList (profiles.map fun p => (p.key, p)), routing⟩

def allProfiles (b : Rulebook) : List Profile := b.profiles.values

def keys (b : Rulebook) : List Text := b.profiles.keys

def profile? (b : Rulebook) (key : Text) : Option Profile := b.profiles.find? key

def routingFor (b : Rulebook) (key : Text) : Routing := (b.routing.find? key).getD .none

end Rulebook
end ModuleBoundary
