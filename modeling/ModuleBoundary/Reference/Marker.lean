/-
References spelled as paths.

A marker is a segment that stands in front of module names, such as `modules`.
The markers are in order of priority: the first of them that is a segment of the
target decides, at its first place, whatever the later ones would say.
-/
import ModuleBoundary.Reference.Basic

namespace ModuleBoundary
namespace Reference

def defaultMarkers : List Text := ["modules".toList, "Domains".toList, "domains".toList]

def withSlashes (target : Text) : Text := target.map fun c => if c = '\\' then '/' else c

/-- A path shows the contracts layer if `contracts` stands between two of its
slashes. -/
def pathLayer (path : Text) : Layer :=
  if Text.hasPart "/contracts/".toList path then .contracts else .internals

/-- What follows the marker that decides; `none` if no marker is a segment. -/
def afterMarker? (markers segments : List Text) : Option (List Text) :=
  markers.findSome? fun m => (segments.idxOf? m).map fun i => segments.drop (i + 1)

/-- Reading a target as a path.  A target without a slash is not one. -/
def ofMarkers (markers : List Text) (target : Text) : Attempt :=
  if '/' ∈ target then
    let path := withSlashes target
    match afterMarker? markers (path.splitOn '/') with
    | none => .noMatch
    | some [] => .rejected
    | some (name :: _) =>
      if name = [] ∨ isShared name = true then .rejected
      else .found ⟨name, pathLayer path, .path⟩
  else .noMatch

/-- Without a slash there is no path. -/
theorem ofMarkers_of_not_mem {markers : List Text} {target : Text} (h : '/' ∉ target) :
    ofMarkers markers target = .noMatch := by
  simp [ofMarkers, h]

end Reference
end ModuleBoundary
