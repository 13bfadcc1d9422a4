/-
An import: a target as it is written, and the number of the line that names it.

Reading imports is local to lines.  A language says which targets a line names,
and `Import.ofText` numbers them; nothing is carried from one line to the next.
-/
import ModuleBoundary.Text.Basic

namespace ModuleBoundary

structure Import where
  target : Text
  /-- Counted from one. -/
  line : Nat
  deriving DecidableEq, Repr

namespace Import

/-- The imports of lines, the first of which has the number `first`. -/
def ofLines (targets : Text → List Text) (lines : List Text) (first : Nat) : List Import :=
  (lines.zipIdx first).flatMap fun l => (targets l.1).map fun t => ⟨t, l.2⟩

def ofText (targets : Text → List Text) (s : Text) : List Import := ofLines targets (Text.lines s) 1

/-- Numbering goes on where it stopped. -/
theorem ofLines_append (targets : Text → List Text) (a b : List Text) (first : Nat) :
    ofLines targets (a ++ b) first = ofLines targets a first ++ ofLines targets b (first + a.length) := by
  simp [ofLines, List.zipIdx_append]

end Import
end ModuleBoundary
