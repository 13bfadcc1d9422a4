/-
Copies of YAML values.

A value that is kept for later is copied.  The tags are read anew for the copy, and each of
them loses the exclamation mark that leads it.  Two keys that differ in such a mark only
become the same by this, and a mapping with such keys has no copy.
-/
import ModuleBoundary.Yaml.Value.Load

namespace ModuleBoundary
namespace Yaml
namespace Value

mutual

/-- The value in which every tag is without the mark that leads it. -/
def unmark : Value → Value
  | .sequence items => .sequence (unmarkItems items)
  | .mapping entries => .mapping (unmarkEntries entries)
  | .tagged tag v => .tagged (Linked.unmarked tag) (unmark v)
  | v => v

def unmarkItems : List Value → List Value
  | [] => []
  | v :: rest => unmark v :: unmarkItems rest

def unmarkEntries : List (Value × Value) → List (Value × Value)
  | [] => []
  | (k, v) :: rest => (unmark k, unmark v) :: unmarkEntries rest

end

/-- The copy of the value; nothing if a key would come twice in it. -/
def copy? (v : Value) : Option Value := if v.unmark.isProper then some v.unmark else none

end Value
end Yaml
end ModuleBoundary
