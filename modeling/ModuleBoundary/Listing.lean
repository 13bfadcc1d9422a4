/-
The source files of a tree.

A file counts if its extension is one of the known ones and its path, read with
slashes, nowhere contains one of the excluded parts.  The test is on the spelled
path: it sees the root as well, and a part needs a slash on either side.
-/
import ModuleBoundary.Tree.Lookup

namespace ModuleBoundary

structure Listing where
  files : List Path
  warnings : Nat
  deriving DecidableEq, Repr

abbrev FileSource := Path → Listing

namespace Listing

def extensions : List Text :=
  ["php".toList, "js".toList, "jsx".toList, "ts".toList, "tsx".toList, "mjs".toList, "cjs".toList]

def excludedParts : List Text :=
  ["/vendor/".toList, "/node_modules/".toList, "/storage/".toList, "/bootstrap/cache/".toList,
    "/dist/".toList, "/build/".toList, "/coverage/".toList, "/.git/".toList]

def hasSourceExtension (p : Path) : Bool := p.hasExtension extensions

def isExcluded (p : Path) : Bool :=
  let spelled := p.text.map fun c => if c = '\\' then '/' else c
  excludedParts.any fun part => Text.hasPart part spelled

def isSource (p : Path) : Bool := hasSourceExtension p && !isExcluded p

/-- The source files at a root and below it.  A root that leads nowhere has none,
which is worth one warning. -/
def scan (t : Tree) : FileSource := fun root =>
  match t.walk? root with
  | some files => ⟨files.filter isSource, 0⟩
  | none => ⟨[], 1⟩

theorem isSource_of_mem_scan {t : Tree} {root p : Path} (h : p ∈ (scan t root).files) :
    isSource p = true := by
  unfold scan at h
  split at h
  · exact (List.mem_filter.mp h).2
  · exact absurd h (by simp)

end Listing
end ModuleBoundary
