/-
The paths in a tree that a pattern stands for.

The components of a pattern are followed one after the other.  A component that is
a name is looked up as it is spelled, and any other one is held against the names
in a directory, in ascending order.
-/
import ModuleBoundary.Glob.Pattern
import ModuleBoundary.Tree.Lookup

namespace ModuleBoundary
namespace Glob

/-- The path of a name in a directory.  The working directory is not spelled. -/
def childPath (dir : Path) (name : Bytes) : Path :=
  if dir.components = [.here] then ⟨name⟩ else dir.join ⟨name⟩

def namesIn (t : Tree) (dir : Path) : List Bytes :=
  match t.resolve dir with
  | .ok l => if t.at? l = some .dir then t.children l else []
  | .error _ => []

/-- What `own` gives for a path, and then for everything below it.  Below a directory
there are at most as many levels as the tree has entries. -/
def throughout (t : Tree) (own : Path → Bytes → List Path) : Nat → Path → Bytes → List Path
  | 0, _, _ => []
  | fuel + 1, p, name =>
    own p name ++ (namesIn t p).flatMap fun n => throughout t own fuel (childPath p n) n

def expandFrom (t : Tree) (onlyDirs : Bool) : List Part → Path → List Path
  | [], p => if onlyDirs && !t.isDir p then [] else [p]
  | .literal s :: rest, p =>
    let next := childPath p (Utf8.encode s)
    let found : Bool := if s = ['.'] ∨ s = ['.', '.'] then t.isDir p else (t.entry? next).isSome
    if found then expandFrom t onlyDirs rest next else []
  | .dirs :: [], p =>
    (namesIn t p).flatMap fun n =>
      throughout t (fun q _ => if t.isDir q then [q] else []) (t.entries.length + 1) (childPath p n) n
  | .dirs :: part :: rest, p =>
    (namesIn t p).flatMap fun n =>
      throughout t (fun q name => if part.isMatch name then expandFrom t onlyDirs rest q else [])
        (t.entries.length + 1) (childPath p n) n
  | part :: rest, p =>
    let specials := [[dot, dot], [dot]].filter fun s => part.startsWithDot && t.isDir p && part.isMatch s
    (specials.flatMap fun s => expandFrom t onlyDirs rest (p.join ⟨s⟩)) ++
      ((namesIn t p).filter part.isMatch).flatMap fun n => expandFrom t onlyDirs rest (childPath p n)

def expand (t : Tree) (g : Glob) : List Path :=
  expandFrom t g.onlyDirs g.parts (if g.absolute then "/" else ".")

end Glob
end ModuleBoundary
