/-
What a path means in a tree.

A path is read segment by segment, from the root or from the working directory.  Every
segment, a silent one included, needs a directory in front of it, so a slash behind the
name of a file leads nowhere.  Above the root is the root itself.
-/
import ModuleBoundary.Tree.Basic

namespace ModuleBoundary

inductive ReadError
  | notFound
  | isDirectory
  | notDirectory
  deriving DecidableEq, Repr

namespace Tree

def enter (t : Tree) (l : Location) (s : Bytes) : Except ReadError Location :=
  match t.at? l with
  | none => .error .notFound
  | some (.file _) => .error .notDirectory
  | some .dir =>
    if Path.isSilent s then .ok l
    else if s = [dot, dot] then .ok l.dropLast
    else if (t.at? (l ++ [s])).isSome then .ok (l ++ [s])
    else .error .notFound

/-- Where a path leads.  The empty path leads nowhere. -/
def resolve (t : Tree) (p : Path) : Except ReadError Location :=
  if p.bytes = [] then .error .notFound
  else p.segments.foldlM t.enter (if p.isAbsolute then [] else t.here)

def entry? (t : Tree) (p : Path) : Option Entry :=
  match t.resolve p with
  | .ok l => t.at? l
  | .error _ => none

def isDir (t : Tree) (p : Path) : Bool := t.entry? p == some .dir

def isFile (t : Tree) (p : Path) : Bool :=
  match t.entry? p with
  | some (.file _) => true
  | _ => false

def read (t : Tree) (p : Path) : Except ReadError Bytes := do
  match t.at? (← t.resolve p) with
  | some (.file bytes) => .ok bytes
  | some .dir => .error .isDirectory
  | none => .error .notFound

def readSource (t : Tree) (p : Path) : Except ReadError Text := (t.read p).map Utf8.decodeLossy

/-! ## Going through a directory -/

/-- The files at a location and below it, each with its names from there. -/
def filesBelow (t : Tree) (l : Location) : List Location :=
  t.entries.filterMap fun e =>
    match e.2 with
    | .file _ => if l.isPrefixOf e.1 then some (e.1.drop l.length) else none
    | .dir => none

def children (t : Tree) (l : Location) : List Bytes :=
  (t.entries.filterMap fun e => if e.1.dropLast = l then e.1.getLast? else none).mergeSort
    fun a b => !decide (b < a)

def spell (root : Path) (below : Location) : Path := below.foldl (fun p n => p.join ⟨n⟩) root

/-- The files at a path and below it, spelled from it; `none` if it leads nowhere. -/
def walk? (t : Tree) (root : Path) : Option (List Path) :=
  match t.resolve root with
  | .ok l => some ((t.filesBelow l).map (spell root))
  | .error _ => none

end Tree
end ModuleBoundary
