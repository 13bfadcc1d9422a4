/-
Where a source file stands: with the shared contracts, in a module, or nowhere.

The place is read off the components of the file's path and of the two roots, so
two spellings of a path have one identity.  Names that are no texts are passed over.
-/
import ModuleBoundary.Path
import ModuleBoundary.Reference.Basic

namespace ModuleBoundary

inductive Identity
  /-- Below the root of shared contracts. -/
  | sharedContracts
  /-- In the module `name`; `strict` for a file of the module's contracts layer. -/
  | inModule (name : Text) (strict : Bool)
  deriving DecidableEq, Repr

structure Roots where
  moduleRoot : Path
  sharedRoot : Option Path
  deriving DecidableEq, Repr

namespace Identity

def moduleName? : Identity → Option Text
  | .sharedContracts => none
  | .inModule n _ => some n

def isStrict : Identity → Bool
  | .sharedContracts => true
  | .inModule _ strict => strict

def names (cs : List Component) : List Text :=
  cs.filterMap fun
    | .name n => Utf8.decode? n
    | _ => none

/-- The identity of a file from the names below the module root.  The first one is
the module, also if it is the file itself; a file is strict if it lies in a
`contracts` directory right below its module. -/
def ofNames : List Text → Option Identity
  | [] => none
  | n :: below =>
    if isShared n then none
    else
      let strict := match below with
        | layer :: _ :: _ => layer == "contracts".toList
        | _ => false
      some (.inModule n strict)

end Identity

namespace Roots

/-- The identity of a file.  Shared contracts come first, also where one root lies
in the other. -/
def identify (roots : Roots) (file : Path) : Option Identity :=
  if roots.sharedRoot.any file.startsWith then some .sharedContracts
  else if file.startsWith roots.moduleRoot then
    Identity.ofNames (Identity.names (file.components.drop roots.moduleRoot.components.length))
  else none

/-- Files with equal components have one identity. -/
theorem identify_congr (roots : Roots) {p q : Path} (h : p.components = q.components) :
    roots.identify p = roots.identify q := by
  have hs : p.startsWith = q.startsWith := funext fun r => by rw [Path.startsWith, Path.startsWith, h]
  rw [identify, identify, hs, h]

end Roots
end ModuleBoundary
