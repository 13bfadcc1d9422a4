/-
The boundary rules.

`Identity.breach?` is the table that decides whether a file may make a reference.
Its first row that applies decides:

1. a module may refer to itself;
2. shared contracts may refer to no module;
3. the contracts of a module may refer to no other module;
4. everything else may refer to the contracts of a module;
5. and to nothing else in it.
-/
import ModuleBoundary.Identity
import ModuleBoundary.Import.Basic
import ModuleBoundary.Reference.Classifier
import ModuleBoundary.Violation

namespace ModuleBoundary

/-- A reference that a file may not make. -/
structure Breach where
  rule : Rule
  message : Text
  deriving DecidableEq, Repr

namespace Breach

def inSharedContracts (target : Text) : Breach :=
  ⟨.sharedContractsImport,
    "Shared contracts must not import modules (found ".toList ++ target ++ ").".toList⟩

def inModuleContracts (target : Text) : Breach :=
  ⟨.moduleContractsImport,
    "Module contracts must not import other modules (found ".toList ++ target ++ ").".toList⟩

def acrossModules (source target : Text) : Breach :=
  ⟨.crossModuleImport,
    "Forbidden cross-module import: ".toList ++ source ++ " -> ".toList ++ target ++
      " (allowed: other module contracts only).".toList⟩

end Breach

namespace Identity

def breach? (source : Identity) (r : Reference) : Option Breach :=
  if source.moduleName? = some r.moduleName then none
  else match source with
    | .sharedContracts => some (.inSharedContracts r.moduleName)
    | .inModule _ true => some (.inModuleContracts r.moduleName)
    | .inModule name false =>
      match r.layer with
      | .contracts => none
      | .internals => some (.acrossModules name r.moduleName)

/-- A module may refer to itself. -/
theorem breach?_self (name : Text) (strict : Bool) (layer : Layer) (spelling : Spelling) :
    (inModule name strict).breach? ⟨name, layer, spelling⟩ = none := by
  simp [breach?, moduleName?]

end Identity

namespace Violation

/-- The violation that one import of a file is, if it is one.  `file` is the path
that is reported. -/
def ofImport? (c : Classifier) (file : Path) (source : Identity) (i : Import) : Option Violation := do
  let breach ← source.breach? (← c.classify i.target)
  some ⟨breach.rule.code, breach.rule.name, file, i.line, i.target, breach.message⟩

def ofImports (c : Classifier) (file : Path) (source : Identity) (imports : List Import) :
    List Violation :=
  imports.filterMap (ofImport? c file source)

theorem ofImports_append (c : Classifier) (file : Path) (source : Identity) (a b : List Import) :
    ofImports c file source (a ++ b) = ofImports c file source a ++ ofImports c file source b :=
  List.filterMap_append

end Violation
end ModuleBoundary
