/-
The languages whose imports are read, told apart by file extension.
-/
import ModuleBoundary.Import.Basic
import ModuleBoundary.Import.Specifier
import ModuleBoundary.Import.Use
import ModuleBoundary.Path

namespace ModuleBoundary

inductive Language
  | php
  | script
  deriving DecidableEq, Repr

namespace Language

/-- Every language, in the order in which a file is offered to them. -/
def all : List Language := [.php, .script]

def extensions : Language → List Text
  | .php => ["php".toList]
  | .script =>
    ["js".toList, "jsx".toList, "ts".toList, "tsx".toList, "mjs".toList, "cjs".toList]

def id : Language → Text
  | .php => "php".toList
  | .script => "js".toList

def targets : Language → Text → List Text
  | .php => Import.Use.targets
  | .script => Import.Specifier.targets

def imports (l : Language) (source : Text) : List Import := Import.ofText l.targets source

def ofPath? (p : Path) : Option Language := all.find? fun l => p.hasExtension l.extensions

theorem mem_all (l : Language) : l ∈ all := by cases l <;> decide

end Language
end ModuleBoundary
