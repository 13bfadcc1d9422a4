/-
A reference: an import target that points into a module.

What a target refers to is read off its spelling alone.  A way of reading gives
one of three answers, and only the first of them lets the next way try.
-/
import ModuleBoundary.Text.Basic

namespace ModuleBoundary

inductive Layer
  | contracts
  | internals
  deriving DecidableEq, Repr

/-- The spelling by which a reference was recognised: names between slashes, or
names between backslashes. -/
inductive Spelling
  | path
  | qualified
  deriving DecidableEq, Repr

structure Reference where
  /-- The name of the module, as the target spells it. -/
  moduleName : Text
  layer : Layer
  spelling : Spelling
  deriving DecidableEq, Repr

inductive Attempt
  /-- The target is not spelled in this way. -/
  | noMatch
  /-- The target is spelled in this way and is no reference. -/
  | rejected
  | found (reference : Reference)
  deriving DecidableEq, Repr

/-- `shared`, in any case, is never a module. -/
def isShared (name : Text) : Bool := Text.sameIgnoringCase name "shared".toList

end ModuleBoundary
