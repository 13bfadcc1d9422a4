/-
The targets of a PHP `use` line.

A `use` line names one class, or a prefix and a group of members in braces, up to
the first semicolon.  Functions and constants are not classes: a line that
imports them as a whole names no target.  An alias (`as Name`, in any case) is no
part of a target.  A statement that does not stand on one line is not understood.
-/
import ModuleBoundary.Text.Basic

namespace ModuleBoundary
namespace Import
namespace Use

/-- The text behind ` as ` in any case. -/
def afterAs? (s : Text) : Option Text :=
  if Text.lower (s.take 4) = " as ".toList then some (s.drop 4) else none

/-- An item without blanks at its ends and without its alias. -/
def withoutAlias (item : Text) : Text :=
  let item := Text.trim item
  match Text.cutAt? afterAs? item with
  | some (name, _) => Text.trimEnd name
  | none => item

/-- What stands in front of the first opening brace, and between it and the last
closing one. -/
def group? (body : Text) : Option (Text × Text) := do
  let (front, rest) ← Text.cut? '{' body
  let (inner, _) ← Text.cutLast? '}' rest
  some (front, inner)

def isOther (rest : Text) : Bool :=
  "function ".toList.isPrefixOf rest ||
    "const ".toList.isPrefixOf rest

/-- The targets that the text of a statement names, without the keyword and
without the semicolon. -/
def bodyTargets (body : Text) : List Text :=
  match group? body with
  | some (front, inner) =>
    ((inner.splitOn ',').map withoutAlias).filterMap fun member =>
      if member = [] then none else some (Text.trim front ++ member)
  | none =>
    let target := withoutAlias body
    if target = [] then [] else [target]

def targets (line : Text) : List Text :=
  match Text.after? "use ".toList (Text.trim line) with
  | none => []
  | some rest =>
    let rest := Text.dropBlanks rest
    if isOther rest then []
    else bodyTargets (Text.trim (rest.takeWhile (· != ';')))

/-- A line that does not begin with the keyword names nothing. -/
theorem targets_eq_nil {line : Text} (h : Text.after? "use ".toList (Text.trim line) = none) :
    targets line = [] := by
  rw [targets, h]

end Use
end Import
end ModuleBoundary
