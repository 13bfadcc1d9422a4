/-
References spelled as qualified class names.

A pattern reads `Domains\`, the name of a module, a backslash and the rest of the
name, which has no line feed.  An anchored pattern wants this at the start of the
target, behind an optional backslash and an optional `App\`; the other one takes
the leftmost place.
-/
import ModuleBoundary.Reference.Basic

namespace ModuleBoundary
namespace Reference

inductive Pattern
  | anchored
  | anywhere
  deriving DecidableEq, Repr

def defaultPatterns : List Pattern := [.anchored, .anywhere]

def domain? (s : Text) : Option (Text × Text) := do
  let (name, rest) ← Text.cut? '\\' (← Text.after? "Domains\\".toList s)
  if '\n' ∈ rest then none else some (name, rest)

/-- The text behind `front`, or the text itself if it does not start so. -/
def skip (front s : Text) : Text := (Text.after? front s).getD s

def leftmostDomain? : Text → Option (Text × Text)
  | [] => none
  | c :: s =>
    match domain? (c :: s) with
    | some r => some r
    | none => leftmostDomain? s

def Pattern.match? : Pattern → Text → Option (Text × Text)
  | .anchored, s => domain? (skip "App\\".toList (skip ['\\'] s))
  | .anywhere, s => leftmostDomain? s

/-- The rest of a name shows the contracts layer if `Contracts` is one of its
segments and not the last. -/
def restLayer (rest : Text) : Layer :=
  if Text.hasPart "\\Contracts\\".toList ('\\' :: rest) then .contracts else .internals

def ofPatterns (patterns : List Pattern) (target : Text) : Attempt :=
  match patterns.findSome? (·.match? target) with
  | none => .noMatch
  | some (name, rest) =>
    if name = [] ∨ isShared name = true then .rejected
    else .found ⟨name, restLayer rest, .qualified⟩

/-- Without a pattern nothing matches. -/
theorem ofPatterns_nil (target : Text) : ofPatterns [] target = .noMatch := rfl

end Reference
end ModuleBoundary
