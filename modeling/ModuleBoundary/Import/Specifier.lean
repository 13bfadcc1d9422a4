/-
The module specifiers of a JavaScript or TypeScript line.

Three forms name a module: a `from` clause, a call of `import` and a call of
`require`, each with a specifier in quotes.  Every form is looked for on its own
and counts once, at its leftmost place.  Comments and strings are not understood,
and a form that does not stand on one line is not seen.
-/
import ModuleBoundary.Text.Form

namespace ModuleBoundary
namespace Import
namespace Specifier

def fromClause? (s : Text) : Option Text := do
  let (t, _) ← Text.quotedBody? (Text.dropBlanks (← Text.after? "from".toList s))
  some t

/-- `word`, a specifier in round brackets; blanks may stand between the parts. -/
def call? (word s : Text) : Option Text := do
  let (t, rest) ← Text.quotedBody? (Text.dropBlanks (← Text.afterCall? word s))
  let _ ← Text.after? [')'] (Text.dropBlanks rest)
  some t

/-- The forms, in the order in which a line reports them. -/
def forms : List (Text → Option Text) :=
  [fromClause?, call? "import".toList, call? "require".toList]

def targets (line : Text) : List Text :=
  forms.filterMap fun form => Text.firstAtWordStart? form false line

/-- A line names at most one target a form. -/
theorem length_targets_le (line : Text) : (targets line).length ≤ 3 :=
  List.length_filterMap_le ..

end Specifier
end Import
end ModuleBoundary
