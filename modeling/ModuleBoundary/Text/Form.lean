/-
Finding a form in a line.

A form is tried at every place of a line from left to right.  Some forms may only
start where a word starts: at the start of the line, or behind a character that
is not a word character.  `firstAtWordStart?` gives the leftmost match of such a
form, and `somewhere` asks whether a form matches at all.
-/
import ModuleBoundary.Text.Basic
import ModuleBoundary.Text.Word

namespace ModuleBoundary
namespace Text

/-- What `form` gives at the leftmost word start at which it matches.  `inWord`
says whether the character in front of the text is a word character. -/
def firstAtWordStart? {α : Type} (form : Text → Option α) (inWord : Bool) : Text → Option α
  | [] => none
  | c :: s =>
    match if inWord then none else form (c :: s) with
    | some a => some a
    | none => firstAtWordStart? form (isWord c) s

/-- `form` holds somewhere in the text.  It is told whether a word can start at
the place where it is tried. -/
def somewhere (form : Bool → Text → Bool) (inWord : Bool) : Text → Bool
  | [] => false
  | c :: s => form (!inWord) (c :: s) || somewhere form (isWord c) s

def afterCall? (word s : Text) : Option Text := do
  after? ['('] (dropBlanks (← after? word s))

def isCallOf (words : List Text) (s : Text) : Bool := words.any fun w => (afterCall? w s).isSome

def isQuote (c : Char) : Bool := c == '"' || c == '\''

/-- A text without quotes between two of them, and what follows.  The two quotes
need not be the same. -/
def quotedBody? : Text → Option (Text × Text)
  | [] => none
  | q :: s =>
    if isQuote q then
      match s.takeWhile (fun c => !isQuote c), s.dropWhile (fun c => !isQuote c) with
      | t@(_ :: _), _ :: rest => some (t, rest)
      | _, _ => none
    else none

theorem somewhere_cons (form : Bool → Text → Bool) (inWord : Bool) (c : Char) (s : Text) :
    somewhere form inWord (c :: s) = (form (!inWord) (c :: s) || somewhere form (isWord c) s) := rfl

end Text
end ModuleBoundary
