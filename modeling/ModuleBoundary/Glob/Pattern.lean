/-
Patterns of file names.

A question mark stands for a character, a star for any characters, and a bracket
for one character of a class or, behind an exclamation mark, for one outside of it.
Two stars stand for any directories, and only as a whole component.  Letter case
counts, and a star also stands for a leading dot.
-/
import ModuleBoundary.Text.Utf8

namespace ModuleBoundary
namespace Glob

/-- A range of characters; a single one is a range of its own. -/
structure CharRange where
  first : Char
  last : Char
  deriving DecidableEq, Repr

inductive Token
  | char (c : Char)
  | anyChar
  | anyChars
  | anyDirs
  | oneOf (ranges : List CharRange)
  | noneOf (ranges : List CharRange)
  deriving DecidableEq, Repr

/-! ## Reading -/

/-- The ranges of a class.  A dash between two characters makes a range of them. -/
def ranges : Text → List CharRange
  | a :: '-' :: b :: s => ⟨a, b⟩ :: ranges s
  | a :: s => ⟨a, a⟩ :: ranges s
  | [] => []

/-- A class and what follows it, from behind the opening bracket.  The first
character belongs to the class even if it is a closing bracket. -/
def takeClass : Text → Option (Token × Text)
  | '!' :: c :: s => (Text.cut? ']' s).map fun r => (.noneOf (ranges (c :: r.1)), r.2)
  | '!' :: [] => none
  | c :: s => (Text.cut? ']' s).map fun r => (.oneOf (ranges (c :: r.1)), r.2)
  | [] => none

/-- The tokens of a pattern.  `atStart` says that a component starts here.  Every
round takes a character, so the length of the text is fuel enough. -/
def tokensFrom : Nat → (atStart : Bool) → Text → Option (List Token)
  | _, _, [] => some []
  | 0, _, _ => none
  | fuel + 1, atStart, c :: s =>
    if c = '?' then (tokensFrom fuel false s).map (.anyChar :: ·)
    else if c = '*' then
      match s with
      | '*' :: '*' :: _ => none
      | '*' :: rest =>
        if atStart then
          match rest with
          | [] => some [.anyDirs]
          | '/' :: rest => (tokensFrom fuel true rest).map (.anyDirs :: ·)
          | _ => none
        else none
      | _ => (tokensFrom fuel false s).map (.anyChars :: ·)
    else if c = '[' then
      match takeClass s with
      | none => none
      | some (token, rest) => (tokensFrom fuel false rest).map (token :: ·)
    else (tokensFrom fuel (c = '/') s).map (.char c :: ·)

def tokens? (s : Text) : Option (List Token) := tokensFrom s.length true s

/-! ## Matching names -/

def CharRange.holds (r : CharRange) (c : Char) : Bool := r.first ≤ c && c ≤ r.last

def Token.isOne (t : Token) (c : Char) : Bool :=
  match t with
  | .char d => c == d
  | .anyChar => true
  | .oneOf rs => rs.any (·.holds c)
  | .noneOf rs => !rs.any (·.holds c)
  | .anyChars | .anyDirs => false

def tails : Text → List Text
  | [] => [[]]
  | c :: s => (c :: s) :: tails s

def isMatch : List Token → Text → Bool
  | [], name => name.isEmpty
  | .anyChars :: ts, name => (tails name).any (isMatch ts)
  | .anyDirs :: ts, name => (tails name).any (isMatch ts)
  | _ :: _, [] => false
  | t :: ts, c :: name => t.isOne c && isMatch ts name

/-! ## Components -/

inductive Part
  /-- A name, as it is spelled. -/
  | literal (name : Text)
  | wild (tokens : List Token)
  /-- Any directories, or none. -/
  | dirs
  deriving DecidableEq, Repr

def literal? (ts : List Token) : Option Text :=
  ts.mapM fun
    | .char c => some c
    | _ => none

def Part.ofTokens (ts : List Token) : Part :=
  match literal? ts with
  | some name => .literal name
  | none => if ts = [.anyDirs] then .dirs else .wild ts

def Part.holds (part : Part) (name : Text) : Bool :=
  match part with
  | .literal s => name == s
  | .wild ts => Glob.isMatch ts name
  | .dirs => false

/-- A component stands for a name in a directory, which has to be a text. -/
def Part.isMatch (part : Part) (name : Bytes) : Bool := (Utf8.decode? name).any part.holds

/-- The component also stands for the directory itself and the one around it, if it
matches their names: that takes a dot at its start. -/
def Part.startsWithDot : Part → Bool
  | .wild (.char '.' :: _) => true
  | _ => false

end Glob

structure Glob where
  absolute : Bool
  parts : List Glob.Part
  /-- A slash ends the pattern, so it stands for directories only. -/
  onlyDirs : Bool
  deriving DecidableEq, Repr

namespace Glob

/-- The texts between slashes; behind a last slash there is none. -/
def componentTexts (s : Text) : List Text :=
  let parts := s.splitOn '/'
  if parts.getLast? = some [] then parts.dropLast else parts

/-- Components that stand for any directories, behind each other, are one. -/
def mergeDirs : List Part → List Part
  | .dirs :: .dirs :: rest => mergeDirs (.dirs :: rest)
  | p :: rest => p :: mergeDirs rest
  | [] => []

/-- The pattern that a text is; nothing if the text, or a component of it on its own,
is malformed.  A text without a component has an empty one. -/
def ofText? (s : Text) : Option Glob := do
  let _ ← tokens? s
  let absolute := s.head? = some '/'
  let rest := if absolute then s.tail else s
  let parts ← (componentTexts rest).mapM fun c => (tokens? c).map Part.ofTokens
  let parts := if rest = [] then [.literal []] else parts
  some ⟨absolute, mergeDirs parts, s.getLast? = some '/'⟩

end Glob
end ModuleBoundary
