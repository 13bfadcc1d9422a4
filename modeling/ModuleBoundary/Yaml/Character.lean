/-
The characters of a YAML stream, and places in it.

Lines are normalised before anything is read: a carriage return, a next-line
character and a carriage return with a line feed are a line feed.  The line and
paragraph separators stay as they are; they end a line like a line feed, but are
not folded into a space.
-/
import ModuleBoundary.Text.Basic

namespace ModuleBoundary
namespace Yaml

def isAllowed (c : Char) : Bool :=
  let n := c.toNat
  n == 0x09 || n == 0x0A || n == 0x0D || (0x20 ≤ n && n ≤ 0x7E) || n == 0x85 ||
    (0xA0 ≤ n && n ≤ 0xD7FF) || (0xE000 ≤ n && n ≤ 0xFFFD) || 0x10000 ≤ n

/-- Every end of a line that is not a separator becomes a line feed. -/
def normalise : Text → Text
  | [] => []
  | '\r' :: '\n' :: s => '\n' :: normalise s
  | c :: s => (if c = '\r' ∨ c = '\u0085' then '\n' else c) :: normalise s

def isSpaceOrTab (c : Char) : Bool := c == ' ' || c == '\t'

def isBreak (c : Char) : Bool := c == '\n' || c == '\u2028' || c == '\u2029'

def atGap : Text → Bool
  | [] => true
  | c :: _ => isSpaceOrTab c || isBreak c

/-- The characters of anchors, tag handles and directive names. -/
def isNameChar (c : Char) : Bool := c.isAlphanum || c == '_' || c == '-'

/-! ## Places -/

/-- A place in a stream: the number of its line, and how many characters and how many
bytes stand in front of it on that line. -/
structure Mark where
  line : Nat
  column : Nat
  offset : Nat
  deriving DecidableEq, Repr

namespace Mark

def start : Mark := ⟨0, 0, 0⟩

def forward (m : Mark) (n : Nat) : Mark := { m with column := m.column + n, offset := m.offset + n }

def next (m : Mark) : Mark := m.forward 1

def past (m : Mark) (c : Char) : Mark := { m with column := m.column + 1, offset := m.offset + c.utf8Size }

def pastAll (m : Mark) (s : Text) : Mark := s.foldl past m

def newline (m : Mark) : Mark := ⟨m.line + 1, 0, 0⟩

end Mark

structure Taken (α : Type) where
  value : α
  mark : Mark
  rest : Text

/-- A line of three dashes or dots starts here, which begins or ends a document. -/
def atDocumentMark (m : Mark) (s : Text) : Bool :=
  m.column == 0 && ("---".toList.isPrefixOf s || "...".toList.isPrefixOf s) && atGap (s.drop 3)

/-! ## Gaps in a scalar -/

/-- The blanks and line ends between two parts of a scalar, the last one first. -/
inductive Gap
  | none
  | blanks (text : Text)
  /-- At least one line has ended.  The first end is missing if it was escaped. -/
  | breaks (first : Option Char) (more : Text)
  deriving DecidableEq, Repr

namespace Gap

/-- One more blank; behind the end of a line it is indentation. -/
def addBlank (g : Gap) (c : Char) : Gap :=
  match g with
  | .none => .blanks [c]
  | .blanks t => .blanks (c :: t)
  | .breaks first more => .breaks first more

/-- One more end of a line; the blanks in front of it are dropped. -/
def addBreak (g : Gap) (c : Char) : Gap :=
  match g with
  | .breaks first more => .breaks first (c :: more)
  | _ => .breaks (some c) []

def hasBreak : Gap → Bool
  | .breaks _ _ => true
  | _ => false

/-- What a gap stands for, the last character first.  A single line feed is a space,
and of several the first one is dropped. -/
def folded : Gap → Text
  | .none => []
  | .blanks t => t
  | .breaks (some '\n') [] => [' ']
  | .breaks (some '\n') more => more
  | .breaks first more => more ++ first.toList

end Gap

end Yaml
end ModuleBoundary
