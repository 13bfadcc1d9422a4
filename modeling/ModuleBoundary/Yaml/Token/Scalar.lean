/-
Scalars of a YAML stream: plain, quoted and block.

Every function reads one character after the other from where a scalar starts and
gives the text of the scalar with the place behind it, or nothing if the scalar is
malformed.
-/
import ModuleBoundary.Text.Hex
import ModuleBoundary.Yaml.Character

namespace ModuleBoundary
namespace Yaml

/-! ## Plain scalars -/

def isFlowIndicator (c : Char) : Bool := c == ',' || c == '[' || c == ']' || c == '{' || c == '}'

/-- A plain scalar.  `out` is what has been read, the last character first, and `gap`
what stands behind it.  A line indented less than `indent` ends the scalar, unless
it stands between brackets.  The flag of the answer says that a line has ended
behind the scalar. -/
def takePlain (inFlow : Bool) (indent : Nat) (out : Text) (gap : Gap) (m : Mark) :
    Text → Option (Taken (Text × Bool))
  | [] => some ⟨(out.reverse, gap.hasBreak), m, []⟩
  | c :: s =>
    if isSpaceOrTab c then
      if c = '\t' ∧ gap.hasBreak = true ∧ m.column < indent then none
      else takePlain inFlow indent out (gap.addBlank c) m.next s
    else if isBreak c then takePlain inFlow indent out (gap.addBreak c) m.newline s
    else if gap ≠ .none ∧ ((inFlow = false ∧ m.column < indent) ∨ atDocumentMark m (c :: s) = true ∨ c = '#') then
      some ⟨(out.reverse, gap.hasBreak), m, c :: s⟩
    else if inFlow = true ∧ c = ':' ∧ s.head?.any (fun d => d == '?' || isFlowIndicator d) = true then none
    else if (c = ':' ∧ atGap s = true) ∨ (inFlow = true ∧ isFlowIndicator c = true) then
      some ⟨(out.reverse, gap.hasBreak), m, c :: s⟩
    else takePlain inFlow indent (c :: (gap.folded ++ out)) .none (m.past c) s

/-! ## Quoted scalars -/

/-- What an escape in double quotes stands for: a character, or the character whose
code point the next digits give. -/
inductive Escape
  | char (c : Char)
  | hex (digits : Nat)

def escape? (c : Char) : Option Escape :=
  match c with
  | '0' => some (.char '\x00')
  | 'a' => some (.char '\x07')
  | 'b' => some (.char '\x08')
  | 't' | '\t' => some (.char '\t')
  | 'n' => some (.char '\n')
  | 'v' => some (.char '\x0b')
  | 'f' => some (.char '\x0c')
  | 'r' => some (.char '\r')
  | 'e' => some (.char '\x1b')
  | ' ' => some (.char ' ')
  | '"' => some (.char '"')
  | '/' => some (.char '/')
  | '\\' => some (.char '\\')
  | 'N' => some (.char '\u0085')
  | '_' => some (.char '\u00a0')
  | 'L' => some (.char '\u2028')
  | 'P' => some (.char '\u2029')
  | 'x' => some (.hex 2)
  | 'u' => some (.hex 4)
  | 'U' => some (.hex 8)
  | _ => none

def takeSingle (out : Text) (gap : Gap) (m : Mark) : Text → Option (Taken Text)
  | [] => none
  | c :: s =>
    if isSpaceOrTab c then takeSingle out (gap.addBlank c) m.next s
    else if isBreak c then takeSingle out (gap.addBreak c) m.newline s
    else if atDocumentMark m (c :: s) then none
    else if c = '\'' then
      match s with
      | '\'' :: s => takeSingle ('\'' :: (gap.folded ++ out)) .none (m.forward 2) s
      | _ => some ⟨(gap.folded ++ out).reverse, m.next, s⟩
    else takeSingle (c :: (gap.folded ++ out)) .none (m.past c) s

/-- A scalar in double quotes, from behind the opening one.  `code` holds how many
digits of an escape are missing, and its value so far. -/
def takeDouble (out : Text) (gap : Gap) (code : Option (Nat × Nat)) (m : Mark) : Text → Option (Taken Text)
  | [] => none
  | c :: s =>
    match code with
    | some (missing, value) =>
      match Text.hexValue? c with
      | none => none
      | some d =>
        let value := 16 * value + d
        if missing ≤ 1 then
          match Text.charOf? value with
          | none => none
          | some e => takeDouble (e :: out) .none none m.next s
        else takeDouble out .none (some (missing - 1, value)) m.next s
    | none =>
      if isSpaceOrTab c then takeDouble out (gap.addBlank c) none m.next s
      else if isBreak c then takeDouble out (gap.addBreak c) none m.newline s
      else if atDocumentMark m (c :: s) then none
      else
        let out := gap.folded ++ out
        if c = '"' then some ⟨out.reverse, m.next, s⟩
        else if c = '\\' then
          match s with
          | [] => none
          | d :: s =>
            if isBreak d then takeDouble out (.breaks none []) none m.next.newline s
            else match escape? d with
              | none => none
              | some (.char e) => takeDouble (e :: out) .none none (m.forward 2) s
              | some (.hex n) => takeDouble out .none (some (n, 0)) (m.forward 2) s
        else takeDouble (c :: out) .none none (m.past c) s

/-! ## Block scalars -/

/-- Which line ends at the end of a block scalar belong to it. -/
inductive Chomp
  | strip
  | clip
  | keep
  deriving DecidableEq, Repr

def chomp? (c : Char) : Option Chomp :=
  if c = '-' then some .strip else if c = '+' then some .keep else none

def indent? (c : Char) : Option Nat :=
  if '1' ≤ c ∧ c ≤ '9' then some (c.toNat - 48) else none

/-- The indicators behind `|` or `>`, in either order: how to chomp, and how much
deeper the scalar is indented if that is given. -/
def blockHeader : Text → Chomp × Option Nat × Text
  | c :: s =>
    match chomp? c, indent? c with
    | some k, _ =>
      match s with
      | d :: r => match indent? d with
        | some n => (k, some n, r)
        | none => (k, none, s)
      | [] => (k, none, [])
    | none, some n =>
      match s with
      | d :: r => match chomp? d with
        | some k => (k, some n, r)
        | none => (.clip, some n, s)
      | [] => (.clip, some n, [])
    | none, none => (.clip, none, c :: s)
  | [] => (.clip, none, [])

/-- The blank lines in front of a line of a block scalar, and the indentation of that
line.  The answer has the line ends, the last one first, and the widest
indentation.  An `indent` of zero is not known yet. -/
def takeIndent (indent widest : Nat) (breaks : Text) (m : Mark) : Text → Option (Taken (Text × Nat))
  | [] => some ⟨(breaks, max widest m.column), m, []⟩
  | c :: s =>
    let inIndent : Bool := indent = 0 ∨ m.column < indent
    if c = ' ' ∧ inIndent = true then takeIndent indent widest breaks m.next s
    else if c = '\t' ∧ inIndent = true then none
    else if isBreak c then takeIndent indent (max widest m.column) (c :: breaks) m.newline s
    else some ⟨(breaks, max widest m.column), m, c :: s⟩

/-- The lines of a block scalar.  `leading` is the end of the line before, `breaks`
the ends of the blank lines behind it, and `blank` says that the line before starts
with a blank.  Every line takes at least one character, so the length of the text
is fuel enough. -/
def takeLines (literal : Bool) (chomp : Chomp) (indent : Nat) :
    Nat → Text → Option Char → Text → Bool → Mark → Text → Option (Taken Text)
  | 0, _, _, _, _, _, _ => none
  | fuel + 1, out, leading, breaks, blank, m, s =>
    if m.column = indent ∧ s ≠ [] then
      let startsBlank := s.head?.any isSpaceOrTab
      let joined :=
        if literal = false ∧ leading = some '\n' ∧ blank = false ∧ startsBlank = false then
          if breaks = [] then [' '] else []
        else leading.toList
      let line := s.takeWhile fun c => !isBreak c
      let out := line.reverse ++ (breaks ++ (joined ++ out))
      match s.dropWhile fun c => !isBreak c with
      | [] => takeLines literal chomp indent fuel out none [] startsBlank (m.pastAll line) []
      | b :: rest =>
        match takeIndent indent 0 [] (m.pastAll line).newline rest with
        | none => none
        | some ⟨(breaks, _), m, rest⟩ =>
          takeLines literal chomp indent fuel out (some b) breaks startsBlank m rest
    else
      let out := if chomp = .strip then out else leading.toList ++ out
      let out := if chomp = .keep then breaks ++ out else out
      some ⟨out.reverse, m, s⟩

/-- A block scalar, from behind its first indicator.  `parent` is the indentation of
the collection around it, and less than zero outside of every one. -/
def takeBlock (literal : Bool) (parent : Int) (m : Mark) (s : Text) : Option (Taken Text) :=
  let (chomp, given, s') := blockHeader s
  let s' := s'.dropWhile isSpaceOrTab
  let s' := if s'.head? = some '#' then s'.dropWhile (fun c => !isBreak c) else s'
  let m := m.pastAll (s.take (s.length - s'.length))
  let start : Option (Mark × Text) :=
    match s' with
    | [] => some (m, [])
    | c :: r => if isBreak c then some (m.newline, r) else none
  match start with
  | none => none
  | some (m, r) =>
    let known : Nat := match given with
      | some n => if 0 ≤ parent then parent.toNat + n else n
      | none => 0
    match takeIndent known 0 [] m r with
    | none => none
    | some ⟨(breaks, widest), m, r⟩ =>
      let indent := if known = 0 then max (max widest (parent + 1).toNat) 1 else known
      takeLines literal chomp indent (r.length + 2) [] none breaks false m r

end Yaml
end ModuleBoundary
