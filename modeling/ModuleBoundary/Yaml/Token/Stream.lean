/-
The tokens of a whole stream.

`Lexer` goes through a stream from left to right.  It keeps the indentation of the
block collections that are open, and for every level of brackets the place where a
key may have started: only the colon behind a key shows that it was one, so its
token is put in front of it afterwards.  A key stands on one line and has at most
1024 bytes.
-/
import ModuleBoundary.Yaml.Token.Name

namespace ModuleBoundary
namespace Yaml

structure KeyPlace where
  /-- How many tokens stand in front of it. -/
  token : Nat
  mark : Mark
  /-- Nothing but a key may stand here. -/
  required : Bool
  deriving DecidableEq, Repr

structure Lexer where
  rest : Text
  mark : Mark
  tokens : Array Token
  /-- The place of a key on the innermost level, and on the levels around it. -/
  keyPlace : Option KeyPlace
  outerPlaces : List (Option KeyPlace)
  /-- A key may start at the next token. -/
  keyAllowed : Bool
  /-- The indentation of the innermost block collection, or less than zero, and of
  the ones around it. -/
  indent : Int
  outerIndents : List Int
  deriving Repr

namespace Lexer

def start (s : Text) : Lexer := ⟨s, .start, #[], none, [], true, -1, []⟩

def inFlow (x : Lexer) : Bool := !x.outerPlaces.isEmpty

def push (x : Lexer) (t : Token) : Lexer := { x with tokens := x.tokens.push t }

def skip (x : Lexer) (n : Nat) : Lexer := { x with rest := x.rest.drop n, mark := x.mark.forward n }

def goTo {α : Type} (x : Lexer) (t : Taken α) : Lexer := { x with rest := t.rest, mark := t.mark }

/-! ## Space between tokens -/

/-- Behind blanks, comments and line ends.  A tab is a blank only where no key may
start.  In a block a new line may start a key.  One byte order mark may lead a line;
it is skipped like a blank. -/
def skipSpace (flow : Bool) : (allowed inComment : Bool) → Mark → Text → Taken Bool
  | allowed, _, m, [] => ⟨allowed, m, []⟩
  | allowed, inComment, m, c :: s =>
    if isBreak c then skipSpace flow (allowed || !flow) false m.newline s
    else if inComment || c == ' ' || (c == '\t' && (flow || !allowed)) || (c == '\uFEFF' && m.column == 0) then
      skipSpace flow allowed inComment (m.past c) s
    else if c == '#' then skipSpace flow allowed true m.next s
    else ⟨allowed, m, c :: s⟩

def toNextToken (x : Lexer) : Lexer :=
  let t := skipSpace x.inFlow x.keyAllowed false x.mark x.rest
  { x.goTo t with keyAllowed := t.value }

/-! ## Indentation -/

def closeBlocks (column : Int) : List Int → Lexer → Lexer
  | outer, x =>
    if x.inFlow = false ∧ column < x.indent then
      match outer with
      | [] => { x.push .blockEnd with indent := -1, outerIndents := [] }
      | i :: outer => closeBlocks column outer { x.push .blockEnd with indent := i, outerIndents := outer }
    else x

def unindent (x : Lexer) (column : Int) : Lexer := closeBlocks column x.outerIndents x

/-- Starts a block collection at a column, unless one is open there.  Its token is
put in front of the token with the number `place`. -/
def openBlock (x : Lexer) (column : Nat) (place : Nat) (t : Token) : Lexer :=
  if x.inFlow = false ∧ x.indent < column then
    { x with
      tokens := x.tokens.insertIdxIfInBounds place t
      indent := column
      outerIndents := x.indent :: x.outerIndents }
  else x

/-! ## Places of keys -/

/-- Gives up the place on the innermost level; a required key must not be missing. -/
def dropKeyPlace (x : Lexer) : Option Lexer :=
  if x.keyPlace.any (·.required) then none else some { x with keyPlace := none }

def saveKeyPlace (x : Lexer) : Option Lexer :=
  if x.keyAllowed then do
    let x ← x.dropKeyPlace
    some { x with
      keyPlace := some ⟨x.tokens.size, x.mark, !x.inFlow && x.indent == (x.mark.column : Int)⟩ }
  else some x

def isStale (m : Mark) (k : KeyPlace) : Bool := k.mark.line < m.line || k.mark.offset + 1024 < m.offset

def dropStale (x : Lexer) : Option Lexer :=
  let stale (k : Option KeyPlace) : Bool := k.any (isStale x.mark)
  let missing (k : Option KeyPlace) : Bool := k.any fun k => isStale x.mark k && k.required
  if (x.keyPlace :: x.outerPlaces).any missing then none
  else
    let fresh (k : Option KeyPlace) : Option KeyPlace := if stale k then none else k
    some { x with keyPlace := fresh x.keyPlace, outerPlaces := x.outerPlaces.map fresh }

/-! ## Tokens -/

def atMargin (x : Lexer) : Option Lexer := do
  let x ← (x.unindent (-1)).dropKeyPlace
  some { x with keyAllowed := false }

def directive (x : Lexer) : Option Lexer := do
  let x ← x.atMargin
  let t ← takeDirective x.mark.next x.rest.tail
  some ((x.goTo t).push t.value)

def documentMark (x : Lexer) (t : Token) : Option Lexer := do
  let x ← x.atMargin
  some ((x.skip 3).push t)

def openFlow (x : Lexer) (t : Token) : Option Lexer := do
  let x ← x.saveKeyPlace
  some (({ x with
    keyPlace := none, outerPlaces := x.keyPlace :: x.outerPlaces, keyAllowed := true }.skip 1).push t)

def closeFlow (x : Lexer) (t : Token) : Option Lexer := do
  let x ← x.dropKeyPlace
  let x := match x.outerPlaces with
    | [] => x
    | k :: outer => { x with keyPlace := k, outerPlaces := outer }
  some (({ x with keyAllowed := false }.skip 1).push t)

def flowEntry (x : Lexer) : Option Lexer := do
  let x ← x.dropKeyPlace
  some (({ x with keyAllowed := true }.skip 1).push .flowEntry)

/-- A dash.  In a block it needs a place where a key may start. -/
def blockEntry (x : Lexer) : Option Lexer := do
  if !x.inFlow && !x.keyAllowed then none
  let x ← (x.openBlock x.mark.column x.tokens.size .blockSequenceStart).dropKeyPlace
  some (({ x with keyAllowed := true }.skip 1).push .blockEntry)

def key (x : Lexer) : Option Lexer := do
  if !x.inFlow && !x.keyAllowed then none
  let x ← (x.openBlock x.mark.column x.tokens.size .blockMappingStart).dropKeyPlace
  some (({ x with keyAllowed := !x.inFlow }.skip 1).push .key)

/-- A colon.  If a key can have started, it has; its token is put in its place. -/
def value (x : Lexer) : Option Lexer := do
  match x.keyPlace with
  | some k =>
    let x := { x with
      tokens := x.tokens.insertIdxIfInBounds k.token .key, keyPlace := none, keyAllowed := false }
    some (((x.openBlock k.mark.column k.token .blockMappingStart).skip 1).push .value)
  | none =>
    if !x.inFlow && !x.keyAllowed then none
    let x := x.openBlock x.mark.column x.tokens.size .blockMappingStart
    some (({ x with keyAllowed := !x.inFlow }.skip 1).push .value)

def node {α : Type} (x : Lexer) (take : Lexer → Option (Taken α)) (token : α → Token) : Option Lexer := do
  let x ← x.saveKeyPlace
  let x := { x with keyAllowed := false }
  let t ← take x
  some ((x.goTo t).push (token t.value))

def blockScalar (x : Lexer) (literal : Bool) : Option Lexer := do
  let x ← x.dropKeyPlace
  let t ← takeBlock literal x.indent x.mark.next x.rest.tail
  some (({ x with keyAllowed := true }.goTo t).push (.scalar t.value false))

def plainScalar (x : Lexer) : Option Lexer := do
  let x ← x.saveKeyPlace
  let t ← takePlain x.inFlow (x.indent + 1).toNat [] .none x.mark x.rest
  some (({ x with keyAllowed := t.value.2 }.goTo t).push (.scalar t.value.1 true))

def isIndicator (c : Char) : Bool :=
  "-?:,[]\x7b\x7d#&*!|>'\"%@\x60".toList.contains c

def tokenAt (x : Lexer) (c : Char) (s : Text) : Option Lexer :=
  if x.mark.column = 0 ∧ c = '%' then x.directive
  else if atDocumentMark x.mark (c :: s) then
    x.documentMark (if c = '-' then .documentStart else .documentEnd)
  else if c = '[' then x.openFlow .flowSequenceStart
  else if c = '\x7b' then x.openFlow .flowMappingStart
  else if c = ']' then x.closeFlow .flowSequenceEnd
  else if c = '\x7d' then x.closeFlow .flowMappingEnd
  else if c = ',' then x.flowEntry
  else if c = '-' ∧ atGap s = true then x.blockEntry
  else if c = '?' ∧ (x.inFlow = true ∨ atGap s = true) then x.key
  else if c = ':' ∧ (x.inFlow = true ∨ atGap s = true) then x.value
  else if c = '*' then x.node (fun x => takeAnchor x.mark.next s) .alias
  else if c = '&' then x.node (fun x => takeAnchor x.mark.next s) .anchor
  else if c = '!' then x.node (fun x => takeTag x.inFlow x.mark x.rest) fun t => .tag t.1 t.2
  else if c = '|' ∧ x.inFlow = false then x.blockScalar true
  else if c = '>' ∧ x.inFlow = false then x.blockScalar false
  else if c = '\'' then x.node (fun x => takeSingle [] .none x.mark.next s) (.scalar · false)
  else if c = '"' then x.node (fun x => takeDouble [] .none none x.mark.next s) (.scalar · false)
  else if (isSpaceOrTab c = false ∧ isIndicator c = false) ∨ (c = '-' ∧ s.head?.any isSpaceOrTab = false) ∨
      (x.inFlow = false ∧ (c = '?' ∨ c = ':') ∧ atGap s = false) then x.plainScalar
  else none

/-- The tokens up to the end of the stream.  Every round takes a character, so one
round more than there are characters is enough. -/
def run : Nat → Lexer → Option (List Token)
  | 0, _ => none
  | fuel + 1, x =>
    match x.toNextToken.dropStale with
    | none => none
    | some x =>
      let x := x.unindent x.mark.column
      match x.rest with
      | [] => ((x.unindent (-1)).dropKeyPlace).map (·.tokens.toList)
      | c :: s =>
        match x.tokenAt c s with
        | none => none
        | some x => run fuel x

end Lexer

def tokens? (s : Text) : Option (List Token) :=
  if s.all isAllowed then
    let s := normalise s
    Lexer.run (s.length + 1) (Lexer.start s)
  else none

end Yaml
end ModuleBoundary
