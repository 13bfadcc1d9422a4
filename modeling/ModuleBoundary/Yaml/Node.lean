/-
The nodes of a YAML document, as they are written: scalars, sequences and mappings
with their anchors and tags, and aliases that are not yet followed.

Reading takes tokens from the front of a list.  Fuel bounds how deep the readers
call each other; every second call takes a token, so a few calls for each token are
enough.
-/
import ModuleBoundary.Yaml.Token.Stream

namespace ModuleBoundary
namespace Yaml

structure Props where
  anchor : Option Text
  tag : Option Bytes
  deriving DecidableEq, Repr, Inhabited

def Props.none : Props := ⟨.none, .none⟩

inductive Node
  | alias (name : Text)
  | scalar (props : Props) (text : Text) (plain : Bool)
  | sequence (props : Props) (items : List Node)
  | mapping (props : Props) (entries : List (Node × Node))
  deriving Repr, Inhabited

namespace Node

abbrev Reader := StateT (List Token) Option

/-- A node that is left out: the null of YAML. -/
def absent : Node := .scalar .none [] true

abbrev Handles := List (Text × Bytes)

def defaultHandles : Handles :=
  [(['!'], Utf8.encode ['!']), ("!!".toList, Utf8.encode "tag:yaml.org,2002:".toList)]

/-- The whole of a tag.  A handle must have been declared. -/
def fullTag? (handles : Handles) (handle : Text) (suffix : Bytes) : Option Bytes :=
  if handle = [] then some suffix else (handles.lookup handle).map (· ++ suffix)

def props (handles : Handles) : Reader Props := do
  match ← get with
  | .anchor a :: .tag h t :: rest => set rest; return ⟨some a, some (← fullTag? handles h t)⟩
  | .tag h t :: .anchor a :: rest => set rest; return ⟨some a, some (← fullTag? handles h t)⟩
  | .anchor a :: rest => set rest; return ⟨some a, .none⟩
  | .tag h t :: rest => set rest; return ⟨.none, some (← fullTag? handles h t)⟩
  | _ => return .none

/-- The next token is one of those; the end of the stream is none. -/
def nextIs (p : Token → Bool) : Reader Bool := do return (← get).head?.any p

def accept (t : Token) : Reader Bool := do
  match ← get with
  | u :: rest => if u = t then set rest; return true else return false
  | [] => return false

def expect (t : Token) : Reader Unit := do if !(← accept t) then failure

def skip : Reader Unit := do
  match ← get with
  | _ :: rest => set rest
  | [] => failure

def endsBlockNode (t : Token) : Bool := t == .key || t == .value || t == .blockEnd

mutual

/-- One node.  `block` allows block collections, and `indentless` a sequence without
an indentation of its own. -/
def read (handles : Handles) : Nat → (block indentless : Bool) → Reader Node
  | 0, _, _ => failure
  | fuel + 1, block, indentless => do
    match ← get with
    | .alias name :: rest => set rest; return .alias name
    | _ =>
      let p ← props handles
      match ← get with
      | .scalar text plain :: rest =>
        set rest
        return .scalar p text plain
      | .flowSequenceStart :: rest => set rest; return .sequence p (← flowItems handles fuel true)
      | .flowMappingStart :: rest => set rest; return .mapping p (← flowEntries handles fuel true)
      | .blockEntry :: _ =>
        if indentless then return .sequence p (← indentlessItems handles fuel)
        else if p = .none then failure else return .scalar p [] true
      | .blockSequenceStart :: rest =>
        if block then set rest; return .sequence p (← blockItems handles fuel)
        else if p = .none then failure else return .scalar p [] true
      | .blockMappingStart :: rest =>
        if block then set rest; return .mapping p (← blockEntries handles fuel)
        else if p = .none then failure else return .scalar p [] true
      | _ => if p = .none then failure else return .scalar p [] true

def blockItems (handles : Handles) : Nat → Reader (List Node)
  | 0 => failure
  | fuel + 1 => do
    if ← accept .blockEntry then
      let item ←
        if ← nextIs (fun t => t == .blockEntry || t == .blockEnd) then pure absent
        else read handles fuel true false
      return item :: (← blockItems handles fuel)
    else expect .blockEnd; return []

def indentlessItems (handles : Handles) : Nat → Reader (List Node)
  | 0 => failure
  | fuel + 1 => do
    if ← accept .blockEntry then
      let item ←
        if ← nextIs (fun t => t == .blockEntry || endsBlockNode t) then pure absent
        else read handles fuel true false
      return item :: (← indentlessItems handles fuel)
    else return []

def blockEntries (handles : Handles) : Nat → Reader (List (Node × Node))
  | 0 => failure
  | fuel + 1 => do
    if ← accept .key then
      let k ← if ← nextIs endsBlockNode then pure absent else read handles fuel true true
      let v ←
        if ← accept .value then
          if ← nextIs endsBlockNode then pure absent else read handles fuel true true
        else pure absent
      return (k, v) :: (← blockEntries handles fuel)
    else expect .blockEnd; return []

/-- The items of a sequence in brackets, up to its end.  An item may be a mapping
with one entry. -/
def flowItems (handles : Handles) : Nat → (first : Bool) → Reader (List Node)
  | 0, _ => failure
  | fuel + 1, first => do
    if ← accept .flowSequenceEnd then return []
    if !first then expect .flowEntry
    if ← accept .key then
      let k ←
        if ← nextIs (fun t => t == .value || t == .flowEntry || t == .flowSequenceEnd) then
          skip
          pure absent
        else read handles fuel false false
      let v ←
        if ← accept .value then
          if ← nextIs (fun t => t == .flowEntry || t == .flowSequenceEnd) then pure absent
          else read handles fuel false false
        else pure absent
      return .mapping .none [(k, v)] :: (← flowItems handles fuel false)
    else if ← accept .flowSequenceEnd then return []
    else
      let item ← read handles fuel false false
      return item :: (← flowItems handles fuel false)

def flowEntries (handles : Handles) : Nat → (first : Bool) → Reader (List (Node × Node))
  | 0, _ => failure
  | fuel + 1, first => do
    if ← accept .flowMappingEnd then return []
    if !first then expect .flowEntry
    if ← accept .key then
      let k ←
        if ← nextIs (fun t => t == .value || t == .flowEntry || t == .flowMappingEnd) then pure absent
        else read handles fuel false false
      let v ←
        if ← accept .value then
          if ← nextIs (fun t => t == .flowEntry || t == .flowMappingEnd) then pure absent
          else read handles fuel false false
        else pure absent
      return (k, v) :: (← flowEntries handles fuel false)
    else if ← accept .flowMappingEnd then return []
    else
      let k ← read handles fuel false false
      return (k, absent) :: (← flowEntries handles fuel false)

end

/-! ## Documents -/

/-- The directives in front of a document: at most one version, which must be 1.1 or
1.2, and handles that are declared once.  Declared handles come before the default
ones. -/
def directives : List Token → (version : Bool) → Handles → Option (Handles × List Token)
  | .versionDirective major minor :: rest, version, handles =>
    if version = true ∨ major ≠ 1 ∨ (minor ≠ 1 ∧ minor ≠ 2) then none
    else directives rest true handles
  | .tagDirective handle lead :: rest, version, handles =>
    if (handles.lookup handle).isSome then none
    else directives rest version (handles ++ [(handle, lead)])
  | rest, _, handles => some (handles ++ defaultHandles, rest)

def endsDocument : List Token → Bool
  | [] => true
  | .versionDirective _ _ :: _ => true
  | .tagDirective _ _ :: _ => true
  | .documentStart :: _ => true
  | .documentEnd :: _ => true
  | _ => false

/-- The node of the one document of a stream; a stream without a document has a node
that is left out.  Nothing but ends of documents may follow it. -/
def ofTokens? (tokens : List Token) : Option Node := do
  let fuel := 4 * tokens.length + 4
  let (node, rest) ←
    match tokens with
    | [] => some (absent, [])
    | .versionDirective _ _ :: _ | .tagDirective _ _ :: _ | .documentStart :: _ => do
      let (handles, rest) ← directives tokens false []
      match rest with
      | .documentStart :: rest =>
        if endsDocument rest then some (absent, rest) else (read handles fuel true false).run rest
      | _ => none
    | _ => (read defaultHandles fuel true false).run tokens
  if (rest.dropWhile (· = .documentEnd)).isEmpty then some node else none

def ofText? (s : Text) : Option Node := do ofTokens? (← tokens? s)

end Node
end Yaml
end ModuleBoundary
