/-
What a document says about profiles, before it is checked.

Reading a draft only looks at shapes: where a mapping is wanted there must be one,
and where a text is wanted there must be one.  Everything may be missing, and what
the rulebook does not know is passed over.  Of routing a copy is kept.
-/
import ModuleBoundary.Keyed
import ModuleBoundary.Text.Escape
import ModuleBoundary.Yaml.Value.Copy

namespace ModuleBoundary

open Yaml (Value)

/-! ## Shapes -/

inductive Wanted
  | rulebook
  | body
  | profile
  | roots
  | mapping
  | text
  | fieldName
  deriving DecidableEq, Repr

inductive ShapeError
  | mismatch (found : Value) (wanted : Wanted)
  /-- A field is there twice, under keys that differ in their tags only. -/
  | duplicateField (name : Text)
  /-- Two keys of a mapping are the same in the copy of it. -/
  | duplicateKey
  deriving Repr

namespace Wanted

def describe : Wanted → Text
  | .rulebook => "struct RulebookDto".toList
  | .body => "struct CleanPlusDto".toList
  | .profile => "struct ProfileDto".toList
  | .roots => "struct RootsDto".toList
  | .mapping => "a map".toList
  | .text => "a string".toList
  | .fieldName => "field identifier".toList

end Wanted

namespace ShapeError

def marked (kind number : Text) : Text := kind ++ " \x60".toList ++ number ++ "\x60".toList

def describeInt (n : Int) : Text := if n < 0 then '-' :: Text.ofNat n.natAbs else Text.ofNat n.natAbs

def describe : Value → Text
  | .null => "unit value".toList
  | .bool b => marked "boolean".toList (if b then "true".toList else "false".toList)
  | .int n => marked "integer".toList (describeInt n)
  | .float x => marked "floating point".toList x.display
  | .string s => "string ".toList ++ Text.quoted s
  | .sequence _ => "sequence".toList
  | .mapping _ => "map".toList
  | .tagged _ v => describe v

def message : ShapeError → Text
  | .mismatch found wanted =>
    "invalid type: ".toList ++ describe found ++ ", expected ".toList ++ wanted.describe
  | .duplicateField name => "duplicate field \x60".toList ++ name ++ "\x60".toList
  | .duplicateKey => "duplicate entry in YAML map".toList

end ShapeError

/-! ## Drafts -/

structure RootsDraft where
  moduleRoot : Option Text
  sharedRoot : Option Text
  deriving DecidableEq, Repr

structure ProfileDraft where
  roots : Option RootsDraft
  deriving DecidableEq, Repr

/-- The part of a document that is about boundaries. -/
structure BodyDraft where
  profiles : Option (Keyed (Option ProfileDraft))
  routing : Option Value

structure Draft where
  body : Option BodyDraft

def Draft.empty : Draft := ⟨none⟩

/-! ## Reading -/

abbrev Reading (α : Type) := Value → Except ShapeError α

namespace Reading

/-- A value that may be left out; null counts as left out. -/
def optional {α : Type} (read : Reading α) : Reading (Option α) := fun v =>
  match v with
  | .null => .ok none
  | v => (read v).map some

def raw : Reading Value := fun v =>
  match v.copy? with
  | some u => .ok u
  | none => .error .duplicateKey

/-- A text, with or without a tag. -/
def text (wanted : Wanted) : Reading Text := fun v =>
  match v.untag with
  | .string s => .ok s
  | u => .error (.mismatch u wanted)

/-- The entries of a mapping; null counts as an empty one. -/
def entries (wanted : Wanted) : Reading (List (Value × Value)) := fun v =>
  match v.untag with
  | .mapping es => .ok es
  | .null => .ok []
  | u => .error (.mismatch u wanted)

/-- Reads entries in their order.  An entry with the name of a field is read right
away; every other one is passed over, but its key must be a name. -/
def readFields {σ : Type} (fields : List Text) (step : Text → Value → σ → Except ShapeError σ) :
    List Text → σ → List (Value × Value) → Except ShapeError σ
  | _, s, [] => .ok s
  | seen, s, (k, v) :: rest => do
    let name ← text .fieldName k
    if name ∈ fields then
      if name ∈ seen then throw (.duplicateField name)
      readFields fields step (name :: seen) (← step name v s) rest
    else readFields fields step seen s rest

def fields {σ : Type} (wanted : Wanted) (names : List Text)
    (step : Text → Value → σ → Except ShapeError σ) (start : σ) : Reading σ := fun v => do
  readFields names step [] start (← entries wanted v)

def roots : Reading RootsDraft :=
  fields .roots ["module_root".toList, "shared_contracts_root".toList]
    (fun name v d =>
      if name = "module_root".toList then
        (optional (text .text) v).map fun t => { d with moduleRoot := t }
      else (optional (text .text) v).map fun t => { d with sharedRoot := t })
    ⟨none, none⟩

def profile : Reading ProfileDraft :=
  fields .profile ["roots".toList]
    (fun _ v _ => (optional roots v).map fun r => ⟨r⟩)
    ⟨none⟩

/-- Profiles under their keys, in the order of the document; of two with one key the
later one counts. -/
def profiles : Reading (Keyed (Option ProfileDraft)) := fun v => do
  (← entries .mapping v).foldlM (fun m e => do
    let key ← text .text e.1
    return m.insert key (← optional profile e.2)) Keyed.empty

def body : Reading BodyDraft :=
  fields .body ["profiles".toList, "routing".toList]
    (fun name v d =>
      if name = "profiles".toList then (optional profiles v).map fun p => { d with profiles := p }
      else (optional raw v).map fun r => { d with routing := r })
    ⟨none, none⟩

end Reading

def Draft.ofValue : Reading Draft :=
  Reading.fields .rulebook ["clean_plus".toList]
    (fun _ v _ => (Reading.optional Reading.body v).map fun b => ⟨b⟩)
    Draft.empty

end ModuleBoundary
