/-
From a draft to a rulebook.

A draft is checked as a whole: either every profile is in order, and the rulebook
has exactly the profiles of the draft, or all problems are reported, in the order of
the keys.  Routing is never a problem: what is not shaped like routing checks is
passed over.
-/
import ModuleBoundary.Rulebook.Basic
import ModuleBoundary.Rulebook.Error
import ModuleBoundary.Yaml.Value.Load

namespace ModuleBoundary

open Yaml (Value)

/-! ## Profiles -/

namespace ProfileDraft

def moduleRootProblems (key : Text) (root : Option Text) : List Problem :=
  match root with
  | none => [⟨.moduleRoot key, .missing⟩]
  | some t => if Text.trim t = [] then [⟨.moduleRoot key, .empty⟩] else []

def sharedRootProblems (key : Text) (root : Option Text) : List Problem :=
  match root with
  | none => []
  | some t => if Text.trim t = [] then [⟨.sharedRoot key, .empty⟩] else []

def check (key : Text) (draft : Option ProfileDraft) : Except (List Problem) Profile :=
  match draft.bind (·.roots) with
  | none => .error [⟨.roots key, .missing⟩]
  | some roots =>
    match roots.moduleRoot, moduleRootProblems key roots.moduleRoot ++ sharedRootProblems key roots.sharedRoot with
    | some t, [] => .ok ⟨key, ⟨.ofText (Text.trim t), roots.sharedRoot.map fun s => .ofText (Text.trim s)⟩⟩
    | _, problems => .error problems

end ProfileDraft

def checkProfiles (drafts : List (Text × Option ProfileDraft)) : Except (List Problem) (List Profile) :=
  let checked := drafts.map fun d => ProfileDraft.check d.1 d.2
  let problems := checked.flatMap fun
    | .error ps => ps
    | .ok _ => []
  if problems = [] then
    .ok (checked.filterMap fun
      | .ok p => some p
      | .error _ => none)
  else .error problems

/-! ## Routing -/

namespace Routing

/-- The texts of a sequence.  Only a sequence without a tag counts. -/
def globsOf : Option Value → List Text
  | some (.sequence items) => items.filterMap Value.asText?
  | _ => []

/-- A text that is not blank, without the blanks at its ends.  Only a text without a
tag counts. -/
def registrationOf : Option Value → Option Path
  | some (.string s) => if Text.trim s = [] then .none else some (.ofText (Text.trim s))
  | _ => .none

def ofValue (v : Value) : Routing :=
  ⟨globsOf (v.get? "forbidden_route_definition_glob".toList),
    registrationOf (v.get? "registration_location".toList)⟩

/-- The routing checks of every profile that has some.  A key that is no text is
passed over. -/
def allOf (v : Value) : Keyed Routing :=
  match (v.get? "locations".toList).bind Value.asMapping? with
  | .none => .empty
  | some entries =>
    .ofList (entries.filterMap fun e => e.1.asText?.map fun key => (key, ofValue e.2))

end Routing

/-! ## Rulebooks -/

namespace Draft

def load (draft : Draft) : Except (List Problem) Rulebook :=
  match draft.body with
  | none => .error [⟨.body, .missing⟩]
  | some body =>
    match body.profiles with
    | none => .error [⟨.profiles, .missing⟩]
    | some drafts => do
      let profiles ← checkProfiles drafts.entries
      return .new profiles ((body.routing.map Routing.allOf).getD .empty)

end Draft

namespace Rulebook

def ofValue (v : Value) : Except ConfigError Rulebook := do
  let draft ← (Draft.ofValue v).mapError ConfigError.shape
  draft.load.mapError ConfigError.invalid

def ofText (s : Text) : Except ConfigError Rulebook :=
  match Value.ofText? s with
  | none => .error .malformed
  | some v => ofValue v

def ofFile (t : Tree) (path : Path) : Except ConfigError Rulebook := do
  let bytes ← (t.read path).mapError fun e => ConfigError.file path (.unreadable e)
  match Utf8.decode? bytes with
  | none => .error (.file path .notText)
  | some s => ofText s

/-! ## Choosing a profile -/

/-- The profiles whose module root is a directory. -/
def candidates (b : Rulebook) (t : Tree) (base : Path) : List Profile :=
  b.allProfiles.filter fun p => t.isDir (base.join p.roots.moduleRoot)

/-- The active profile: the one that is asked for, or else the only one whose module
root is a directory. -/
def choose (b : Rulebook) (t : Tree) (base : Path) (key : Option Text) : Except ConfigError Profile :=
  match key with
  | some key =>
    match b.profile? key with
    | some p => .ok p
    | none => .error (.unknownProfile key b.keys)
  | none =>
    match b.candidates t base with
    | [] => .error .noProfile
    | [p] => .ok p
    | ps => .error (.ambiguousProfile (ps.map (·.key)))

end Rulebook
end ModuleBoundary
