/-
Why a rulebook cannot be used.

An error is its cause; `ConfigError.message` is the one place where causes become
words.
-/
import ModuleBoundary.Rulebook.Draft
import ModuleBoundary.Tree.Lookup

namespace ModuleBoundary

/-! ## Problems of a draft -/

inductive DraftPlace
  | body
  | profiles
  | roots (key : Text)
  | moduleRoot (key : Text)
  | sharedRoot (key : Text)
  deriving DecidableEq, Repr

inductive Fault
  | missing
  | empty
  deriving DecidableEq, Repr

structure Problem where
  place : DraftPlace
  fault : Fault
  deriving DecidableEq, Repr

def DraftPlace.describe : DraftPlace → Text
  | .body => "clean_plus".toList
  | .profiles => "clean_plus.profiles".toList
  | .roots key => "clean_plus.profiles.".toList ++ key ++ ".roots".toList
  | .moduleRoot key => "clean_plus.profiles.".toList ++ key ++ ".roots.module_root".toList
  | .sharedRoot key => "clean_plus.profiles.".toList ++ key ++ ".roots.shared_contracts_root".toList

def Fault.describe : Fault → Text
  | .missing => "missing required key".toList
  | .empty => "must not be empty".toList

def Problem.describe (p : Problem) : Text := p.place.describe ++ ": ".toList ++ p.fault.describe

/-! ## Errors -/

inductive LoadError
  | unreadable (cause : ReadError)
  | notText
  deriving DecidableEq, Repr

inductive ConfigError
  | file (path : Path) (cause : LoadError)
  /-- The text is no YAML document. -/
  | malformed
  | shape (cause : ShapeError)
  | invalid (problems : List Problem)
  | unknownProfile (key : Text) (available : List Text)
  | noProfile
  | ambiguousProfile (candidates : List Text)
  deriving Repr

def ReadError.describe : ReadError → Text
  | .notFound => "No such file or directory (os error 2)".toList
  | .isDirectory => "Is a directory (os error 21)".toList
  | .notDirectory => "Not a directory (os error 20)".toList

def LoadError.describe : LoadError → Text
  | .unreadable cause => cause.describe
  | .notText => "stream did not contain valid UTF-8".toList

namespace ConfigError

def listed (keys : List Text) : Text := Text.join ", ".toList keys

def message : ConfigError → Text
  | .file path cause => "failed to read ".toList ++ path.text ++ ": ".toList ++ cause.describe
  | .malformed => "invalid rulebook: malformed document".toList
  | .shape cause => "invalid rulebook: ".toList ++ cause.message
  | .invalid problems =>
    "rulebook validation errors:\n".toList ++
      Text.join ['\n'] (problems.map fun p => "  - ".toList ++ p.describe)
  | .unknownProfile key available =>
    "unknown profile \x60".toList ++ key ++ "\x60 (available: ".toList ++ listed available ++ ")".toList
  | .noProfile => "no profile detected: none of the configured module roots exist".toList
  | .ambiguousProfile candidates =>
    "ambiguous profile; pass --profile explicitly (candidates: ".toList ++ listed candidates ++ ")".toList

def code : ConfigError → Text
  | .file _ _ => "clean_plus::config::io".toList
  | .malformed => "clean_plus::config::parse".toList
  | .shape _ => "clean_plus::config::parse".toList
  | .invalid _ => "clean_plus::config::invalid".toList
  | .unknownProfile _ _ => "clean_plus::profile::unknown".toList
  | .noProfile => "clean_plus::profile::undetected".toList
  | .ambiguousProfile _ => "clean_plus::profile::ambiguous".toList

def help? : ConfigError → Option Text
  | .unknownProfile _ _ => some "pass one of the configured profile keys with --profile".toList
  | .noProfile => some "run from the project root or pass --profile <key>".toList
  | _ => none

end ConfigError
end ModuleBoundary
