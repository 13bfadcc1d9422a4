/-
What the arguments of an invocation ask for.

Arguments are read from left to right, and the first one that is out of order ends
the reading, as does the first one that asks for help or for the version.  So
`Invocation.ofArguments` rejects an invocation for a fault in front of `--help`, and
shows the help for one in front of a fault.
-/
import ModuleBoundary.Report

namespace ModuleBoundary

structure Options where
  rules : Path
  profile : Option Text
  verbose : Bool
  format : Format
  deriving DecidableEq, Repr

/-! ## The options by name -/

/-- An option that stands alone. -/
inductive Switch
  | verbose
  | help
  | version
  deriving DecidableEq, Repr

/-- An option that takes a value. -/
inductive Setting
  | rules
  | profile
  | format
  deriving DecidableEq, Repr

namespace Switch

def ofName? (name : Text) : Option Switch :=
  if name = "verbose".toList then some .verbose
  else if name = "help".toList then some .help
  else if name = "version".toList then some .version
  else none

def ofLetter? (c : Char) : Option Switch :=
  if c = 'v' then some .verbose
  else if c = 'h' then some .help
  else if c = 'V' then some .version
  else none

end Switch

namespace Setting

def name : Setting → Text
  | .rules => "rules".toList
  | .profile => "profile".toList
  | .format => "format".toList

def ofName? (name : Text) : Option Setting := [rules, profile, format].find? (·.name = name)

def ofLetter? (c : Char) : Option Setting := if c = 'f' then some .format else none

theorem ofName?_name (s : Setting) : ofName? s.name = some s := by cases s <;> decide

end Setting

namespace Format

def name : Format → Text
  | .text => "text".toList
  | .json => "json".toList
  | .compact => "compact".toList

def ofName? (name : Text) : Option Format := [text, json, compact].find? (·.name = name)

theorem ofName?_name (f : Format) : ofName? f.name = some f := by cases f <;> decide

end Format

/-! ## Why an invocation is rejected -/

inductive UsageError
  | unknownOption (argument : Text)
  /-- An argument that is no option. -/
  | unexpectedArgument (argument : Text)
  /-- A value behind an option that takes none. -/
  | unexpectedValue (value : Text)
  | missingValue (option : Setting)
  | invalidValue (option : Setting) (value : Text)
  | repeated (option : Text)
  deriving DecidableEq, Repr

def UsageError.message : UsageError → Text
  | .unknownOption a => "unknown option ".toList ++ a
  | .unexpectedArgument a => "unexpected argument ".toList ++ a
  | .unexpectedValue v => "unexpected value ".toList ++ v
  | .missingValue o => "missing value of --".toList ++ o.name
  | .invalidValue o v => "invalid value of --".toList ++ o.name ++ ": ".toList ++ v
  | .repeated o => "repeated option --".toList ++ o

/-! ## Reading -/

inductive Invocation
  | run (options : Options)
  /-- The help, in short or at length. -/
  | help (long : Bool)
  | version
  | rejected (cause : UsageError)
  deriving DecidableEq, Repr

structure GivenOptions where
  rules : Option Path
  profile : Option Text
  verbose : Bool
  format : Option Format
  deriving DecidableEq, Repr

namespace GivenOptions

def none : GivenOptions := ⟨.none, .none, false, .none⟩

/-- One switch more, spelled as a word or as a letter.  An `Invocation` in place of
the options ends the reading. -/
def turnOn (g : GivenOptions) (asWord : Bool) : Switch → Except Invocation GivenOptions
  | .verbose =>
    if g.verbose then .error (.rejected (.repeated "verbose".toList)) else .ok { g with verbose := true }
  | .help => .error (.help asWord)
  | .version => .error .version

def set (g : GivenOptions) (s : Setting) (value : Text) : Except Invocation GivenOptions :=
  match s with
  | .rules =>
    if value = [] then .error (.rejected (.invalidValue .rules value))
    else if g.rules.isSome then .error (.rejected (.repeated s.name))
    else .ok { g with rules := some (.ofText value) }
  | .profile =>
    if g.profile.isSome then .error (.rejected (.repeated s.name))
    else .ok { g with profile := some value }
  | .format =>
    match Format.ofName? value with
    | .none => .error (.rejected (.invalidValue .format value))
    | some f =>
      if g.format.isSome then .error (.rejected (.repeated s.name))
      else .ok { g with format := some f }

/-- Letters behind one dash.  A letter that takes a value takes the rest of them, with
or without `=`; if there is no rest, it awaits the next argument. -/
def takeLetters (g : GivenOptions) : Text → Except Invocation (GivenOptions × Option Setting)
  | [] => .ok (g, .none)
  | c :: s =>
    match Setting.ofLetter? c, Switch.ofLetter? c with
    | some setting, _ =>
      match s with
      | [] => .ok (g, some setting)
      | '=' :: value => (g.set setting value).map fun g => (g, .none)
      | value => (g.set setting value).map fun g => (g, .none)
    | .none, some switch => do takeLetters (← g.turnOn false switch) s
    | .none, .none => .error (.rejected (.unknownOption ['-', c]))

/-- A word behind two dashes, with the value behind its `=` if it has one. -/
def takeWord (g : GivenOptions) (name : Text) (value : Option Text) :
    Except Invocation (GivenOptions × Option Setting) :=
  match Setting.ofName? name, Switch.ofName? name, value with
  | some setting, _, some value => (g.set setting value).map fun g => (g, .none)
  | some setting, _, .none => .ok (g, some setting)
  | .none, some _, some value => .error (.rejected (.unexpectedValue value))
  | .none, some switch, .none => (g.turnOn true switch).map fun g => (g, .none)
  | .none, .none, _ => .error (.rejected (.unknownOption ("--".toList ++ name)))

/-- One argument, and the setting that awaits its value in the next one. -/
def take (g : GivenOptions) (argument : Text) : Except Invocation (GivenOptions × Option Setting) :=
  match argument with
  | '-' :: '-' :: word =>
    match Text.cut? '=' word with
    | some (name, value) => g.takeWord name (some value)
    | .none => g.takeWord word .none
  | '-' :: c :: letters => g.takeLetters (c :: letters)
  | _ => .error (.rejected (.unexpectedArgument argument))

/-- The argument is no value: it starts with a dash and is more than that. -/
def looksLikeOption : Text → Bool
  | '-' :: _ :: _ => true
  | _ => false

/-- All arguments.  Behind `--` no argument is allowed. -/
def read (g : GivenOptions) : Option Setting → List Text → Except Invocation GivenOptions
  | .none, [] => .ok g
  | some s, [] => .error (.rejected (.missingValue s))
  | some s, value :: rest =>
    if looksLikeOption value then .error (.rejected (.missingValue s))
    else do (← g.set s value).read .none rest
  | .none, argument :: rest =>
    if argument = "--".toList then
      match rest with
      | [] => .ok g
      | a :: _ => .error (.rejected (.unexpectedArgument a))
    else do
      let (g, awaited) ← g.take argument
      g.read awaited rest

end GivenOptions

namespace Options

def defaultRules : Path := "clean-plus.rules.yaml"

/-- The values of the environment that switch nothing on, in lower case. -/
def negatives : List Text :=
  ["".toList, "n".toList, "no".toList, "f".toList, "false".toList, "off".toList, "0".toList]

def isVerbose : Option Text → Bool
  | none => false
  | some value => !negatives.contains (Text.lower value)

/-- The options of a run.  The environment can switch `verbose` on, but not off. -/
def ofGiven (g : GivenOptions) (environment : Option Text) : Options where
  rules := g.rules.getD defaultRules
  profile := g.profile
  verbose := g.verbose || isVerbose environment
  format := g.format.getD .text

end Options

def Invocation.ofArguments (arguments : List Text) (environment : Option Text) : Invocation :=
  match GivenOptions.none.read none arguments with
  | .ok g => .run (.ofGiven g environment)
  | .error invocation => invocation

end ModuleBoundary
