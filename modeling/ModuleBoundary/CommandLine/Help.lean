/-
The texts of the command line: its help, in short and at length, and its version.
-/
import ModuleBoundary.CommandLine.Terminal

namespace ModuleBoundary
namespace Help

def ofLines (lines : List Text) : Text := lines.flatMap Text.line

/-- A text with every line but the first indented by `n`. -/
def hang (n : Nat) (s : Text) : Text :=
  s.flatMap fun c => if c = '\n' then '\n' :: List.replicate n ' ' else [c]

def variableNote (environment : Option Text) : Text :=
  "[env: CLEAN_PLUS_VERBOSE=".toList ++ environment.getD [] ++ "]".toList

def heading : List Text :=
  ["CLI for the clean-plus module boundary guard".toList,
    [],
    "Usage: clean-plus [OPTIONS]".toList,
    [],
    "Options:".toList]

/-- The help in short: a line for each option.  The name of an option is emphasised on
a terminal, so a control sequence that the variable leaves open ends in front of the
next name. -/
def short (environment : Option Text) : Text :=
  ofLines (heading ++
    ["      --rules <RULES>      Path to the rulebook [default: clean-plus.rules.yaml]".toList,
      "      --profile <PROFILE>  Profile key; auto-detected from existing module roots if omitted".toList]) ++
  "  -v, --verbose            Enable verbose output ".toList ++
  Terminal.plain (hang 27 (variableNote environment) ++ "\n  ".toList) ++
  ofLines
    ["-f, --format <FORMAT>    Output format [default: text] [possible values: text, json, compact]".toList,
      "  -h, --help               Print help (see more with '--help')".toList,
      "  -V, --version            Print version".toList]

def long (environment : Option Text) : Text :=
  ofLines (heading ++
    ["      --rules <RULES>".toList,
      "          Path to the rulebook".toList,
      "          ".toList,
      "          [default: clean-plus.rules.yaml]".toList,
      [],
      "      --profile <PROFILE>".toList,
      "          Profile key; auto-detected from existing module roots if omitted".toList,
      [],
      "  -v, --verbose".toList,
      "          Enable verbose output".toList,
      "          ".toList]) ++
  "          ".toList ++ Terminal.plain (hang 10 (variableNote environment) ++ "\n\n  ".toList) ++
  ofLines
    ["-f, --format <FORMAT>".toList,
      "          Output format".toList,
      [],
      "          Possible values:".toList,
      "          - text:    Human-readable text output".toList,
      "          - json:    JSON output".toList,
      "          - compact: One-line-per-violation compact format".toList,
      "          ".toList,
      "          [default: text]".toList,
      [],
      "  -h, --help".toList,
      "          Print help (see a summary with '-h')".toList,
      [],
      "  -V, --version".toList,
      "          Print version".toList]

def version : Text := Text.line "clean-plus 0.1.0".toList

end Help
end ModuleBoundary
