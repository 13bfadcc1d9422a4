/-
What an invocation answers: its exit status, the text it prints, and the lines it
writes on the error stream.

The working directory is the base of every run, and the rulebook is read from there.
An invocation that fails prints nothing.
-/
import ModuleBoundary.CommandLine.Help
import ModuleBoundary.CommandLine.Options
import ModuleBoundary.Guard
import ModuleBoundary.Rulebook.Load

namespace ModuleBoundary

inductive ExitStatus
  | success
  /-- The run has found violations. -/
  | violations
  /-- The invocation is rejected, or there is no profile to run. -/
  | failure
  deriving DecidableEq, Repr

def ExitStatus.code : ExitStatus → Nat
  | .success => 0
  | .violations => 2
  | .failure => 3

structure Answer where
  status : ExitStatus
  output : Text
  diagnostics : List Text
  deriving DecidableEq, Repr

namespace Answer

def failed (diagnostics : List Text) : Answer := ⟨.failure, [], diagnostics⟩

def ofText (s : Text) : Answer := ⟨.success, s, []⟩

end Answer

namespace Outcome

def status : Outcome → ExitStatus
  | .skipped _ => .success
  | .checked f => if f.hasViolations then .violations else .success

/-- The report of an outcome, if there is one.  A module root is shown as it is seen from
the base. -/
def report? (outcome : Outcome) (base : Path) (profile : Text) (format : Format) : Option Text :=
  match outcome with
  | .skipped root => Report.renderSkipped? profile (root.relativeTo base) format
  | .checked f => Report.render? profile f format

end Outcome

namespace ConfigError

def diagnostics (e : ConfigError) : List Text :=
  (e.code ++ ": ".toList ++ e.message) :: (e.help?.map fun h => "help: ".toList ++ h).toList

end ConfigError

namespace Options

def workingDirectory : Path := "."

def guard (o : Options) (t : Tree) : Except ConfigError Guard := do
  let book ← Rulebook.ofFile t o.rules
  let profile ← book.choose t workingDirectory o.profile
  return ⟨workingDirectory, profile, book.routingFor profile.key⟩

def diagnostics (o : Options) (g : Guard) (run : Run) : List Text :=
  (if o.verbose then ["profile: ".toList ++ g.profile.key] else []) ++
    (if run.warnings = 0 then [] else ["warnings: ".toList ++ Text.ofNat run.warnings])

/-- What is said of a run without a report. -/
def noReport : Text := "Error: path contains invalid UTF-8 characters".toList

def answer (o : Options) (t : Tree) : Answer :=
  match o.guard t with
  | .error e => .failed e.diagnostics
  | .ok g =>
    let run := g.run t (Listing.scan t)
    match run.outcome.report? g.base g.profile.key o.format with
    | some report => ⟨run.outcome.status, report, o.diagnostics g run⟩
    | none => .failed (o.diagnostics g run ++ [noReport])

end Options

namespace Invocation

/-- The answer to an invocation, where `environment` is the value of the variable that
can make a run verbose. -/
def answer (invocation : Invocation) (t : Tree) (environment : Option Text) : Answer :=
  match invocation with
  | .run o => o.answer t
  | .help false => .ofText (Help.short environment)
  | .help true => .ofText (Help.long environment)
  | .version => .ofText Help.version
  | .rejected cause => .failed [cause.message]

end Invocation

def Answer.ofArguments (t : Tree) (arguments : List Text) (environment : Option Text) : Answer :=
  (Invocation.ofArguments arguments environment).answer t environment

/-- An invocation that is rejected prints nothing. -/
theorem Answer.ofArguments_rejected {t : Tree} {arguments : List Text} {environment : Option Text}
    {cause : UsageError} (h : Invocation.ofArguments arguments environment = .rejected cause) :
    Answer.ofArguments t arguments environment = .failed [cause.message] := by
  rw [Answer.ofArguments, h, Invocation.answer]

end ModuleBoundary
