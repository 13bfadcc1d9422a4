/-
How an invocation ends.

An invocation that is rejected fails, and one that starts a run ends as the run does
(`Options.Ends`): it fails if there is no guard, and otherwise its status says whether the
run has found violations.  A verbose run has no part in this, and the format has one only where
a file that is reported has no text for a path: there is no JSON of it, and a run that is to
print some fails (`Options.Unprintable`, `Answer.ofArguments_latin`).  Only the rulebook and the
profile decide on the guard (`Options.guard_congr`); for arguments it takes the readings of
`Proofs.CommandLine.Reading` to say so.
-/
import ModuleBoundary.CommandLine.Answer
import ModuleBoundary.Proofs.CommandLine.Reading
import ModuleBoundary.Proofs.Report.Reading
import ModuleBoundary.Proofs.Rulebook.Loading

namespace ModuleBoundary

/-! ## What a JSON report shows -/

namespace Report

def ShowsStatus (output status : Text) : Prop :=
  ∃ report, Json.ofText? output = some report ∧
    report.field? "status".toList = some (.string status)

theorem showsStatus_ofJson_iff {report : Json} {status shown : Text}
    (h : report.field? "status".toList = some (.string shown)) :
    ShowsStatus (ofJson report) status ↔ status = shown := by
  rw [ShowsStatus, ofJson, Json.ofText?_line_toText]
  constructor
  · rintro ⟨_, heq, hstatus⟩
    obtain rfl := Option.some.inj heq
    rw [h] at hstatus
    exact (Json.string.inj (Option.some.inj hstatus)).symm
  · rintro rfl
    exact ⟨report, rfl, h⟩

theorem not_showsStatus_nil (status : Text) : ¬ShowsStatus [] status := by
  rintro ⟨report, hread, _⟩
  exact nomatch hread

end Report

namespace Outcome

def PathsAreTexts (base : Path) : Outcome → Prop
  | .skipped root => (root.relativeTo base).IsText
  | .checked findings => findings.FilesAreTexts

/-- In JSON a report needs paths that are texts. -/
theorem isSome_report?_iff {outcome : Outcome} {base : Path} {profile : Text} {format : Format} :
    (outcome.report? base profile format).isSome = true ↔
      (format = .json → outcome.PathsAreTexts base) := by
  cases format with
  | json =>
    cases outcome with
    | skipped root => exact Report.isSome_renderSkipped?_iff.trans ⟨fun h _ => h, fun h => h rfl⟩
    | checked findings => exact Report.isSome_render?_iff.trans ⟨fun h _ => h, fun h => h rfl⟩
  | text => cases outcome <;> exact iff_of_true rfl nofun
  | compact => cases outcome <;> exact iff_of_true rfl nofun

theorem showsStatus_iff {outcome : Outcome} {base : Path} {profile output : Text}
    (h : outcome.report? base profile .json = some output) :
    Report.ShowsStatus output "violations".toList ↔ outcome.status = .violations := by
  cases outcome with
  | skipped root =>
    obtain ⟨report, hreport, rfl⟩ := Option.map_eq_some_iff.mp h
    obtain ⟨shown, -, hobject⟩ := Option.bind_eq_some_iff.mp hreport
    obtain rfl := Option.some.inj hobject
    rw [Report.showsStatus_ofJson_iff rfl]
    exact iff_of_false (by decide) (by simp [status])
  | checked findings =>
    obtain ⟨report, hreport, rfl⟩ := Option.map_eq_some_iff.mp h
    obtain ⟨items, -, hobject⟩ := Option.bind_eq_some_iff.mp hreport
    obtain rfl := Option.some.inj hobject
    rw [Report.showsStatus_ofJson_iff rfl, Report.status, status]
    cases findings.hasViolations with
    | true => exact iff_of_true rfl rfl
    | false => exact iff_of_false (by decide) (by decide)

end Outcome

/-! ## Exit statuses -/

theorem ExitStatus.code_eq_iff (s : ExitStatus) :
    (s.code = 0 ↔ s = .success) ∧ (s.code = 2 ↔ s = .violations) ∧ (s.code = 3 ↔ s = .failure) := by
  cases s <;> decide

theorem Outcome.status_ne_failure (outcome : Outcome) : outcome.status ≠ .failure := by
  cases outcome with
  | skipped root => exact fun h => nomatch h
  | checked findings =>
    rw [status]
    cases findings.hasViolations <;> decide

theorem Outcome.status_eq_violations_iff (outcome : Outcome) : outcome.status = .violations ↔
    ∃ findings, outcome = .checked findings ∧ findings.violations ≠ [] := by
  cases outcome with
  | skipped root =>
    exact iff_of_false (by simp [status]) (by simp)
  | checked findings =>
    have hhas : findings.hasViolations = true ↔ findings.violations ≠ [] := by
      simp [Findings.hasViolations]
    rw [status]
    constructor
    · intro h
      refine ⟨findings, rfl, hhas.mp ?_⟩
      by_contra hnone
      rw [if_neg hnone] at h
      cases h
    · rintro ⟨findings', heq, hne⟩
      obtain rfl := Outcome.checked.inj heq
      rw [if_pos (hhas.mpr hne)]

/-! ## Runs -/

namespace Options

variable {o o' : Options} {t : Tree} {outcome outcome' : Outcome}

/-- The rulebook cannot be loaded, or no profile of it can be chosen. -/
def Fails (o : Options) (t : Tree) : Prop :=
  (∃ e, Rulebook.ofFile t o.rules = .error e) ∨
    ∃ book e, Rulebook.ofFile t o.rules = .ok book ∧
      book.choose t workingDirectory o.profile = .error e

/-- With the profile that is chosen from the rulebook, the run has this outcome. -/
def Runs (o : Options) (t : Tree) (outcome : Outcome) : Prop :=
  ∃ book profile, Rulebook.ofFile t o.rules = .ok book ∧
    book.choose t workingDirectory o.profile = .ok profile ∧
    (Guard.run ⟨workingDirectory, profile, book.routingFor profile.key⟩ t
      (Listing.scan t)).outcome = outcome

/-- The run checks something and finds violations. -/
def Finds (o : Options) (t : Tree) : Prop :=
  ∃ findings, o.Runs t (.checked findings) ∧ findings.violations ≠ []

/-- The run is to print JSON, and finds a violation in a file whose path is no text. -/
def Unprintable (o : Options) (t : Tree) : Prop :=
  o.format = .json ∧ ∃ findings, o.Runs t (.checked findings) ∧ ¬findings.FilesAreTexts

/-- An answer that says how the run ends: with its exit status, with nothing printed if it
fails, and with the status of a JSON report. -/
structure Ends (o : Options) (t : Tree) (answer : Answer) : Prop where
  failure : answer.status.code = 3 ∧ answer.output = [] ↔ o.Fails t ∨ o.Unprintable t
  failure_status : answer.status.code = 3 ↔ o.Fails t ∨ o.Unprintable t
  violations : answer.status.code = 2 ↔ o.Finds t ∧ ¬o.Unprintable t
  success : answer.status.code = 0 ↔ ¬o.Fails t ∧ ¬o.Finds t
  shown : o.format = .json →
    (Report.ShowsStatus answer.output "violations".toList ↔ answer.status.code = 2)

theorem guard_congr (hrules : o.rules = o'.rules) (hprofile : o.profile = o'.profile) :
    o.guard t = o'.guard t := by
  rw [guard, guard, hrules, hprofile]

/-- There is no guard, or the run has the outcome of the guard. -/
theorem guard_cases (o : Options) (t : Tree) :
    (∃ e, o.guard t = .error e ∧ o.Fails t) ∨
      ∃ g, o.guard t = .ok g ∧ o.Runs t (g.run t (Listing.scan t)).outcome ∧
        g.base = workingDirectory ∧ g.profile.roots.moduleRoot.IsText := by
  rw [guard]
  cases hbook : Rulebook.ofFile t o.rules with
  | error e => exact Or.inl ⟨e, rfl, Or.inl ⟨e, hbook⟩⟩
  | ok book =>
    simp only [bind, Except.bind]
    cases hprofile : book.choose t workingDirectory o.profile with
    | error e => exact Or.inl ⟨e, rfl, Or.inr ⟨book, e, hbook, hprofile⟩⟩
    | ok profile =>
      exact Or.inr ⟨_, rfl, ⟨book, profile, hbook, hprofile, rfl⟩, rfl,
        Rulebook.isText_moduleRoot_of_choose hbook hprofile⟩

theorem Runs.not_fails (h : o.Runs t outcome) : ¬o.Fails t := by
  obtain ⟨book, profile, hbook, hprofile, -⟩ := h
  rintro (⟨e, he⟩ | ⟨book', e, hbook', he⟩)
  · rw [hbook] at he
    exact nomatch he
  · obtain rfl := Except.ok.inj (hbook.symm.trans hbook')
    rw [hprofile] at he
    exact nomatch he

theorem Runs.unique (h : o.Runs t outcome) (h' : o.Runs t outcome') : outcome = outcome' := by
  obtain ⟨book, profile, hbook, hprofile, rfl⟩ := h
  obtain ⟨book', profile', hbook', hprofile', rfl⟩ := h'
  obtain rfl := Except.ok.inj (hbook.symm.trans hbook')
  obtain rfl := Except.ok.inj (hprofile.symm.trans hprofile')
  rfl

theorem Runs.finds_iff (h : o.Runs t outcome) : o.Finds t ↔ outcome.status = .violations := by
  rw [Outcome.status_eq_violations_iff]
  constructor
  · rintro ⟨findings, hruns, hne⟩
    exact ⟨findings, h.unique hruns, hne⟩
  · rintro ⟨findings, rfl, hne⟩
    exact ⟨findings, h, hne⟩

theorem Unprintable.finds (h : o.Unprintable t) : o.Finds t := by
  obtain ⟨-, findings, hruns, htexts⟩ := h
  refine ⟨findings, hruns, fun hnil => htexts fun v hv => ?_⟩
  rw [hnil] at hv
  exact absurd hv List.not_mem_nil

theorem runs_congr (hrules : o.rules = o'.rules) (hprofile : o.profile = o'.profile) :
    o.Runs t outcome ↔ o'.Runs t outcome := by
  rw [Runs, Runs, hrules, hprofile]

/-- The module root of a guard is a text of the rulebook, so the notice of it can be printed. -/
theorem isSome_report?_iff {g : Guard} (hbase : g.base = workingDirectory)
    (hroot : g.profile.roots.moduleRoot.IsText)
    (hruns : o.Runs t (g.run t (Listing.scan t)).outcome) :
    ((g.run t (Listing.scan t)).outcome.report? g.base g.profile.key o.format).isSome = true ↔
      ¬o.Unprintable t := by
  rw [Outcome.isSome_report?_iff]
  cases houtcome : (g.run t (Listing.scan t)).outcome with
  | skipped root =>
    rw [houtcome] at hruns
    have hshown : (root.relativeTo g.base).IsText := by
      rw [Guard.eq_of_skipped houtcome, Guard.roots, hbase]
      exact Path.IsText.relativeTo (Path.IsText.join (by decide) hroot) _
    refine iff_of_true (fun _ => hshown) ?_
    rintro ⟨-, findings, hruns', -⟩
    cases hruns.unique hruns'
  | checked findings =>
    rw [houtcome] at hruns
    constructor
    · rintro h ⟨hformat, findings', hruns', htexts⟩
      obtain rfl := Outcome.checked.inj (hruns.unique hruns')
      exact htexts (h hformat)
    · intro h hformat
      by_contra htexts
      exact h ⟨hformat, findings, hruns, htexts⟩

inductive Answers (o : Options) (t : Tree) : Answer → Prop
  | failed (diagnostics : List Text) (h : o.Fails t ∨ o.Unprintable t) :
    Answers o t (.failed diagnostics)
  | printed {outcome : Outcome} {base : Path} {profile output : Text} (diagnostics : List Text)
    (hruns : o.Runs t outcome) (hprintable : ¬o.Unprintable t)
    (houtput : outcome.report? base profile o.format = some output) :
    Answers o t ⟨outcome.status, output, diagnostics⟩

theorem answers_answer (o : Options) (t : Tree) : o.Answers t (o.answer t) := by
  rcases o.guard_cases t with ⟨e, hguard, hfails⟩ | ⟨g, hguard, hruns, hbase, hroot⟩
  · rw [answer, hguard]
    exact .failed _ (Or.inl hfails)
  · have hprintable := isSome_report?_iff hbase hroot hruns
    rw [answer, hguard]
    cases hreport : (g.run t (Listing.scan t)).outcome.report? g.base g.profile.key o.format with
    | some output =>
      rw [hreport] at hprintable
      simp only [hreport]
      exact .printed _ hruns (hprintable.mp rfl) hreport
    | none =>
      rw [hreport] at hprintable
      simp only [hreport]
      exact .failed _ (Or.inr (by simpa using hprintable))

theorem Answers.ends {answer : Answer} (h : o.Answers t answer) : o.Ends t answer := by
  obtain ⟨hzero, htwo, hthree⟩ := answer.status.code_eq_iff
  cases h with
  | failed diagnostics h =>
    have htwo' : ¬(Answer.failed diagnostics).status.code = 2 := (nomatch ·)
    refine ⟨iff_of_true ⟨rfl, rfl⟩ h, iff_of_true rfl h, iff_of_false htwo' ?_,
      iff_of_false (nomatch ·) ?_, fun _ => iff_of_false (Report.not_showsStatus_nil _) htwo'⟩
    · rintro ⟨⟨findings, hruns, -⟩, hprintable⟩
      exact hruns.not_fails (h.resolve_right hprintable)
    · rintro ⟨hfails, hfinds⟩
      exact hfinds (h.resolve_left hfails).finds
  | @printed outcome base profile output diagnostics hruns hprintable houtput =>
    have hfails : ¬(o.Fails t ∨ o.Unprintable t) := not_or.mpr ⟨hruns.not_fails, hprintable⟩
    have hne := Outcome.status_ne_failure outcome
    dsimp only at hzero htwo hthree
    have hsuccess : outcome.status = .success ↔ ¬outcome.status = .violations := by
      cases hstatus : outcome.status with
      | failure => exact absurd hstatus hne
      | success => decide
      | violations => decide
    refine ⟨?_, ?_, ?_, ?_, fun hformat => ?_⟩
    · rw [hthree]
      exact iff_of_false (fun h => hne h.1) hfails
    · rw [hthree]
      exact iff_of_false hne hfails
    · rw [htwo, hruns.finds_iff, and_iff_left hprintable]
    · rw [hzero, hsuccess, hruns.finds_iff, and_iff_right hruns.not_fails]
    · rw [htwo]
      exact Outcome.showsStatus_iff (hformat ▸ houtput)

theorem ends_answer (o : Options) (t : Tree) : o.Ends t (o.answer t) := (o.answers_answer t).ends

/-- Runs with the same rulebook and profile print the same and have the same status in the same
format, and in another one they have the same status if there is a report in both. -/
theorem answer_congr (t : Tree) (hrules : o.rules = o'.rules) (hprofile : o.profile = o'.profile) :
    (¬o.Unprintable t → ¬o'.Unprintable t → (o.answer t).status = (o'.answer t).status) ∧
      (o.format = o'.format → (o.answer t).status = (o'.answer t).status ∧
        (o.answer t).output = (o'.answer t).output) := by
  constructor
  · intro hprintable hprintable'
    have hfails : o.Fails t ↔ o'.Fails t := by rw [Fails, Fails, hrules, hprofile]
    have hanswers := o.answers_answer t
    have hanswers' := o'.answers_answer t
    generalize o.answer t = answer at hanswers
    generalize o'.answer t = answer' at hanswers'
    cases hanswers with
    | failed diagnostics h =>
      cases hanswers' with
      | failed diagnostics' h' => rfl
      | printed diagnostics' hruns' =>
        exact absurd (hfails.mp (h.resolve_right hprintable)) hruns'.not_fails
    | printed diagnostics hruns =>
      cases hanswers' with
      | failed diagnostics' h' =>
        exact absurd (hfails.mpr (h'.resolve_right hprintable')) hruns.not_fails
      | printed diagnostics' hruns' =>
        exact congrArg Outcome.status (hruns.unique ((runs_congr hrules hprofile).mpr hruns'))
  · intro hformat
    rw [answer, answer, guard_congr hrules hprofile, hformat]
    cases o'.guard t with
    | error e => exact ⟨rfl, rfl⟩
    | ok g =>
      dsimp only
      cases Outcome.report? _ g.base g.profile.key o'.format with
      | some output => exact ⟨rfl, rfl⟩
      | none => exact ⟨rfl, rfl⟩

end Options

/-! ## Arguments -/

namespace Answer

open GivenOptions (SameButFormat SameButVerbose)

variable {t : Tree} {arguments arguments' : List Text} {environment environment' : Option Text}

theorem status_of_sameEnd {i j : Invocation} (h : i.SameEnd j) :
    (i.answer t environment).status = (j.answer t environment').status := by
  cases h with
  | help long => cases long <;> simp only [Invocation.answer, ofText]
  | version => rfl
  | rejected cause cause' => rfl

theorem ofArguments_eq_run_iff {o : Options} :
    Invocation.ofArguments arguments environment = .run o ↔
      ∃ g, GivenOptions.none.read none arguments = .ok g ∧ o = .ofGiven g environment := by
  rw [Invocation.ofArguments]
  cases hread : GivenOptions.none.read none arguments with
  | error i =>
    refine iff_of_false (GivenOptions.ne_run_of_read hread o) ?_
    rintro ⟨g, heq, _⟩
    exact nomatch heq
  | ok g =>
    constructor
    · intro h
      exact ⟨g, rfl, (Invocation.run.inj h).symm⟩
    · rintro ⟨g', heq, rfl⟩
      rw [Except.ok.inj heq]

theorem status_of_alike (h : Alike True SameButFormat (GivenOptions.none.read none arguments)
      (GivenOptions.none.read none arguments'))
    (hprintable : ∀ o, Invocation.ofArguments arguments environment = .run o → ¬o.Unprintable t)
    (hprintable' : ∀ o, Invocation.ofArguments arguments' environment = .run o → ¬o.Unprintable t) :
    (ofArguments t arguments environment).status = (ofArguments t arguments' environment).status := by
  cases hread : GivenOptions.none.read none arguments with
  | error i =>
    cases hread' : GivenOptions.none.read none arguments' with
    | error j =>
      rw [hread, hread'] at h
      rw [ofArguments, ofArguments, Invocation.ofArguments, Invocation.ofArguments, hread, hread']
      exact status_of_sameEnd (h trivial)
    | ok g' =>
      rw [hread, hread'] at h
      exact absurd trivial h
  | ok g =>
    cases hread' : GivenOptions.none.read none arguments' with
    | error j =>
      rw [hread, hread'] at h
      exact absurd trivial h
    | ok g' =>
      rw [hread, hread'] at h
      have hrun : Invocation.ofArguments arguments environment = .run (.ofGiven g environment) :=
        ofArguments_eq_run_iff.mpr ⟨g, hread, rfl⟩
      have hrun' : Invocation.ofArguments arguments' environment = .run (.ofGiven g' environment) :=
        ofArguments_eq_run_iff.mpr ⟨g', hread', rfl⟩
      have hrules : (Options.ofGiven g environment).rules = (Options.ofGiven g' environment).rules :=
        congrArg (Option.getD · Options.defaultRules) h.rules
      rw [ofArguments, ofArguments, hrun, hrun']
      exact (Options.answer_congr t hrules h.profile).1 (hprintable _ hrun) (hprintable' _ hrun')

def Same (a b : Answer) : Prop := a.status = b.status ∧ a.output = b.output

theorem same_environment {o : Options} (h : Invocation.ofArguments arguments environment = .run o) :
    Same (ofArguments t arguments environment) (ofArguments t arguments environment') := by
  obtain ⟨g, hread, _⟩ := ofArguments_eq_run_iff.mp h
  have hrun : ∀ environment, ofArguments t arguments environment =
      (Options.ofGiven g environment).answer t := by
    intro environment
    rw [ofArguments, ofArguments_eq_run_iff.mpr ⟨g, hread, rfl⟩, Invocation.answer]
  rw [hrun environment, hrun environment']
  exact (@Options.answer_congr (.ofGiven g environment) (.ofGiven g environment') t rfl rfl).2 rfl

theorem same_verbose {o o' : Options} {before behind : List Text} {argument : Text}
    (hargument : argument ∈ ["-v".toList, "--verbose".toList])
    (h : Invocation.ofArguments (before ++ behind) environment = .run o)
    (h' : Invocation.ofArguments (before ++ argument :: behind) environment = .run o') :
    Same (ofArguments t (before ++ behind) environment)
      (ofArguments t (before ++ argument :: behind) environment) := by
  obtain ⟨g, hread, rfl⟩ := ofArguments_eq_run_iff.mp h
  obtain ⟨g', hread', rfl⟩ := ofArguments_eq_run_iff.mp h'
  have halike := GivenOptions.read_insert_verbose before hargument behind
  rw [hread, hread'] at halike
  have hS : SameButVerbose g g' := halike
  have hrules : (Options.ofGiven g environment).rules = (Options.ofGiven g' environment).rules :=
    congrArg (Option.getD · Options.defaultRules) hS.rules
  have hformat : (Options.ofGiven g environment).format = (Options.ofGiven g' environment).format :=
    congrArg (Option.getD · Format.text) hS.format
  rw [ofArguments, ofArguments, h, h']
  exact (Options.answer_congr t hrules hS.profile).2 hformat

/-- A rulebook with one profile, and a module that imports another one. -/
def ruled : Tree where
  entries :=
    [(["clean-plus.rules.yaml".toList], .file (Utf8.encode
        "clean_plus:\n  profiles:\n    web:\n      roots: {module_root: modules}\n".toList)),
      (["modules".toList], .dir),
      (["modules".toList, "user".toList], .dir),
      (["modules".toList, "user".toList, "Mail.php".toList],
        .file (Utf8.encode "use Domains\\Order\\Total;".toList))]
  valid := ⟨by decide, by decide, by decide, by decide⟩

/-- The same rulebook, and a module with a file whose name is no text. -/
def latin : Tree where
  entries :=
    [(["clean-plus.rules.yaml".toList], .file (Utf8.encode
        "clean_plus:\n  profiles:\n    web:\n      roots: {module_root: modules}\n".toList)),
      (["modules".toList], .dir),
      (["modules".toList, "user".toList], .dir),
      (["modules".toList, "user".toList, 0xE9 :: Utf8.encode ".php".toList],
        .file (Utf8.encode "use Domains\\Order\\Total;".toList))]
  valid := ⟨by decide, by decide, by decide, by decide⟩

def ruledGuard : Guard := ⟨".", ⟨"web".toList, "modules", none⟩, .none⟩

def ruledOptions (verbose : Bool) (format : Format) : Options :=
  ⟨Options.defaultRules, some "web".toList, verbose, format⟩

theorem runs_ruled {t : Tree}
    (hguard : ((ruledOptions false .text).guard t).toOption = some ruledGuard)
    (hdir : t.isDir ruledGuard.roots.moduleRoot = true) (verbose : Bool) (format : Format) :
    (ruledOptions verbose format).Runs t (.checked (Findings.sort
      ⟨(ruledGuard.analysed t (Listing.scan t)).flatMap (ruledGuard.verdicts t) ++
        ruledGuard.routeViolations t, (ruledGuard.analysed t (Listing.scan t)).length⟩)) := by
  rw [@Options.guard_congr (ruledOptions false .text) (ruledOptions verbose format) t rfl rfl]
    at hguard
  rw [← Guard.outcome_of_isDir hdir]
  rcases (ruledOptions verbose format).guard_cases t with ⟨e, heq, -⟩ | ⟨g, heq, hruns, -⟩
  · rw [heq] at hguard
    exact nomatch hguard
  · rw [heq] at hguard
    exact Option.some.inj hguard ▸ hruns

theorem finds_ruled (verbose : Bool) (format : Format) :
    (ruledOptions verbose format).Finds ruled ∧
      ¬(ruledOptions verbose format).Unprintable ruled := by
  have hruns := runs_ruled (t := ruled) (by decide +kernel) (by decide +kernel) verbose format
  have hfound : (ruledGuard.analysed ruled (Listing.scan ruled)).flatMap
      (ruledGuard.verdicts ruled) ++ ruledGuard.routeViolations ruled ≠ [] := by decide +kernel
  have htexts : ∀ v ∈ (ruledGuard.analysed ruled (Listing.scan ruled)).flatMap
      (ruledGuard.verdicts ruled) ++ ruledGuard.routeViolations ruled, v.file.IsText := by
    decide +kernel
  constructor
  · refine ⟨_, hruns, fun hnil => hfound ?_⟩
    exact ((List.mergeSort_perm _ Violation.le).symm.trans (.of_eq hnil)).eq_nil
  · rintro ⟨-, findings, hruns', hnot⟩
    obtain rfl := Outcome.checked.inj (hruns.unique hruns')
    exact hnot fun v hv => htexts v ((Findings.sort_perm _).mem_iff.mp hv)

theorem unprintable_latin : (ruledOptions false .json).Unprintable latin := by
  have hruns := runs_ruled (t := latin) (by decide +kernel) (by decide +kernel) false .json
  have htexts : ¬∀ v ∈ (ruledGuard.analysed latin (Listing.scan latin)).flatMap
      (ruledGuard.verdicts latin) ++ ruledGuard.routeViolations latin, v.file.IsText := by
    decide +kernel
  refine ⟨rfl, _, hruns, fun hall => htexts fun v hv => ?_⟩
  exact hall v ((Findings.sort_perm _).mem_iff.mpr hv)

end Answer
end ModuleBoundary
