/-
How many lines a report has.

A line of a report is put together from texts that come out of files, and one line feed among
them would make two lines of it.  None comes through, and `run_lines` counts the lines.  A
target is spelled in a line of a file (`Guard.Evidence`), and no line has a feed in it,
whatever bytes it was decoded from.  A message adds to fixed words the name of a module, which
is a part of the target (`Reference.Names`), and the name of a segment of the path.  A path
that leads to a file is spelled with names of entries.  So nothing need be known of the base,
of the roots or of the patterns of the routing checks: where they have a line feed they lead
nowhere.
-/
import ModuleBoundary.Proofs.Path.Relative
import ModuleBoundary.Proofs.Reference.Names
import ModuleBoundary.Proofs.Run.Evidence
import ModuleBoundary.Report

namespace ModuleBoundary

/-! ## Lines -/

namespace Text

/-- The text is made of so many lines, each of them with a line feed at its end. -/
structure IsLines (s : Text) (n : Nat) : Prop where
  count_feed : s.count '\n' = n
  closed : s = [] ∨ s.getLast? = some '\n'

theorem isLines_line {s : Text} (h : '\n' ∉ s) : (line s).IsLines 1 := by
  refine ⟨?_, Or.inr List.getLast?_concat⟩
  rw [line, List.count_append, List.count_eq_zero.mpr h]
  rfl

theorem IsLines.append {a b : Text} {m n : Nat} (ha : a.IsLines m) (hb : b.IsLines n) :
    IsLines (a ++ b) (m + n) := by
  refine ⟨by rw [List.count_append, ha.count_feed, hb.count_feed], ?_⟩
  rcases hb.closed with rfl | hlast
  · rw [List.append_nil]
    exact ha.closed
  · rw [List.getLast?_append, hlast]
    exact Or.inr rfl

theorem isLines_flatMap {α : Type} {f : α → Text} {n : Nat} {xs : List α}
    (h : ∀ x ∈ xs, (f x).IsLines n) : IsLines (xs.flatMap f) (n * xs.length) := by
  induction xs with
  | nil => exact ⟨rfl, Or.inl rfl⟩
  | cons x xs ih =>
    have hrest := ih fun y hy => h y (List.mem_cons_of_mem x hy)
    rw [List.flatMap_cons, List.length_cons, Nat.mul_succ, Nat.add_comm]
    exact (h x List.mem_cons_self).append hrest

theorem feed_not_mem_ofNat (n : Nat) : '\n' ∉ ofNat n := by
  intro h
  have hdigit := Nat.isDigit_of_mem_toDigits (by decide) (by decide) h
  exact absurd hdigit (by decide)

end Text

structure Violation.Feedless (v : Violation) : Prop where
  file : '\n' ∉ v.file.text
  code : '\n' ∉ v.code
  target : '\n' ∉ v.target
  message : '\n' ∉ v.message

namespace Report

variable {v : Violation} {f : Findings}

theorem isLines_compactLine (h : v.Feedless) : (compactLine v).IsLines 1 := by
  refine Text.isLines_line ?_
  simp [h.file, h.code, h.message, Text.feed_not_mem_ofNat]

theorem isLines_textLines (h : v.Feedless) : (textLines v).IsLines 2 := by
  have hdisplay : '\n' ∉ v.display := by
    simp [Violation.display, h.file, h.message, Text.feed_not_mem_ofNat]
  have htarget : '\n' ∉ "    ".toList ++ v.target := by simp [h.target]
  exact (Text.isLines_line hdisplay).append (Text.isLines_line htarget)

theorem isLines_compact (h : ∀ v ∈ f.violations, v.Feedless) :
    (compact f).IsLines f.violations.length := by
  have hlines := Text.isLines_flatMap fun v hv => isLines_compactLine (h v hv)
  rwa [Nat.one_mul] at hlines

theorem isLines_text {key : Text} (hkey : '\n' ∉ key) (h : ∀ v ∈ f.violations, v.Feedless) :
    (text key f).IsLines (if f.violations = [] then 1 else 1 + 2 * f.violations.length) := by
  rw [text, Findings.hasViolations]
  by_cases hnil : f.violations = []
  · simp only [hnil, List.isEmpty_nil, Bool.not_true, Bool.false_eq_true, if_false, if_true]
    refine Text.isLines_line ?_
    simp [hkey, Text.feed_not_mem_ofNat]
  · have hsome : (!f.violations.isEmpty) = true := by simpa using hnil
    rw [if_pos hsome, if_neg hnil]
    refine (Text.isLines_line ?_).append (Text.isLines_flatMap fun v hv => isLines_textLines (h v hv))
    simp [hkey, Text.feed_not_mem_ofNat]

end Report

/-! ## What comes out of files -/

def Tree.NoFeeds (t : Tree) : Prop := ∀ e ∈ t.entries, ∀ n ∈ e.1, 0x0A ∉ n

instance (t : Tree) : Decidable t.NoFeeds :=
  inferInstanceAs (Decidable (∀ e ∈ t.entries, ∀ n ∈ e.1, _))

theorem Path.feed_not_mem_text {p : Path} (h : 0x0A ∉ p.bytes) : '\n' ∉ p.text :=
  Utf8.not_mem_decodeLossy (by decide) (by decide) rfl h

theorem Tree.feed_not_mem_of_read {t : Tree} (ht : t.NoFeeds) {p : Path} {bytes : Bytes}
    (h : t.read p = .ok bytes) : 0x0A ∉ p.bytes := by
  intro hmem
  obtain ⟨l, hl⟩ := resolve_of_read h
  rcases mem_bytes_of_resolve hl hmem with hslash | hdot | ⟨e, he, n, hn, hfeed⟩
  · exact absurd hslash (by decide)
  · exact absurd hdot (by decide)
  · exact ht e he n hn hfeed

theorem Violation.IsAt.feed_not_mem_file {v : Violation} {t : Tree} {base file : Path} {line : Text}
    (h : v.IsAt t base file line) (ht : t.NoFeeds) : '\n' ∉ v.file.text := by
  obtain ⟨bytes, hbytes, _⟩ := h.read_eq
  rw [h.file_eq]
  refine Path.feed_not_mem_text fun hmem => ?_
  rcases Path.mem_bytes_relativeTo hmem with hslash | hdot | hmem
  · exact absurd hslash (by decide)
  · exact absurd hdot (by decide)
  · exact Tree.feed_not_mem_of_read ht hbytes hmem

theorem Violation.IsAt.feed_not_mem_line {v : Violation} {t : Tree} {base file : Path} {line : Text}
    (h : v.IsAt t base file line) : '\n' ∉ line := by
  obtain ⟨bytes, _, _, _, hline⟩ := h.read_eq
  exact Text.feed_not_mem_of_mem_lines (List.mem_of_getElem? hline)

theorem Identity.feed_not_mem_message {source : Identity} {r : Reference} {breach : Breach}
    (h : source.breach? r = some breach) (htarget : '\n' ∉ r.moduleName)
    (hsource : ∀ name, source.moduleName? = some name → '\n' ∉ name) : '\n' ∉ breach.message := by
  cases breach?_eq_some_iff.mp h with
  | sharedContracts => simp [Breach.inSharedContracts, htarget]
  | moduleContracts => simp [Breach.inModuleContracts, htarget]
  | acrossModules => simp [Breach.acrossModules, htarget, hsource _ rfl]

theorem Rule.feed_not_mem_code (rule : Rule) : '\n' ∉ rule.code := by cases rule <;> decide

theorem Rule.feed_not_mem_routeMessage (rule : Rule) : '\n' ∉ rule.routeMessage := by
  -- Two texts are behind the five rules, and to read a long text costs more than to split.
  rw [routeMessage.eq_def]
  split <;> decide +kernel

namespace Guard

variable {g : Guard} {t : Tree} {source : FileSource} {v : Violation}

theorem Evidence.feed_not_mem_target {file : Path} {line : Text} (h : g.Evidence t source v file line)
    (hline : '\n' ∉ line) : '\n' ∉ v.target := by
  cases h with
  | route _ _ _ htarget =>
    rw [htarget]
    exact fun hmem => hline ((Text.isInfix_trim line).subset hmem)
  | script _ _ _ htarget =>
    obtain ⟨q, q', _, _, hbetween⟩ := htarget.between
    exact fun hmem => hline (hbetween.subset (by simp [hmem]))
  | php _ _ _ htarget => exact fun hmem => hline (htarget.subset hmem)

theorem feedless_of_mem_verdicts (ht : t.NoFeeds) {file : Path} (hfile : file ∈ g.analysed t source)
    (h : v ∈ g.verdicts t file) : v.Feedless := by
  obtain ⟨line, hat, hevidence⟩ := evidence_of_mem_verdicts hfile h
  have htarget := hevidence.feed_not_mem_target hat.feed_not_mem_line
  have hpath : 0x0A ∉ file.bytes := by
    obtain ⟨bytes, hbytes, _⟩ := hat.read_eq
    exact Tree.feed_not_mem_of_read ht hbytes
  obtain ⟨place, i, r, breach, hplace, _, hr, hbreach, rfl⟩ := mem_verdicts.mp h
  refine ⟨hat.feed_not_mem_file ht, Rule.feed_not_mem_code _, htarget, ?_⟩
  -- Of the two names in a message one was read off the target and the other one off the path.
  refine Identity.feed_not_mem_message hbreach ?_ ?_
  · exact fun hmem => htarget ((Classifier.names_of_classify hr).isInfix.subset hmem)
  · intro name hname hmem
    cases place with
    | sharedContracts => exact nomatch hname
    | inModule n strict =>
      obtain rfl := Option.some.inj hname
      have hsegment := Roots.mem_segments_of_identify hplace
      have hfeed : 0x0A ∈ Utf8.encode n :=
        (Utf8.mem_encode_iff (c := '\n') (by decide)).mpr hmem
      exact hpath ((Text.mem_splitOn hsegment).1.subset hfeed)

theorem feedless_of_mem_check (ht : t.NoFeeds) (h : v ∈ (g.routing.check t g.base).violations) :
    v.Feedless := by
  obtain ⟨file, line, hat, hevidence⟩ : ∃ file line, v.IsAt t g.base file line ∧
      g.Evidence t (Listing.scan t) v file line := evidence_of_mem_check h
  have htarget := hevidence.feed_not_mem_target hat.feed_not_mem_line
  obtain ⟨rule, _, _, _, hv⟩ := Routing.mem_violations_check.mp h
  obtain ⟨_, _, _, _, _, _, rfl⟩ := Routing.mem_violations_checkFile.mp hv
  exact ⟨hat.feed_not_mem_file ht, rule.feed_not_mem_code, htarget, rule.feed_not_mem_routeMessage⟩

/-- If no path of the tree has a line feed in it, and the key of the profile has none, the
compact report of a run is one line for each violation, and the text report is one line, or one
and two for each violation. -/
theorem run_lines {findings : Findings} (ht : t.NoFeeds) (hkey : '\n' ∉ g.profile.key)
    (h : (g.run t source).outcome = .checked findings) :
    (∃ s, Report.render? g.profile.key findings .compact = some s ∧
      s.IsLines findings.violations.length) ∧
    ∃ s, Report.render? g.profile.key findings .text = some s ∧
      s.IsLines (if findings.violations = [] then 1 else 1 + 2 * findings.violations.length) := by
  have hfeedless : ∀ v ∈ findings.violations, v.Feedless := by
    intro v hv
    rcases (mem_violations_run h).mp hv with ⟨file, hfile, hv⟩ | hv
    · exact feedless_of_mem_verdicts ht hfile hv
    · exact feedless_of_mem_check ht hv
  exact ⟨⟨_, rfl, Report.isLines_compact hfeedless⟩,
    ⟨_, rfl, Report.isLines_text hkey hfeedless⟩⟩

/-- A group that is broken over two lines, and a carriage return in a name. -/
def broken : Tree where
  entries :=
    [(["modules".toList], .dir),
      (["modules".toList, "user".toList], .dir),
      (["modules".toList, "user".toList, "Mail.php".toList],
        Layout.php "use Domains\\Order\\\x7b\n\tTotal\x7d;\nuse Domains\\Order\\To\rtal;\n")]
  valid := ⟨by decide, by decide, by decide, by decide⟩

theorem run_lines_broken : broken.NoFeeds ∧ '\n' ∉ Layout.guard.profile.key ∧
    ∃ findings, (Layout.guard.run broken (Listing.scan broken)).outcome = .checked findings ∧
      (∃ s, Report.render? Layout.guard.profile.key findings .compact = some s ∧ s.IsLines 2) ∧
      ∃ s, Report.render? Layout.guard.profile.key findings .text = some s ∧ s.IsLines 5 := by
  have hfree : broken.NoFeeds := by decide
  have hkey : '\n' ∉ Layout.guard.profile.key := by decide
  have hdir : broken.isDir Layout.guard.roots.moduleRoot = true := by decide +kernel
  have houtcome := @outcome_of_isDir Layout.guard broken (Listing.scan broken) hdir
  have hfound : ((Layout.guard.analysed broken (Listing.scan broken)).flatMap
      (Layout.guard.verdicts broken) ++ Layout.guard.routeViolations broken).length = 2 := by
    decide +kernel
  obtain ⟨findings, hrun, hlength⟩ : ∃ findings,
      (Layout.guard.run broken (Listing.scan broken)).outcome = .checked findings ∧
        findings.violations.length = 2 :=
    ⟨_, houtcome, (List.mergeSort_perm _ Violation.le).length_eq.trans hfound⟩
  obtain ⟨hcompact, htext⟩ := run_lines hfree hkey hrun
  rw [if_neg (List.ne_nil_of_length_eq_add_one hlength)] at htext
  rw [hlength] at hcompact htext
  exact ⟨hfree, hkey, findings, hrun, hcompact, htext⟩

end Guard
end ModuleBoundary
