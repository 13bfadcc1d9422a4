/-
What can be read back from a JSON report.

There is a report where every reported path is a text (`isSome_render?_iff`).  It is read as
any JSON text is, and its fields are looked up by their names; the reader here
(`Report.content?`) shares nothing with the writer but these names.  What it finds is the
profile and the findings that were written (`content?_of_render?`), so no two reports have one
text.  The same goes for the notice of a run that was skipped.
-/
import ModuleBoundary.Proofs.Json.RoundTrip
import ModuleBoundary.Proofs.Path.Texts
import ModuleBoundary.Report

namespace ModuleBoundary

/-! ## Values -/

namespace Json

def asText? : Json → Option Text
  | .string s => some s
  | _ => none

def asNumber? : Json → Option Nat
  | .number n => some n
  | _ => none

def asItems? : Json → Option (List Json)
  | .array items => some items
  | _ => none

def textField? (name : Text) (v : Json) : Option Text := (v.field? name).bind asText?

def numberField? (name : Text) (v : Json) : Option Nat := (v.field? name).bind asNumber?

end Json

def Findings.FilesAreTexts (f : Findings) : Prop := ∀ v ∈ f.violations, v.file.IsText

instance (f : Findings) : Decidable f.FilesAreTexts :=
  inferInstanceAs (Decidable (∀ v ∈ f.violations, _))

namespace Report

/-! ## Reading -/

def violation? (v : Json) : Option Violation := do
  let location ← v.field? "location".toList
  some {
    code := ← v.textField? "code".toList
    rule := ← v.textField? "rule".toList
    file := .ofText (← location.textField? "file".toList)
    line := ← location.numberField? "line".toList
    target := ← v.textField? "target".toList
    message := ← v.textField? "message".toList }

structure Content where
  profile : Text
  status : Text
  findings : Findings
  deriving DecidableEq, Repr

def content? (s : Text) : Option Content := do
  let report ← Json.ofText? s
  let items ← (← report.field? "violations".toList).asItems?
  some {
    profile := ← report.textField? "profile".toList
    status := ← report.textField? "status".toList
    findings := ⟨← items.mapM violation?, ← report.numberField? "files_checked".toList⟩ }

structure Notice where
  profile : Text
  status : Text
  moduleRoot : Path
  deriving DecidableEq, Repr

def notice? (s : Text) : Option Notice := do
  let report ← Json.ofText? s
  some {
    profile := ← report.textField? "profile".toList
    status := ← report.textField? "status".toList
    moduleRoot := .ofText (← report.textField? "module_root".toList) }

/-! ## What is written -/

theorem ofPath?_eq_some_iff {p : Path} {v : Json} :
    ofPath? p = some v ↔ ∃ s, p = .ofText s ∧ v = .string s := by
  rw [ofPath?, Option.map_eq_some_iff]
  exact exists_congr fun s => and_congr Path.text?_eq_some_iff eq_comm

theorem isSome_ofPath? (p : Path) : (ofPath? p).isSome = p.text?.isSome := Option.isSome_map

theorem isSome_ofViolation? (v : Violation) : (ofViolation? v).isSome = v.file.text?.isSome := by
  rw [← isSome_ofPath?, ofViolation?]
  cases ofPath? v.file <;> rfl

theorem isSome_render?_iff {profile : Text} {f : Findings} :
    (render? profile f .json).isSome = true ↔ f.FilesAreTexts := by
  have hviolations : (ofFindings? profile f).isSome = (f.violations.mapM ofViolation?).isSome := by
    rw [ofFindings?]
    cases f.violations.mapM ofViolation? <;> rfl
  rw [render?, Option.isSome_map, hviolations, isSome_mapM_iff]
  simp only [isSome_ofViolation?, Findings.FilesAreTexts, Path.IsText]

theorem isSome_renderSkipped?_iff {profile : Text} {moduleRoot : Path} :
    (renderSkipped? profile moduleRoot .json).isSome = true ↔ moduleRoot.IsText := by
  rw [renderSkipped?, Option.isSome_map, Path.IsText, ← isSome_ofPath?, ofSkipped?]
  cases ofPath? moduleRoot <;> simp

/-! ## Reading what was written -/

theorem violation?_of_ofViolation? {v : Violation} {w : Json} (h : ofViolation? v = some w) :
    violation? w = some v := by
  rw [ofViolation?, Option.bind_eq_bind, Option.bind_eq_some_iff] at h
  obtain ⟨file, hfile, hw⟩ := h
  obtain ⟨s, hs, rfl⟩ := ofPath?_eq_some_iff.mp hfile
  obtain rfl := Option.some.inj hw
  show some { v with file := .ofText s } = some v
  rw [← hs]

theorem mapM_violation? {vs : List Violation} {ws : List Json}
    (h : vs.mapM ofViolation? = some ws) : ws.mapM violation? = some vs := by
  rw [mapM_eq_some_iff] at h ⊢
  induction vs generalizing ws with
  | nil => rw [List.map_eq_nil_iff.mp h.symm]; rfl
  | cons v vs ih =>
    obtain ⟨w, ws, rfl, hw, hws⟩ := List.map_eq_cons_iff.mp h.symm
    rw [List.map_cons, List.map_cons, violation?_of_ofViolation? hw.symm, ih hws.symm]

theorem status_eq (f : Findings) :
    status f = if f.violations = [] then "clean".toList else "violations".toList := by
  rw [status, Findings.hasViolations]
  cases f.violations <;> rfl

/-- A report is one object, and the fields of it are what was written. -/
theorem content?_of_render? {profile : Text} {f : Findings} {s : Text}
    (h : render? profile f .json = some s) :
    (∃ fields, Json.ofText? s = some (.object fields) ∧ fields.map Prod.fst =
      ["profile".toList, "status".toList, "violations".toList, "files_checked".toList]) ∧
    content? s = some ⟨profile, status f, f⟩ := by
  obtain ⟨report, hreport, rfl⟩ := Option.map_eq_some_iff.mp h
  rw [ofFindings?, Option.bind_eq_bind, Option.bind_eq_some_iff] at hreport
  obtain ⟨items, hitems, hobject⟩ := hreport
  have hread := Json.ofText?_line_toText report
  obtain rfl := Option.some.inj hobject
  refine ⟨⟨_, hread, rfl⟩, ?_⟩
  rw [content?, ofJson, hread]
  show (do some (Content.mk profile (status f) ⟨← items.mapM violation?, f.filesChecked⟩)) = _
  rw [mapM_violation? hitems]
  rfl

/-- A notice is one object, and the fields of it are what was written. -/
theorem notice?_of_renderSkipped? {profile : Text} {moduleRoot : Path} {s : Text}
    (h : renderSkipped? profile moduleRoot .json = some s) :
    (∃ fields, Json.ofText? s = some (.object fields) ∧ fields.map Prod.fst =
      ["profile".toList, "status".toList, "module_root".toList]) ∧
    notice? s = some ⟨profile, "skipped".toList, moduleRoot⟩ := by
  obtain ⟨report, hreport, rfl⟩ := Option.map_eq_some_iff.mp h
  rw [ofSkipped?, Option.bind_eq_bind, Option.bind_eq_some_iff] at hreport
  obtain ⟨root, hroot, hobject⟩ := hreport
  obtain ⟨r, rfl, rfl⟩ := ofPath?_eq_some_iff.mp hroot
  have hread := Json.ofText?_line_toText report
  obtain rfl := Option.some.inj hobject
  refine ⟨⟨_, hread, rfl⟩, ?_⟩
  rw [notice?, ofJson, hread]
  rfl

/-- A JSON report is there if every reported file is a text, whatever the other texts and the
numbers.  It is one object, and loses nothing of a run: it says which profile it was, whether
there are violations, and every violation in its order with all its fields.  So different runs
have different reports.  The notice of a run that was skipped says which profile it was and which
module root is missing. -/
theorem json_reads_back :
    (∀ (profile : Text) (f : Findings),
      (render? profile f .json).isSome = true ↔ f.FilesAreTexts) ∧
    (∀ (profile : Text) (f : Findings) (s : Text), render? profile f .json = some s →
      (∃ fields, Json.ofText? s = some (.object fields) ∧ fields.map Prod.fst =
        ["profile".toList, "status".toList, "violations".toList, "files_checked".toList]) ∧
      content? s = some
        ⟨profile, if f.violations = [] then "clean".toList else "violations".toList, f⟩) ∧
    (∀ (profile profile' : Text) (f f' : Findings) (s : Text),
      render? profile f .json = some s → render? profile' f' .json = some s →
        profile = profile' ∧ f = f') ∧
    (∀ (profile : Text) (moduleRoot : Path),
      (renderSkipped? profile moduleRoot .json).isSome = true ↔ moduleRoot.IsText) ∧
    (∀ (profile : Text) (moduleRoot : Path) (s : Text),
      renderSkipped? profile moduleRoot .json = some s →
      (∃ fields, Json.ofText? s = some (.object fields) ∧ fields.map Prod.fst =
        ["profile".toList, "status".toList, "module_root".toList]) ∧
      notice? s = some ⟨profile, "skipped".toList, moduleRoot⟩) ∧
    (∀ (profile profile' : Text) (root root' : Path) (s : Text),
      renderSkipped? profile root .json = some s → renderSkipped? profile' root' .json = some s →
        profile = profile' ∧ root = root') := by
  refine ⟨fun profile f => isSome_render?_iff, fun profile f s h => ?_,
    fun profile profile' f f' s h h' => ?_, fun profile root => isSome_renderSkipped?_iff,
    fun profile root s h => notice?_of_renderSkipped? h,
    fun profile profile' root root' s h h' => ?_⟩
  · rw [← status_eq]
    exact content?_of_render? h
  · have hsame := (content?_of_render? h).2.symm.trans (content?_of_render? h').2
    obtain ⟨hprofile, _, hfindings⟩ := Content.mk.inj (Option.some.inj hsame)
    exact ⟨hprofile, hfindings⟩
  · have hsame := (notice?_of_renderSkipped? h).2.symm.trans (notice?_of_renderSkipped? h').2
    obtain ⟨hprofile, _, hroot⟩ := Notice.mk.inj (Option.some.inj hsame)
    exact ⟨hprofile, hroot⟩

/-- A violation in a file with quotes, backslashes and a line feed in its name. -/
def quoted : Violation :=
  ⟨"CP003".toList, "cross_module".toList, "modules/\"a\\b\n.php", 7, "Domains\\User".toList,
    "\t\u0001".toList⟩

theorem json_reads_back_quoted :
    (∃ s, render? "app".toList ⟨[quoted], 2⟩ .json = some s ∧
      content? s = some ⟨"app".toList, "violations".toList, [quoted], 2⟩) ∧
    render? "app".toList ⟨[quoted], 2⟩ .json ≠ render? "app".toList ⟨[quoted, quoted], 2⟩ .json ∧
    (∃ s, renderSkipped? "app".toList "src/\"modules" .json = some s ∧
      notice? s = some ⟨"app".toList, "skipped".toList, "src/\"modules"⟩) ∧
    renderSkipped? "app".toList "modules" .json ≠ renderSkipped? "app".toList "modules/" .json := by
  obtain ⟨hprinted, hreads, hapart, hnoticed, htells, hdiffer⟩ := json_reads_back
  have hone := (hprinted "app".toList ⟨[quoted], 2⟩).mpr (by decide)
  obtain ⟨s, hs⟩ := Option.isSome_iff_exists.mp hone
  have hroot := (hnoticed "app".toList "src/\"modules").mpr (by decide)
  obtain ⟨r, hr⟩ := Option.isSome_iff_exists.mp hroot
  have hplain := (hnoticed "app".toList "modules").mpr (by decide)
  obtain ⟨q, hq⟩ := Option.isSome_iff_exists.mp hplain
  refine ⟨⟨s, hs, (hreads _ _ s hs).2⟩, fun hsame => ?_, ⟨r, hr, (htells _ _ r hr).2⟩,
    fun hsame => ?_⟩
  · have hfindings := (hapart _ _ _ _ s hs (hsame ▸ hs)).2
    exact absurd (congrArg (fun f => f.violations.length) hfindings) (by decide)
  · have hroots := (hdiffer _ _ _ _ q hq (hsame ▸ hq)).2
    exact absurd hroots (by decide)

end Report
end ModuleBoundary
