/-
Reports of runs.

The text report has a head line and two lines for each violation, the compact one a
line for each violation, and the JSON report everything that a run found.  A path that
is no text is shown as far as it goes in lines, but it has no JSON, and so a JSON report
of it fails.
-/
import ModuleBoundary.Json.Basic
import ModuleBoundary.Violation

namespace ModuleBoundary

inductive Format
  | text
  | json
  | compact
  deriving DecidableEq, Repr

namespace Report

/-! ## JSON -/

def ofPath? (p : Path) : Option Json := p.text?.map .string

def ofViolation? (v : Violation) : Option Json := do
  let file ← ofPath? v.file
  some (.object [
    ("code".toList, .string v.code),
    ("rule".toList, .string v.rule),
    ("location".toList, .object [
      ("file".toList, file),
      ("line".toList, .number v.line)]),
    ("target".toList, .string v.target),
    ("message".toList, .string v.message)])

def status (f : Findings) : Text :=
  if f.hasViolations then "violations".toList else "clean".toList

def ofFindings? (profile : Text) (f : Findings) : Option Json := do
  let violations ← f.violations.mapM ofViolation?
  some (.object [
    ("profile".toList, .string profile),
    ("status".toList, .string (status f)),
    ("violations".toList, .array violations),
    ("files_checked".toList, .number f.filesChecked)])

def ofSkipped? (profile : Text) (moduleRoot : Path) : Option Json := do
  let root ← ofPath? moduleRoot
  some (.object [
    ("profile".toList, .string profile),
    ("status".toList, .string "skipped".toList),
    ("module_root".toList, root)])

/-! ## Lines -/

def textLines (v : Violation) : Text := Text.line v.display ++ Text.line ("    ".toList ++ v.target)

def text (profile : Text) (f : Findings) : Text :=
  if f.hasViolations then
    Text.line ("clean-plus: ".toList ++ Text.ofNat f.violations.length ++
      " violation(s) found (profile ".toList ++ profile ++ ")".toList) ++ f.violations.flatMap textLines
  else
    Text.line ("clean-plus: OK (profile ".toList ++ profile ++ ", ".toList ++ Text.ofNat f.filesChecked ++
      " file(s) checked)".toList)

def compactLine (v : Violation) : Text :=
  Text.line (v.file.text ++ ":".toList ++ Text.ofNat v.line ++ ": [".toList ++ v.code ++ "] ".toList ++ v.message)

def compact (f : Findings) : Text := f.violations.flatMap compactLine

/-! ## Reports -/

def ofJson (v : Json) : Text := Text.line v.toText

def render? (profile : Text) (f : Findings) : Format → Option Text
  | .text => some (text profile f)
  | .json => (ofFindings? profile f).map ofJson
  | .compact => some (compact f)

def renderSkipped? (profile : Text) (moduleRoot : Path) : Format → Option Text
  | .json => (ofSkipped? profile moduleRoot).map ofJson
  | _ =>
    some (Text.line ("clean-plus: module root ".toList ++ moduleRoot.text ++
      " not found; skipping (profile ".toList ++ profile ++ ")".toList))

/-- Without violations there is no compact line. -/
theorem compact_empty : compact Findings.empty = [] := rfl

end Report
end ModuleBoundary
