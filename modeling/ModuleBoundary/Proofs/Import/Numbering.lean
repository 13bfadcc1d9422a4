/-
The line numbers of imports.

A target is found on one line and no line looks at another, so a source is read in parts.  The
bytes behind a line feed name what they name on their own, further down by the line feeds up
to there (`imports_append_cons`): bytes that are no text, or a statement that does not end,
reach no further than their line.
-/
import ModuleBoundary.Language
import ModuleBoundary.Proofs.Text.Lines

namespace ModuleBoundary

namespace Import

def down (k : Nat) (i : Import) : Import := ⟨i.target, i.line + k⟩

variable (targets : Text → List Text)

theorem ofLines_cons (line : Text) (lines : List Text) (first : Nat) :
    ofLines targets (line :: lines) first =
      (targets line).map (fun t => ⟨t, first⟩) ++ ofLines targets lines (first + 1) := by
  rw [ofLines, List.zipIdx_cons, List.flatMap_cons, ofLines]

theorem ofLines_add (lines : List Text) (first k : Nat) :
    ofLines targets lines (first + k) = (ofLines targets lines first).map (down k) := by
  induction lines generalizing first with
  | nil => rfl
  | cons line lines ih =>
    have hnext : first + k + 1 = first + 1 + k := by omega
    rw [ofLines_cons, ofLines_cons, hnext, ih, List.map_append, List.map_map]
    rfl

theorem ofText_append_cons (a b : Text) :
    ofText targets (a ++ '\n' :: b) =
      ofText targets (a ++ ['\n']) ++ (ofText targets b).map (down (1 + a.count '\n')) := by
  have hfirst : 1 + (a.count '\n' + 1) = 1 + (1 + a.count '\n') := by omega
  rw [ofText, Text.lines_append_cons, ofLines_append, Text.length_lines_concat, hfirst,
    ofLines_add, ofText, ofText]

/-! ## Lines with line feeds between them -/

/-- Nothing is found on an empty line, and a carriage return at the end of a line changes
nothing. -/
structure EndsFreely (targets : Text → List Text) : Prop where
  nil : targets [] = []
  concat : ∀ line, targets (line ++ ['\r']) = targets line

variable {targets}

/-- Lines that are joined are read one by one. -/
theorem ofLines_lines_join (h : EndsFreely targets) {lines : List Text}
    (hfeed : ∀ line ∈ lines, '\n' ∉ line) (first : Nat) :
    ofLines targets (Text.lines (Text.join ['\n'] lines)) first = ofLines targets lines first := by
  induction lines generalizing first with
  | nil => rfl
  | cons line lines ih =>
    have hline : '\n' ∉ line := hfeed line List.mem_cons_self
    have hrest := ih fun l hl => hfeed l (List.mem_cons_of_mem line hl)
    cases lines with
    | nil =>
      rw [Text.join, List.intercalate_singleton]
      by_cases hnil : line = []
      · rw [hnil, ofLines_cons, h.nil]
        rfl
      · rw [Text.lines_of_not_mem hnil hline]
    | cons next lines =>
      rw [Text.join, List.intercalate_cons_cons, ← Text.join, List.append_assoc,
        List.singleton_append]
      have htargets : targets (Text.dropLineEnd (line ++ ['\n'])) = targets line := by
        rcases Text.dropLineEnd_feed_cases line with heq | heq
        · rw [heq]
        · rw [← h.concat, ← heq]
      rw [Text.lines_append_cons_of_not_mem hline, ofLines_cons, ofLines_cons targets line, hrest,
        htargets]

end Import

namespace Language

/-- Reading is local to lines, for bytes of any kind. -/
theorem imports_append_cons (l : Language) (a b : Bytes) :
    l.imports (Utf8.decodeLossy (a ++ 0x0A :: b)) =
      l.imports (Utf8.decodeLossy (a ++ [0x0A])) ++
        (l.imports (Utf8.decodeLossy b)).map (Import.down (1 + a.count 0x0A)) := by
  have hfeed : Char.ofNat (0x0A : UInt8).toNat = '\n' := rfl
  have hcount : (Utf8.decodeLossy a).count '\n' = a.count 0x0A :=
    Utf8.count_decodeLossy (by decide) (by decide) rfl a
  rw [Utf8.decodeLossy_append_cons a b (by decide), Utf8.decodeLossy_append_cons a [] (by decide),
    hfeed, ← hcount]
  exact Import.ofText_append_cons l.targets (Utf8.decodeLossy a) (Utf8.decodeLossy b)

end Language
end ModuleBoundary
