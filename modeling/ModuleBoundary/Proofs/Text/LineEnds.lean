/-
Line feeds with and without carriage returns.

A line is read off the text up to the next line feed, and the carriage return in front of
that line feed belongs to the end of the line.  `lines_decodeLossy_withReturns` takes this
down to bytes of any kind: with a carriage return put in front of every line feed, they
are decoded to other text of the same lines.
-/
import ModuleBoundary.Proofs.Text.Decoding
import ModuleBoundary.Proofs.Text.Parts

namespace ModuleBoundary

namespace Text

/-! ## One line -/

theorem pieces_append_cons {a : Text} (ha : '\n' ∉ a) (rest : Text) :
    pieces (a ++ '\n' :: rest) = (a ++ ['\n']) :: pieces rest := by
  induction a with
  | nil => rfl
  | cons c a ih =>
    have hc : c ≠ '\n' := fun h => ha (h ▸ List.mem_cons_self)
    have hrest : '\n' ∉ a := fun h => ha (List.mem_cons_of_mem c h)
    rw [List.cons_append, pieces_cons, ih hrest, addToPieces, if_neg hc]
    rfl

theorem dropLineEnd_return (a : Text) : dropLineEnd (a ++ ['\r', '\n']) = a := by
  rw [dropLineEnd, List.reverse_append]
  exact List.reverse_reverse a

/-- The first line of a text ends at its first line feed. -/
theorem lines_append_cons_of_not_mem {a : Text} (ha : '\n' ∉ a) (rest : Text) :
    lines (a ++ '\n' :: rest) = dropLineEnd (a ++ ['\n']) :: lines rest := by
  rw [lines, pieces_append_cons ha, List.map_cons, lines]

theorem lines_append_feed {a : Text} (ha : '\n' ∉ a) (hr : '\r' ∉ a) (rest : Text) :
    lines (a ++ '\n' :: rest) = a :: lines rest := by
  rw [lines_append_cons_of_not_mem ha]
  rcases dropLineEnd_feed_cases a with h | h
  · rw [h]
  · rw [h] at hr
    exact absurd (by simp) hr

theorem lines_append_return {a : Text} (ha : '\n' ∉ a) (rest : Text) :
    lines (a ++ '\r' :: '\n' :: rest) = a :: lines rest := by
  have hmem : '\n' ∉ a ++ ['\r'] := by simp [ha]
  have hcut : a ++ '\r' :: '\n' :: rest = (a ++ ['\r']) ++ '\n' :: rest := by simp
  rw [hcut, lines_append_cons_of_not_mem hmem, List.append_assoc, List.singleton_append,
    dropLineEnd_return]

end Text

namespace Utf8

/-! ## Bytes -/

def withReturns (bytes : Bytes) : Bytes := bytes.flatMap fun b => if b = 0x0A then [0x0D, 0x0A] else [b]

theorem withReturns_append (a b : Bytes) : withReturns (a ++ b) = withReturns a ++ withReturns b :=
  List.flatMap_append

theorem withReturns_feed (rest : Bytes) :
    withReturns (0x0A :: rest) = 0x0D :: 0x0A :: withReturns rest := rfl

theorem withReturns_of_not_mem {bytes : Bytes} (h : 0x0A ∉ bytes) : withReturns bytes = bytes := by
  induction bytes with
  | nil => rfl
  | cons b bytes ih =>
    have hb : b ≠ 0x0A := fun hb => h (hb ▸ List.mem_cons_self)
    rw [withReturns, List.flatMap_cons, if_neg hb, ← withReturns,
      ih fun hmem => h (List.mem_cons_of_mem b hmem)]
    rfl

/-- Line by line: up to the next line feed the two texts are the same, and its end is no
part of a line. -/
theorem lines_decodeLossy_withReturns (bytes : Bytes) (h : 0x0D ∉ bytes) :
    Text.lines (decodeLossy (withReturns bytes)) = Text.lines (decodeLossy bytes) := by
  by_cases hfeed : 0x0A ∈ bytes
  · obtain ⟨a, rest, hcut, ha⟩ := List.eq_append_cons_of_mem hfeed
    have hfeedless : '\n' ∉ decodeLossy a :=
      not_mem_decodeLossy (by decide) (by decide) rfl ha
    have hreturnless : '\r' ∉ decodeLossy a :=
      not_mem_decodeLossy (by decide) (by decide) rfl fun hr =>
        h (hcut ▸ List.mem_append_left _ hr)
    have hrest : 0x0D ∉ rest := fun hr =>
      h (hcut ▸ List.mem_append_right a (List.mem_cons_of_mem _ hr))
    have hreturns : decodeLossy (withReturns (a ++ 0x0A :: rest)) =
        decodeLossy a ++ '\r' :: '\n' :: decodeLossy (withReturns rest) := by
      rw [withReturns_append, withReturns_feed, withReturns_of_not_mem ha,
        decodeLossy_append_cons a _ (by decide)]
      exact congrArg (decodeLossy a ++ '\r' :: ·) (decodeLossy_append_cons [] _ (by decide))
    have hfeeds : decodeLossy (a ++ 0x0A :: rest) =
        decodeLossy a ++ '\n' :: decodeLossy rest := decodeLossy_append_cons a rest (by decide)
    rw [hcut, hreturns, hfeeds, Text.lines_append_return hfeedless,
      Text.lines_append_feed hfeedless hreturnless, lines_decodeLossy_withReturns rest hrest]
  · rw [withReturns_of_not_mem hfeed]
termination_by bytes.length
decreasing_by
  rw [hcut, List.length_append, List.length_cons]
  omega

end Utf8
end ModuleBoundary
