/-
Lines of texts that are put together.

A line feed ends its piece whatever stands in front of it, so a text is cut into lines in
parts (`lines_append_cons`), and a part that ends with a line feed has one line for each of its
line feeds (`length_lines_concat`).  Both carry over to bytes of any kind, because no line feed
of a text comes from anything but a byte of its own (`count_decodeLossy`).
-/
import ModuleBoundary.Proofs.Text.LineEnds

namespace ModuleBoundary

namespace Text

/-! ## Pieces -/

theorem pieces_ne_nil {s : Text} (h : s ≠ []) : pieces s ≠ [] := by
  intro hnil
  apply h
  rw [← flatten_pieces s, hnil]
  rfl

theorem addToPieces_append (c : Char) {ps : List Text} (h : ps ≠ []) (qs : List Text) :
    addToPieces c (ps ++ qs) = addToPieces c ps ++ qs := by
  unfold addToPieces
  by_cases hc : c = '\n'
  · rw [if_pos hc, if_pos hc]
    rfl
  · rw [if_neg hc, if_neg hc]
    cases ps with
    | nil => exact absurd rfl h
    | cons p ps => rfl

theorem length_addToPieces (c : Char) {ps : List Text} (h : ps ≠ []) :
    (addToPieces c ps).length = ps.length + if c = '\n' then 1 else 0 := by
  unfold addToPieces
  by_cases hc : c = '\n'
  · rw [if_pos hc, if_pos hc]
    rfl
  · rw [if_neg hc, if_neg hc]
    cases ps with
    | nil => exact absurd rfl h
    | cons p ps => rfl

theorem pieces_append_feed (a b : Text) :
    pieces (a ++ '\n' :: b) = pieces (a ++ ['\n']) ++ pieces b := by
  induction a with
  | nil => rfl
  | cons c a ih =>
    have hne : pieces (a ++ ['\n']) ≠ [] := pieces_ne_nil (by simp)
    rw [List.cons_append, List.cons_append, pieces_cons, pieces_cons, ih,
      addToPieces_append c hne]

theorem length_pieces_concat (a : Text) :
    (pieces (a ++ ['\n'])).length = a.count '\n' + 1 := by
  induction a with
  | nil => rfl
  | cons c a ih =>
    have hne : pieces (a ++ ['\n']) ≠ [] := pieces_ne_nil (by simp)
    rw [List.cons_append, pieces_cons, length_addToPieces c hne, ih, List.count_cons]
    by_cases hc : c = '\n'
    · rw [if_pos hc, if_pos (by simpa using hc)]
    · rw [if_neg hc, if_neg (by simpa using hc)]

theorem pieces_of_not_mem {s : Text} (hne : s ≠ []) (h : '\n' ∉ s) : pieces s = [s] := by
  induction s with
  | nil => exact absurd rfl hne
  | cons c s ih =>
    have hc : c ≠ '\n' := fun hc => h (hc ▸ List.mem_cons_self)
    have hs : '\n' ∉ s := fun hs => h (List.mem_cons_of_mem c hs)
    rw [pieces_cons]
    by_cases hnil : s = []
    · rw [hnil, pieces, List.foldr_nil, addToPieces, if_neg hc]
    · rw [ih hnil hs, addToPieces, if_neg hc]

/-! ## Lines -/

/-- The lines behind a line feed are those of the text behind it. -/
theorem lines_append_cons (a b : Text) :
    lines (a ++ '\n' :: b) = lines (a ++ ['\n']) ++ lines b := by
  rw [lines, pieces_append_feed, List.map_append, lines, lines]

theorem length_lines_concat (a : Text) : (lines (a ++ ['\n'])).length = a.count '\n' + 1 := by
  rw [lines, List.length_map, length_pieces_concat]

theorem dropLineEnd_of_not_mem {s : Text} (h : '\n' ∉ s) : dropLineEnd s = s := by
  unfold dropLineEnd
  split
  · next r hr => exact absurd (List.mem_reverse.mp (hr ▸ List.mem_cons_self)) h
  · next r _ hr => exact absurd (List.mem_reverse.mp (hr ▸ List.mem_cons_self)) h
  · rfl

theorem lines_of_not_mem {s : Text} (hne : s ≠ []) (h : '\n' ∉ s) : lines s = [s] := by
  rw [lines, pieces_of_not_mem hne h, List.map_singleton, dropLineEnd_of_not_mem h]

end Text

namespace Utf8

/-- An ASCII character stands in the text as often as its byte among the bytes. -/
theorem count_decodeLossy {b : UInt8} {c : Char} (hc : c.toNat < 0x80) (hnul : c.toNat ≠ 0)
    (hb : b.toNat = c.toNat) (bytes : Bytes) : (decodeLossy bytes).count c = bytes.count b := by
  by_cases hmem : b ∈ bytes
  · obtain ⟨a, rest, hcut, ha⟩ := List.eq_append_cons_of_mem hmem
    have hchar : Char.ofNat b.toNat = c := by rw [hb, Char.ofNat_toNat]
    have hfront : (decodeLossy a).count c = 0 :=
      List.count_eq_zero.mpr (not_mem_decodeLossy hc hnul hb ha)
    have hrest := count_decodeLossy hc hnul hb rest
    rw [hcut, decodeLossy_append_cons a rest (by omega), hchar, List.count_append,
      List.count_append, List.count_cons_self, List.count_cons_self, hfront, hrest,
      List.count_eq_zero.mpr ha]
  · rw [List.count_eq_zero.mpr hmem, List.count_eq_zero.mpr (not_mem_decodeLossy hc hnul hb hmem)]
termination_by bytes.length
decreasing_by
  rw [hcut, List.length_append, List.length_cons]
  omega

end Utf8
end ModuleBoundary
