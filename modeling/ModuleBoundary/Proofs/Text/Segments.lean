/-
Segments between separators.

Looking for `/name/` in a path and looking for `name` among its segments come to the same,
except at the two ends: what is found has a separator on each side, so it is neither the first
segment nor the last one (`isInfix_joined_iff`).  A text that is written on goes on with its last
segment (`exists_splitOn_append`).
-/
import Mathlib.Data.List.Infix
import ModuleBoundary.Proofs.Text.Parts

namespace ModuleBoundary
namespace Text

variable {α : Type}

/-- What has more on each side of it in a list is found between the first and the last. -/
theorem isInfix_tail_dropLast_iff {l m : List α} (hm : m ≠ []) :
    m <:+: l.tail.dropLast ↔ ∃ a b, a ≠ [] ∧ b ≠ [] ∧ l = a ++ (m ++ b) := by
  constructor
  · intro h
    obtain ⟨a, b, hcut⟩ := h
    cases l with
    | nil => exact absurd hcut (by simp [hm])
    | cons d l =>
      have hne : l ≠ [] := by
        intro hnil
        rw [hnil] at hcut
        exact absurd hcut (by simp [hm])
      have hl : a ++ (m ++ (b ++ [l.getLast hne])) = l := by
        rw [← List.append_assoc, ← List.append_assoc, hcut]
        exact List.dropLast_concat_getLast hne
      exact ⟨d :: a, b ++ [l.getLast hne], by simp, by simp, congrArg (d :: ·) hl.symm⟩
  · intro h
    obtain ⟨a, b, ha, hb, hl⟩ := h
    obtain ⟨d, a, hda⟩ := List.exists_cons_of_ne_nil ha
    rw [hl, hda, List.cons_append, List.tail_cons, List.dropLast_append_of_ne_nil (by simp [hm]),
      List.dropLast_append_of_ne_nil hb, ← List.append_assoc]
    exact List.infix_append a m b.dropLast

/-- Neither the first nor the last of a list is something with more on each side of it. -/
theorem mem_tail_dropLast_iff {l : List α} {x : α} :
    x ∈ l.tail.dropLast ↔ ∃ a b, a ≠ [] ∧ b ≠ [] ∧ l = a ++ x :: b := by
  rw [← List.singleton_infix_iff, isInfix_tail_dropLast_iff (List.cons_ne_nil x [])]
  rfl

/-- Seen from two neighbours in the list, the first of which it is not: it stands in front of them,
is the second of them, or stands behind. -/
theorem mem_tail_dropLast_append_iff {before behind : List α} {x y z : α} (h : x ≠ y) :
    x ∈ (before ++ y :: z :: behind).tail.dropLast ↔
      x ∈ before.tail ∨ (x = z ∧ behind ≠ []) ∨ x ∈ behind.dropLast := by
  have hbehind : x ∈ (z :: behind).dropLast ↔ (x = z ∧ behind ≠ []) ∨ x ∈ behind.dropLast := by
    cases behind <;> simp
  rw [← hbehind]
  cases before with
  | nil => simp
  | cons d before => simp [List.dropLast_append_of_ne_nil, h]

/-- Texts with separators between them are found between two separators where they are segments
that follow each other and have segments on their two sides. -/
theorem isInfix_joined_iff {c : Char} {parts : List Text} {s : Text} (hne : parts ≠ [])
    (h : ∀ part ∈ parts, c ∉ part) :
    (c :: (join [c] parts ++ [c])) <:+: s ↔ parts <:+: (s.splitOn c).tail.dropLast := by
  have hparts : (join [c] parts).splitOn c = parts := List.splitOn_intercalate c h hne
  rw [isInfix_tail_dropLast_iff hne]
  constructor
  · intro hpart
    obtain ⟨a, b, hs⟩ := hpart
    refine ⟨a.splitOn c, b.splitOn c, List.splitOn_ne_nil _ _, List.splitOn_ne_nil _ _, ?_⟩
    have hcut : s = a ++ c :: (join [c] parts ++ c :: b) := by
      rw [← hs]
      simp
    rw [hcut, List.splitOn_append_cons_self, List.splitOn_append_cons_self, hparts]
  · intro hmem
    obtain ⟨a, b, ha, hb, hsegments⟩ := hmem
    have hfree : ∀ segment ∈ s.splitOn c, c ∉ segment := fun _ hs => (mem_splitOn hs).2
    rw [hsegments] at hfree
    have ha' := List.splitOn_intercalate c (fun segment hs => hfree segment (by simp [hs])) ha
    have hb' := List.splitOn_intercalate c (fun segment hs => hfree segment (by simp [hs])) hb
    -- The two texts have the same segments, and joining these gives either of them.
    have hsame : s.splitOn c =
        (join [c] a ++ c :: (join [c] parts ++ c :: join [c] b)).splitOn c := by
      rw [hsegments, List.splitOn_append_cons_self, List.splitOn_append_cons_self, hparts, join, join,
        ha', hb']
    have hjoined := congrArg (List.intercalate [c]) hsame
    rw [List.intercalate_splitOn, List.intercalate_splitOn] at hjoined
    refine ⟨join [c] a, join [c] b, ?_⟩
    rw [hjoined]
    simp

/-- A text is found between two separators where it is a segment that has segments on its two
sides. -/
theorem isInfix_between_iff {c : Char} {part s : Text} (h : c ∉ part) :
    (c :: (part ++ [c])) <:+: s ↔ part ∈ (s.splitOn c).tail.dropLast := by
  have hone : join [c] [part] = part := by simp [join]
  have hjoined := isInfix_joined_iff (s := s) (List.cons_ne_nil part [])
    fun q hq => List.mem_singleton.mp hq ▸ h
  rwa [hone, List.singleton_infix_iff] at hjoined

/-- The last segment of a text is what stands behind its last separator. -/
theorem exists_lastSegment (c : Char) (s : Text) :
    ∃ last, c ∉ last ∧ (s = last ∨ ∃ front, s = front ++ c :: last) := by
  by_cases hc : c ∈ s
  · obtain ⟨a, b, hcut, ha⟩ := List.eq_append_cons_of_mem (List.mem_reverse.mpr hc)
    refine ⟨a.reverse, fun hmem => ha (List.mem_reverse.mp hmem), Or.inr ⟨b.reverse, ?_⟩⟩
    rw [← List.reverse_reverse s, hcut]
    simp
  · exact ⟨s, hc, Or.inl rfl⟩

/-- What is written behind a text goes on with its last segment.  That one is empty where the
text is empty or ends with a separator. -/
theorem exists_splitOn_append {c : Char} {part : Text} (hpart : c ∉ part) (s : Text) :
    ∃ before last, (s ++ part).splitOn c = before ++ [last ++ part] ∧
      (last = [] ↔ ∀ d, s.getLast? = some d → d = c) := by
  obtain ⟨last, hlast, hs⟩ := exists_lastSegment c s
  have hjoined : c ∉ last ++ part := by
    rw [List.mem_append, not_or]
    exact ⟨hlast, hpart⟩
  have hempty : (∀ d, last.getLast? = some d → d = c) → last = [] := by
    intro h
    cases hend : last.getLast? with
    | none => exact List.getLast?_eq_none_iff.mp hend
    | some d => exact absurd (List.mem_of_getLast? hend) (h d hend ▸ hlast)
  rcases hs with hs | ⟨front, hs⟩
  · refine ⟨[], last, ?_, ?_, ?_⟩
    · rw [hs, List.splitOn_eq_singleton hjoined, List.nil_append]
    · intro hnil d hd
      rw [hs, hnil] at hd
      exact absurd hd (by simp)
    · rw [hs]
      exact hempty
  · have hend : s.getLast? = some (last.getLast?.getD c) := by
      rw [hs, List.getLast?_append, List.getLast?_cons, Option.some_or]
    refine ⟨front.splitOn c, last, ?_, ?_, ?_⟩
    · rw [hs, List.append_assoc, List.cons_append, List.splitOn_append_cons_self,
        List.splitOn_eq_singleton hjoined]
    · intro hnil d hd
      rw [hend, hnil] at hd
      exact (Option.some.inj hd).symm
    · intro h
      refine hempty fun d hd => h d ?_
      rw [hend, hd, Option.getD_some]

end Text
end ModuleBoundary
