/-
The parts that a text is cut into.

Whatever cuts a text at a character leaves that character out of the parts: an item has no
separator in it (`mem_splitOn`), and a line has no line feed (`feed_not_mem_of_mem_lines`).
In the other direction a joined text has the characters of its parts and of the separator
(`mem_join`).
-/
import ModuleBoundary.Text.Basic

namespace ModuleBoundary
namespace Text

/-! ## Items -/

theorem mem_splitOn {α : Type} [BEq α] [LawfulBEq α] {c : α} {s item : List α}
    (h : item ∈ s.splitOn c) : item <:+: s ∧ c ∉ item := by
  induction s generalizing item with
  | nil =>
    have hitem : item = [] := by simpa using h
    simp [hitem]
  | cons d s ih =>
    rw [List.splitOn_cons_eq_if_modifyHead] at h
    by_cases hd : (d == c) = true
    · rw [if_pos hd] at h
      rcases List.mem_cons.mp h with rfl | h
      · exact ⟨List.nil_infix, List.not_mem_nil⟩
      · exact ⟨(ih h).1.trans (List.suffix_cons d s).isInfix, (ih h).2⟩
    · rw [if_neg hd] at h
      cases hs : s.splitOn c with
      | nil => exact absurd hs (List.splitOn_ne_nil c s)
      | cons first more =>
        rw [hs, List.modifyHead_cons] at h
        rcases List.mem_cons.mp h with rfl | h
        · -- The first item goes on to the left, so it has to start where the text starts.
          have hwhole : [c].intercalate (first :: more) = s := hs ▸ List.intercalate_splitOn c
          have hfirst : first <+: s := by
            rw [← hwhole]
            cases more <;> simp [List.intercalate]
          have hdc : c ≠ d := by
            intro hcd
            exact hd (by simp [hcd])
          refine ⟨(List.cons_prefix_cons.mpr ⟨rfl, hfirst⟩).isInfix, ?_⟩
          simpa [hdc] using (ih (hs ▸ List.mem_cons_self)).2
        · have hitem := ih (hs ▸ List.mem_cons_of_mem first h)
          exact ⟨hitem.1.trans (List.suffix_cons d s).isInfix, hitem.2⟩

/-- What goes through a text from one separator to the next one, and puts another separator for
each, goes through the items. -/
theorem splitOn_of_append {α β : Type} [BEq α] [LawfulBEq α] [BEq β] [LawfulBEq β] {c : α} {d : β}
    {f : List α → List β} (happend : ∀ a rest, f (a ++ c :: rest) = f a ++ d :: f rest)
    (hfree : ∀ a, c ∉ a → d ∉ f a) (s : List α) : (f s).splitOn d = (s.splitOn c).map f := by
  by_cases hc : c ∈ s
  · obtain ⟨a, rest, hcut, ha⟩ := List.eq_append_cons_of_mem hc
    rw [hcut, happend, List.splitOn_append_cons_self, List.splitOn_append_cons_self,
      List.map_append, splitOn_of_append happend hfree rest,
      List.splitOn_eq_singleton (hfree a ha), List.splitOn_eq_singleton ha, List.map_singleton]
  · rw [List.splitOn_eq_singleton (hfree s hc), List.splitOn_eq_singleton hc, List.map_singleton]
termination_by s.length
decreasing_by
  rw [hcut, List.length_append, List.length_cons]
  omega

theorem mem_join {α : Type} {c : α} {sep : List α} {parts : List (List α)}
    (h : c ∈ join sep parts) : c ∈ sep ∨ ∃ part ∈ parts, c ∈ part := by
  induction parts with
  | nil => exact absurd h List.not_mem_nil
  | cons part parts ih =>
    cases parts with
    | nil => exact Or.inr ⟨part, List.mem_cons_self, by simpa [join] using h⟩
    | cons next parts =>
      rw [join, List.intercalate_cons_cons, ← join, List.mem_append, List.mem_append] at h
      rcases h with (h | h) | h
      · exact Or.inr ⟨part, List.mem_cons_self, h⟩
      · exact Or.inl h
      · exact (ih h).imp_right fun ⟨p, hp, hc⟩ => ⟨p, List.mem_cons_of_mem part hp, hc⟩

/-! ## Lines -/

/-- A piece has its line feed, if it has one, at its end. -/
theorem eq_of_mem_pieces {s p : Text} (h : p ∈ pieces s) :
    ∃ a, '\n' ∉ a ∧ (p = a ∨ p = a ++ ['\n']) := by
  induction s generalizing p with
  | nil => exact absurd h List.not_mem_nil
  | cons c s ih =>
    rw [pieces_cons] at h
    unfold addToPieces at h
    by_cases hc : c = '\n'
    · rw [if_pos hc] at h
      rcases List.mem_cons.mp h with rfl | h
      · exact ⟨[], List.not_mem_nil, Or.inr rfl⟩
      · exact ih h
    · have hfree : ∀ a, '\n' ∉ a → '\n' ∉ c :: a := by
        intro a ha hmem
        rcases List.mem_cons.mp hmem with heq | hmem
        · exact hc heq.symm
        · exact ha hmem
      rw [if_neg hc] at h
      cases hs : pieces s with
      | nil =>
        rw [hs, List.mem_singleton] at h
        exact ⟨[c], hfree [] List.not_mem_nil, Or.inl h⟩
      | cons q qs =>
        rw [hs] at h
        rcases List.mem_cons.mp h with rfl | h
        · obtain ⟨a, ha, rfl | rfl⟩ := ih (hs ▸ List.mem_cons_self)
          · exact ⟨c :: q, hfree q ha, Or.inl rfl⟩
          · exact ⟨c :: a, hfree a ha, Or.inr rfl⟩
        · exact ih (hs ▸ List.mem_cons_of_mem q h)

theorem isPrefix_dropLineEnd (p : Text) : dropLineEnd p <+: p := by
  rw [dropLineEnd]
  split
  · next r h =>
    refine ⟨['\r', '\n'], ?_⟩
    rw [← List.reverse_reverse p, h]
    simp
  · next r _ h =>
    refine ⟨['\n'], ?_⟩
    rw [← List.reverse_reverse p, h]
    simp
  · exact List.prefix_rfl

/-- In front of a line feed at most a carriage return is dropped. -/
theorem dropLineEnd_feed_cases (a : Text) :
    dropLineEnd (a ++ ['\n']) = a ∨ a = dropLineEnd (a ++ ['\n']) ++ ['\r'] := by
  have hrev : (a ++ ['\n']).reverse = '\n' :: a.reverse := by simp
  rw [dropLineEnd, hrev]
  split
  · next r h =>
    right
    rw [← List.reverse_reverse a, (List.cons.inj h).2, List.reverse_cons]
  · next r _ h =>
    left
    rw [← (List.cons.inj h).2, List.reverse_reverse]
  · next hne => exact absurd rfl (hne a.reverse)

theorem isPrefix_dropLineEnd_feed (a : Text) : dropLineEnd (a ++ ['\n']) <+: a := by
  rcases dropLineEnd_feed_cases a with h | h
  · exact ⟨[], by rw [h, List.append_nil]⟩
  · exact ⟨['\r'], h.symm⟩

/-- A line has no line feed in it. -/
theorem feed_not_mem_of_mem_lines {s line : Text} (h : line ∈ lines s) : '\n' ∉ line := by
  obtain ⟨p, hp, rfl⟩ := List.mem_map.mp h
  obtain ⟨a, ha, rfl | rfl⟩ := eq_of_mem_pieces hp
  · exact fun hmem => ha ((isPrefix_dropLineEnd _).subset hmem)
  · exact fun hmem => ha ((isPrefix_dropLineEnd_feed a).subset hmem)

end Text
end ModuleBoundary
