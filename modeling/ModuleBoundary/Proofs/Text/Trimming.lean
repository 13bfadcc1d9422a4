/-
Blanks at the ends of a text.

Trimming takes blanks away as far as the first character that is none.  So blanks can be put
on either side of a text without changing what is left (`trim_append_left`,
`trim_append_right`), and a text whose two ends are no blanks is left alone (`IsSolid.trim_eq`).
-/
import ModuleBoundary.Text.Basic

namespace ModuleBoundary
namespace Text

/-! ## Blanks -/

structure Gap where
  text : Text
  blank : ∀ c ∈ text, isBlank c = true := by exact List.all_eq_true.mp (by decide)

def Gap.spaces (n : Nat) : Gap where
  text := List.replicate n ' '
  blank := by
    intro c hc
    rw [List.eq_of_mem_replicate hc]
    decide

theorem Gap.not_mem (gap : Gap) {c : Char} (hc : isBlank c = false) : c ∉ gap.text := by
  intro hmem
  rw [gap.blank c hmem] at hc
  exact absurd hc (by simp)

variable {gap : Text}

theorem dropBlanks_append (h : ∀ c ∈ gap, isBlank c = true) (s : Text) :
    dropBlanks (gap ++ s) = dropBlanks s :=
  List.dropWhile_append_of_pos h

theorem dropBlanks_eq_nil (h : ∀ c ∈ gap, isBlank c = true) : dropBlanks gap = [] := by
  rw [← List.append_nil gap, dropBlanks_append h]
  rfl

theorem dropBlanks_cons {c : Char} (hc : isBlank c = false) (s : Text) :
    dropBlanks (c :: s) = c :: s :=
  List.dropWhile_cons_of_neg (by simp [hc])

theorem exists_gap (s : Text) : ∃ gap : Gap, s = gap.text ++ dropBlanks s :=
  ⟨⟨s.takeWhile isBlank, fun c hc => List.all_eq_true.mp List.all_takeWhile c hc⟩,
    List.takeWhile_append_dropWhile.symm⟩

theorem dropBlanks_gap (gap : Gap) {c : Char} (hc : isBlank c = false) (rest : Text) :
    dropBlanks (gap.text ++ c :: rest) = c :: rest := by
  rw [dropBlanks_append gap.blank, dropBlanks_cons hc]

theorem trimEnd_append (h : ∀ c ∈ gap, isBlank c = true) (s : Text) :
    trimEnd (s ++ gap) = trimEnd s := by
  have hrev : ∀ c ∈ gap.reverse, isBlank c = true := fun c hc => h c (List.mem_reverse.mp hc)
  rw [trimEnd, List.reverse_append, dropBlanks_append hrev, trimEnd]

/-- Nothing in front of a character that is no blank is an end. -/
theorem trimEnd_append_cons {c : Char} (hc : isBlank c = false) (a b : Text) :
    trimEnd (a ++ c :: b) = a ++ c :: trimEnd b := by
  have hrev : (a ++ c :: b).reverse = b.reverse ++ c :: a.reverse := by simp
  have hstop : dropBlanks (c :: a.reverse) = c :: a.reverse := dropBlanks_cons hc _
  rw [trimEnd, hrev, dropBlanks, List.dropWhile_append, ← dropBlanks, ← dropBlanks, hstop, trimEnd]
  split
  · next hnil =>
    rw [List.isEmpty_iff.mp hnil]
    simp
  · simp

theorem trim_append_left (h : ∀ c ∈ gap, isBlank c = true) (s : Text) :
    trim (gap ++ s) = trim s := by
  rw [trim, dropBlanks_append h, trim]

theorem trim_append_right (h : ∀ c ∈ gap, isBlank c = true) (s : Text) :
    trim (s ++ gap) = trim s := by
  rw [trim, trim, dropBlanks, List.dropWhile_append, ← dropBlanks, ← dropBlanks]
  split
  · next hnil => rw [List.isEmpty_iff.mp hnil, dropBlanks_eq_nil h]
  · exact trimEnd_append h _

/-! ## Texts with nothing to trim -/

/-- The text begins and ends with characters that are no blanks. -/
structure IsSolid (s : Text) : Prop where
  first : ∃ c rest, s = c :: rest ∧ isBlank c = false
  last : ∃ front c, s = front ++ [c] ∧ isBlank c = false

theorem IsSolid.ne_nil {s : Text} (h : IsSolid s) : s ≠ [] := by
  obtain ⟨c, rest, hs, _⟩ := h.first
  rw [hs]
  exact List.cons_ne_nil c rest

theorem isSolid_of_forall {s : Text} (hne : s ≠ []) (h : ∀ c ∈ s, isBlank c = false) :
    IsSolid s := by
  constructor
  · obtain ⟨c, rest, hs⟩ := List.exists_cons_of_ne_nil hne
    exact ⟨c, rest, hs, h c (hs ▸ List.mem_cons_self)⟩
  · exact ⟨s.dropLast, s.getLast hne, (List.dropLast_concat_getLast hne).symm,
      h _ (List.getLast_mem hne)⟩

/-- Only the ends count, whatever stands between them. -/
theorem IsSolid.append {a b : Text} (ha : IsSolid a) (hb : IsSolid b) (between : Text) :
    IsSolid (a ++ (between ++ b)) := by
  obtain ⟨c, rest, hrest, hc⟩ := ha.first
  obtain ⟨front, d, hfront, hd⟩ := hb.last
  refine ⟨⟨c, rest ++ (between ++ b), ?_, hc⟩, ⟨a ++ (between ++ front), d, ?_, hd⟩⟩
  · rw [hrest, List.cons_append]
  · rw [hfront]
    simp

theorem IsSolid.dropBlanks_append_eq {s : Text} (h : IsSolid s) (behind : Text) :
    dropBlanks (s ++ behind) = s ++ behind := by
  obtain ⟨c, rest, hs, hc⟩ := h.first
  rw [hs, List.cons_append, dropBlanks_cons hc]

theorem IsSolid.trimEnd_eq {s : Text} (h : IsSolid s) : trimEnd s = s := by
  obtain ⟨front, c, hs, hc⟩ := h.last
  rw [hs, trimEnd_append_cons hc]
  rfl

theorem IsSolid.trim_eq {s : Text} (h : IsSolid s) : trim s = s := by
  have hfirst := h.dropBlanks_append_eq []
  rw [List.append_nil] at hfirst
  rw [trim, hfirst, h.trimEnd_eq]

/-- A first character that is no blank keeps a text from being trimmed away. -/
theorem isSolid_trimEnd_cons {c : Char} (hc : isBlank c = false) (s : Text) :
    IsSolid (trimEnd (c :: s)) := by
  have hcons : trimEnd (c :: s) = c :: trimEnd s := trimEnd_append_cons hc [] s
  refine ⟨⟨c, trimEnd s, hcons, hc⟩, ?_⟩
  cases hrest : dropBlanks (c :: s).reverse with
  | nil =>
    rw [trimEnd, hrest] at hcons
    exact absurd hcons (by simp)
  | cons d behind =>
    have hd := List.head?_dropWhile_not isBlank (c :: s).reverse
    rw [← dropBlanks, hrest] at hd
    refine ⟨behind.reverse, d, ?_, by simpa using hd⟩
    rw [trimEnd, hrest, List.reverse_cons]

/-- What is left of a text has nothing to trim. -/
theorem trim_cases (s : Text) : trim s = [] ∨ IsSolid (trim s) := by
  cases hrest : dropBlanks s with
  | nil =>
    rw [trim, hrest]
    exact Or.inl rfl
  | cons c rest =>
    have hc := List.head?_dropWhile_not isBlank s
    rw [← dropBlanks, hrest] at hc
    rw [trim, hrest]
    exact Or.inr (isSolid_trimEnd_cons (by simpa using hc) rest)

end Text
end ModuleBoundary
