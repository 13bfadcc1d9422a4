/-
Where a text is cut.

A text is cut at the first place that fits, so what stands in front of that place must not fit
itself: `cut?_append_cons` and `cutLast?_append_cons` ask that the character is not there, and
`cutAt?_append` that the head matches nowhere in it.  In the other direction every place that
fits lies behind the cut (`length_le_of_not_mem`, `length_le_of_cutAt?`).
-/
import ModuleBoundary.Text.Basic

namespace ModuleBoundary
namespace Text

section Cutting

variable {α : Type} {c : α}

/-- What stands in front of the first `c` is not longer than what stands in front of another. -/
theorem length_le_of_not_mem {a b a' b' : List α} (h : c ∉ a)
    (heq : a ++ c :: b = a' ++ c :: b') : a.length ≤ a'.length := by
  refine Nat.le_of_not_lt fun hlt => ?_
  have hget := congrArg (·[a'.length]?) heq
  simp only [List.getElem?_append_left hlt,
    List.getElem?_append_right (Nat.le_refl _), Nat.sub_self, List.getElem?_cons_zero] at hget
  exact h (List.mem_of_getElem? hget)

/-- Where no `c` stands behind, no `c` is further to the right. -/
theorem length_le_of_not_mem_behind {d : α} {a b a' b' : List α} (h : c ∉ b)
    (heq : a ++ d :: b = a' ++ c :: b') : a'.length ≤ a.length := by
  refine Nat.le_of_not_lt fun hlt => ?_
  have hget := congrArg (·[a'.length]?) heq
  simp only [List.getElem?_append_right (Nat.le_of_lt hlt),
    List.getElem?_append_right (Nat.le_refl _), Nat.sub_self, List.getElem?_cons_zero] at hget
  rw [List.getElem?_cons, if_neg (by omega)] at hget
  exact h (List.mem_of_getElem? hget)

variable [DecidableEq α]

theorem cut?_append_cons {a : List α} (h : c ∉ a) (b : List α) :
    cut? c (a ++ c :: b) = some (a, b) := by
  have hfree : ∀ d ∈ a, (d != c) = true := by
    intro d hd
    rw [bne_iff_ne]
    intro heq
    exact h (heq ▸ hd)
  rw [cut?, List.dropWhile_append_of_pos hfree, List.takeWhile_append_of_pos hfree]
  simp

theorem not_mem_of_cut?_eq_none {s : List α} (h : cut? c s = none) : c ∉ s := by
  intro hc
  obtain ⟨a, b, rfl, ha⟩ := List.eq_append_cons_of_mem hc
  rw [cut?_append_cons ha] at h
  exact absurd h (by simp)

theorem cut?_eq_none {s : List α} (h : c ∉ s) : cut? c s = none := by
  cases hcut : cut? c s with
  | none => rfl
  | some r =>
    obtain ⟨hs, _⟩ := cut?_eq_some hcut
    rw [hs] at h
    exact absurd (by simp) h

theorem cutLast?_append_cons {b : List α} (h : c ∉ b) (a : List α) :
    cutLast? c (a ++ c :: b) = some (a, b) := by
  have hrev : (a ++ c :: b).reverse = b.reverse ++ c :: a.reverse := by simp
  have hfree : c ∉ b.reverse := fun hmem => h (List.mem_reverse.mp hmem)
  rw [cutLast?, hrev, cut?_append_cons hfree]
  simp

theorem cutLast?_eq_some {s a b : List α} (h : cutLast? c s = some (a, b)) :
    s = a ++ c :: b ∧ c ∉ b := by
  obtain ⟨⟨front, behind⟩, hcut, heq⟩ := Option.map_eq_some_iff.mp h
  obtain ⟨rfl, rfl⟩ := Prod.mk.inj heq
  obtain ⟨hs, hc⟩ := cut?_eq_some hcut
  refine ⟨?_, by simpa using hc⟩
  have hback := congrArg List.reverse hs
  simpa using hback

theorem not_mem_of_cutLast?_eq_none {s : List α} (h : cutLast? c s = none) : c ∉ s := by
  intro hc
  exact not_mem_of_cut?_eq_none (Option.map_eq_none_iff.mp h) (List.mem_reverse.mpr hc)

end Cutting

variable {head : Text → Option Text}

theorem cutAt?_eq_nil {s rest : Text} (h : head s = some rest) :
    cutAt? head s = some ([], rest) := by
  cases s with
  | nil => rw [cutAt?, h, Option.map_some]
  | cons c s => rw [cutAt?, h]

theorem cutAt?_eq_some {s a b : Text} (h : cutAt? head s = some (a, b)) :
    ∃ suffix, s = a ++ suffix ∧ head suffix = some b := by
  induction s generalizing a with
  | nil =>
    obtain ⟨rest, hrest, heq⟩ := Option.map_eq_some_iff.mp h
    obtain ⟨rfl, rfl⟩ := Prod.mk.inj heq
    exact ⟨[], rfl, hrest⟩
  | cons c s ih =>
    rw [cutAt?] at h
    cases hhead : head (c :: s) with
    | some rest =>
      rw [hhead] at h
      obtain ⟨rfl, rfl⟩ := Prod.mk.inj (Option.some.inj h)
      exact ⟨c :: s, rfl, hhead⟩
    | none =>
      rw [hhead] at h
      obtain ⟨⟨a', b'⟩, hcut, heq⟩ := Option.map_eq_some_iff.mp h
      obtain ⟨rfl, rfl⟩ := Prod.mk.inj heq
      obtain ⟨suffix, rfl, hsuffix⟩ := ih hcut
      exact ⟨suffix, rfl, hsuffix⟩

/-- No place in front of the cut fits. -/
theorem length_le_of_cutAt? {s a rest a' b : Text} (h : cutAt? head s = some (a, rest))
    (hs : s = a' ++ b) (hb : (head b).isSome = true) : a.length ≤ a'.length := by
  induction a' generalizing s a with
  | nil =>
    obtain ⟨r, hr⟩ := Option.isSome_iff_exists.mp hb
    rw [hs, List.nil_append, cutAt?_eq_nil hr] at h
    obtain ⟨rfl, _⟩ := Prod.mk.inj (Option.some.inj h)
    exact Nat.le_refl 0
  | cons c a' ih =>
    rw [hs, List.cons_append, cutAt?] at h
    cases hhead : head (c :: (a' ++ b)) with
    | some r =>
      rw [hhead] at h
      rw [← (Prod.mk.inj (Option.some.inj h)).1]
      exact Nat.zero_le _
    | none =>
      rw [hhead] at h
      obtain ⟨⟨front, r⟩, hcut, heq⟩ := Option.map_eq_some_iff.mp h
      obtain ⟨rfl, rfl⟩ := Prod.mk.inj heq
      exact Nat.succ_le_succ (ih hcut rfl)

/-- Without a cut no place fits. -/
theorem eq_none_of_cutAt? {s a b : Text} (h : cutAt? head s = none) (hs : s = a ++ b) :
    head b = none := by
  induction a generalizing s with
  | nil =>
    cases hb : head b with
    | none => rfl
    | some rest =>
      rw [hs, List.nil_append, cutAt?_eq_nil hb] at h
      exact absurd h (by simp)
  | cons c a ih =>
    rw [hs, List.cons_append, cutAt?] at h
    cases hhead : head (c :: (a ++ b)) with
    | some rest =>
      rw [hhead] at h
      exact absurd h (by simp)
    | none =>
      rw [hhead] at h
      exact ih (Option.map_eq_none_iff.mp h) rfl

theorem cutAt?_append {a s : Text}
    (h : ∀ front c behind, a = front ++ c :: behind → head (c :: (behind ++ s)) = none) :
    cutAt? head (a ++ s) = (cutAt? head s).map fun r => (a ++ r.1, r.2) := by
  induction a with
  | nil => cases hcut : cutAt? head s <;> simp [hcut]
  | cons c a ih =>
    have hrest := ih fun front d behind heq => h (c :: front) d behind (by rw [heq]; rfl)
    rw [List.cons_append, cutAt?, h [] c a rfl, hrest, Option.map_map]
    rfl

end Text
end ModuleBoundary
