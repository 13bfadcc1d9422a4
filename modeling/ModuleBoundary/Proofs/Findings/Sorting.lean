/-
Sorting findings.

Sorting is stable, so what it makes of a list depends on two things only: which
elements there are, and in which order those stand that the sort cannot tell apart.
`mergeSort_congr` says it for any order: lists in which every class of tied elements
reads the same are sorted to the same list.  Two violations are tied if their files
have the same components and their lines are the same (`tied_iff`).  So sorted findings are
the one list that is in order and reads the same on every line of every file, and the laws of
sorting follow from that (`sort_stable`).
-/
import ModuleBoundary.Violation

namespace ModuleBoundary
namespace Sorting

variable {α : Type} {le : α → α → Bool}

def tied (le : α → α → Bool) (a b : α) : Bool := le a b && le b a

/-- Sorting keeps the order of elements that are pairwise in order, whatever stands
between them. -/
theorem filter_mergeSort (htrans : ∀ a b c, le a b → le b c → le a c)
    (htotal : ∀ a b, le a b || le b a) {p : α → Bool} (hp : ∀ a b, p a → p b → le a b)
    (l : List α) : (l.mergeSort le).filter p = l.filter p := by
  have hordered : (l.filter p).Pairwise (fun a b => le a b) := by
    refine List.pairwise_of_forall_mem_list fun a ha b hb => ?_
    exact hp a b (List.mem_filter.mp ha).2 (List.mem_filter.mp hb).2
  have hsub : (l.filter p).Sublist (l.mergeSort le) :=
    List.sublist_mergeSort htrans htotal hordered List.filter_sublist
  have hfilter : (l.filter p).Sublist ((l.mergeSort le).filter p) := by
    have h := hsub.filter p
    rwa [List.filter_filter, List.filter_congr (q := p) (by simp)] at h
  have hlength : (l.filter p).length = ((l.mergeSort le).filter p).length :=
    ((List.mergeSort_perm l le).filter p).length_eq.symm
  exact (hfilter.eq_of_length hlength).symm

/-- Ordered lists in which every class of tied elements reads the same are equal. -/
theorem eq_of_filter_tied {xs ys : List α} (hrefl : ∀ a, le a a)
    (hx : xs.Pairwise fun a b => le a b) (hy : ys.Pairwise fun a b => le a b)
    (h : ∀ a, xs.filter (tied le a) = ys.filter (tied le a)) : xs = ys := by
  have hself : ∀ a, tied le a a = true := fun a => by simp [tied, hrefl]
  induction xs generalizing ys with
  | nil =>
    cases ys with
    | nil => rfl
    | cons b ys => exact absurd (h b) (by simp [hself])
  | cons a xs ih =>
    cases ys with
    | nil => exact absurd (h a) (by simp [hself])
    | cons b ys =>
      have hab : le a b = true := by
        have hb : b ∈ (a :: xs).filter (tied le b) := h b ▸ by simp [hself]
        rcases List.mem_cons.mp (List.mem_filter.mp hb).1 with rfl | hmem
        · exact hrefl b
        · exact List.rel_of_pairwise_cons hx hmem
      have hba : le b a = true := by
        have ha : a ∈ (b :: ys).filter (tied le a) := h a ▸ by simp [hself]
        rcases List.mem_cons.mp (List.mem_filter.mp ha).1 with rfl | hmem
        · exact hrefl a
        · exact List.rel_of_pairwise_cons hy hmem
      -- The two heads are tied, so they lead the same class, and are equal.
      have hheads := h a
      rw [List.filter_cons_of_pos (hself a), List.filter_cons_of_pos (by simp [tied, hab, hba])]
        at hheads
      obtain ⟨rfl, -⟩ := List.cons.inj hheads
      have htails : ∀ c, xs.filter (tied le c) = ys.filter (tied le c) := by
        intro c
        have hc := h c
        rw [List.filter_cons, List.filter_cons] at hc
        split at hc
        · exact (List.cons.inj hc).2
        · exact hc
      rw [ih (List.pairwise_cons.mp hx).2 (List.pairwise_cons.mp hy).2 htails]

theorem le_of_tied (htrans : ∀ a b c, le a b → le b c → le a c) {a b c : α}
    (hab : tied le a b = true) (hac : tied le a c = true) : le b c = true := by
  simp only [tied, Bool.and_eq_true] at hab hac
  exact htrans b a c hab.2 hac.1

/-- Sorting keeps every class of tied elements as it reads. -/
theorem filter_tied_mergeSort (htrans : ∀ a b c, le a b → le b c → le a c)
    (htotal : ∀ a b, le a b || le b a) (l : List α) (a : α) :
    (l.mergeSort le).filter (tied le a) = l.filter (tied le a) :=
  filter_mergeSort htrans htotal (fun _ _ => le_of_tied htrans) l

/-- What sorting makes of a list is decided by its classes of tied elements. -/
theorem mergeSort_congr (htrans : ∀ a b c, le a b → le b c → le a c)
    (htotal : ∀ a b, le a b || le b a) {xs ys : List α}
    (h : ∀ a, xs.filter (tied le a) = ys.filter (tied le a)) :
    xs.mergeSort le = ys.mergeSort le := by
  have hrefl : ∀ a, le a a = true := fun a => by simpa using htotal a a
  refine eq_of_filter_tied hrefl (List.pairwise_mergeSort htrans htotal xs)
    (List.pairwise_mergeSort htrans htotal ys) fun a => ?_
  rw [filter_tied_mergeSort htrans htotal, filter_tied_mergeSort htrans htotal, h a]

/-- Choosing from a sorted list is sorting what is chosen. -/
theorem mergeSort_filter (htrans : ∀ a b c, le a b → le b c → le a c)
    (htotal : ∀ a b, le a b || le b a) (p : α → Bool) (l : List α) :
    (l.mergeSort le).filter p = (l.filter p).mergeSort le := by
  have hrefl : ∀ a, le a a = true := fun a => by simpa using htotal a a
  have hsorted : ((l.mergeSort le).filter p).Pairwise fun a b => le a b :=
    (List.pairwise_mergeSort htrans htotal l).filter p
  refine eq_of_filter_tied hrefl hsorted (List.pairwise_mergeSort htrans htotal _) fun a => ?_
  have hcomm : ∀ xs : List α,
      (xs.filter p).filter (tied le a) = (xs.filter (tied le a)).filter p := by
    intro xs
    simp only [List.filter_filter, Bool.and_comm]
  rw [hcomm, filter_tied_mergeSort htrans htotal, filter_tied_mergeSort htrans htotal, hcomm]

end Sorting

namespace Violation

theorem le_iff {a b : Violation} :
    a.le b = true ↔ a.file.key < b.file.key ∨ a.file.key = b.file.key ∧ a.line ≤ b.line := by
  simp [le]

theorem le_trans (a b c : Violation) (hab : a.le b = true) (hbc : b.le c = true) :
    a.le c = true := by
  rw [le_iff] at hab hbc ⊢
  rcases hab with hab | ⟨hab, hlab⟩
  · rcases hbc with hbc | ⟨hbc, _⟩
    · exact Or.inl (List.lt_trans hab hbc)
    · exact Or.inl (hbc ▸ hab)
  · rcases hbc with hbc | ⟨hbc, hlbc⟩
    · exact Or.inl (hab ▸ hbc)
    · exact Or.inr ⟨hab.trans hbc, Nat.le_trans hlab hlbc⟩

theorem le_total (a b : Violation) : (a.le b || b.le a) = true := by
  rw [Bool.or_eq_true, le_iff, le_iff]
  rcases Std.lt_trichotomy a.file.key b.file.key with h | h | h
  · exact Or.inl (Or.inl h)
  · rcases Nat.le_total a.line b.line with hl | hl
    · exact Or.inl (Or.inr ⟨h, hl⟩)
    · exact Or.inr (Or.inr ⟨h.symm, hl⟩)
  · exact Or.inr (Or.inl h)

/-- Violations are tied if they name one line of one file, whatever its spelling. -/
theorem tied_iff {a b : Violation} :
    Sorting.tied le a b = true ↔
      a.file.components = b.file.components ∧ a.line = b.line := by
  rw [Sorting.tied, Bool.and_eq_true, le_iff, le_iff, ← Path.key_eq_iff]
  constructor
  · rintro ⟨hab | ⟨hk, hab⟩, hba | ⟨hk', hba⟩⟩
    · exact absurd (List.lt_trans hab hba) (List.lt_irrefl _)
    · exact absurd (hk' ▸ hab) (List.lt_irrefl _)
    · exact absurd (hk ▸ hba) (List.lt_irrefl _)
    · exact ⟨hk, Nat.le_antisymm hab hba⟩
  · rintro ⟨hk, hl⟩
    exact ⟨Or.inr ⟨hk, Nat.le_of_eq hl⟩, Or.inr ⟨hk.symm, Nat.le_of_eq hl.symm⟩⟩

/-- The violation is on line `n` of the file with these components, however it is spelled. -/
def isAt (place : List Component) (n : Nat) (v : Violation) : Bool :=
  decide (v.file.components = place ∧ v.line = n)

theorem isAt_iff {place : List Component} {n : Nat} {v : Violation} :
    v.isAt place n = true ↔ v.file.components = place ∧ v.line = n := decide_eq_true_iff

/-- What is tied to a violation is what is on its line. -/
theorem tied_eq_isAt (v : Violation) :
    Sorting.tied le v = isAt v.file.components v.line := by
  funext w
  rw [Bool.eq_iff_iff, tied_iff, isAt_iff]
  exact and_congr eq_comm eq_comm

theorem le_of_isAt {place : List Component} {n : Nat} (a b : Violation)
    (ha : a.isAt place n = true) (hb : b.isAt place n = true) : a.le b = true := by
  rw [isAt_iff] at ha hb
  rw [le_iff, Path.key_eq_iff]
  exact Or.inr ⟨ha.1.trans hb.1.symm, Nat.le_of_eq (ha.2.trans hb.2.symm)⟩

/-- By file, whose components are compared one after the other, and within a file by line. -/
def InOrder (vs : List Violation) : Prop :=
  vs.Pairwise fun a b => a.file.key < b.file.key ∨
    a.file.components = b.file.components ∧ a.line ≤ b.line

theorem inOrder_iff {vs : List Violation} :
    InOrder vs ↔ vs.Pairwise fun a b => a.le b = true := by
  simp only [InOrder, le_iff, Path.key_eq_iff]

end Violation

namespace Findings

/-- Findings with the same violations on every line of every file are sorted alike. -/
theorem sort_congr {a b : List Violation} (n : Nat)
    (h : ∀ v, a.filter (Sorting.tied Violation.le v) = b.filter (Sorting.tied Violation.le v)) :
    sort ⟨a, n⟩ = sort ⟨b, n⟩ := by
  rw [sort, sort, Sorting.mergeSort_congr Violation.le_trans Violation.le_total h]

theorem filter_sort (p : Violation → Bool) (vs : List Violation) (n : Nat) :
    (sort ⟨vs, n⟩).violations.filter p = (vs.filter p).mergeSort Violation.le :=
  Sorting.mergeSort_filter Violation.le_trans Violation.le_total p vs

open Violation (InOrder isAt)

theorem inOrder_sort (f : Findings) : InOrder f.sort.violations :=
  Violation.inOrder_iff.mpr
    (List.pairwise_mergeSort Violation.le_trans Violation.le_total f.violations)

/-- On every line the violations stay in the order in which they were found. -/
theorem filter_isAt_sort (f : Findings) (place : List Component) (n : Nat) :
    f.sort.violations.filter (isAt place n) = f.violations.filter (isAt place n) :=
  Sorting.filter_mergeSort Violation.le_trans Violation.le_total Violation.le_of_isAt f.violations

/-- No other list is in order and reads the same on every line. -/
theorem eq_violations_sort {f : Findings} {vs : List Violation} (horder : InOrder vs)
    (hlines : ∀ place n, vs.filter (isAt place n) = f.violations.filter (isAt place n)) :
    vs = f.sort.violations := by
  have hrefl : ∀ v : Violation, v.le v = true := fun v => by simpa using Violation.le_total v v
  refine Sorting.eq_of_filter_tied hrefl (Violation.inOrder_iff.mp horder)
    (Violation.inOrder_iff.mp (inOrder_sort f)) fun v => ?_
  rw [Violation.tied_eq_isAt, hlines, filter_isAt_sort]

theorem sort_sort (f : Findings) : f.sort.sort = f.sort := by
  have hagain : f.sort.violations = f.sort.sort.violations :=
    eq_violations_sort (inOrder_sort f) fun _ _ => rfl
  exact congrArg (Findings.mk · f.filesChecked) hagain.symm

/-- Parts can be sorted before they are put together. -/
theorem sort_append (xs ys : List Violation) (n : Nat) :
    sort ⟨xs ++ ys, n⟩ =
      sort ⟨(sort ⟨xs, n⟩).violations ++ (sort ⟨ys, n⟩).violations, n⟩ := by
  refine sort_congr n fun v => ?_
  rw [List.filter_append, List.filter_append, Violation.tied_eq_isAt, filter_isAt_sort,
    filter_isAt_sort]

/-- Sorting keeps the count of files and every violation, puts the violations in order, and
leaves those of one line as they stand to each other; there is one list only that is so.  It
does nothing to what is sorted, and it can be done before choosing the violations of a rule or
putting lists together as well as after it. -/
theorem sort_stable (f : Findings) :
    f.sort.filesChecked = f.filesChecked ∧ f.sort.violations.Perm f.violations ∧
    InOrder f.sort.violations ∧
    (∀ place n, f.sort.violations.filter (isAt place n) = f.violations.filter (isAt place n)) ∧
    (∀ vs, InOrder vs →
      (∀ place n, vs.filter (isAt place n) = f.violations.filter (isAt place n)) →
      vs = f.sort.violations) ∧
    f.sort.sort = f.sort ∧
    (∀ code, f.sort.byCode code = (sort ⟨f.byCode code, f.filesChecked⟩).violations) ∧
    (∀ xs ys n, sort ⟨xs ++ ys, n⟩ =
      sort ⟨(sort ⟨xs, n⟩).violations ++ (sort ⟨ys, n⟩).violations, n⟩) := by
  refine ⟨filesChecked_sort f, sort_perm f, inOrder_sort f, filter_isAt_sort f, ?_, sort_sort f,
    ?_, sort_append⟩
  · intro vs horder hlines
    exact eq_violations_sort horder hlines
  · intro code
    exact filter_sort (·.code == code) f.violations f.filesChecked

/-- Spellings of one path are one file, and what lies in a directory comes before a file whose
name goes on behind the name of that directory. -/
example : Path.components ⟨"a//b".toList⟩ = Path.components ⟨"a/b".toList⟩ ∧
    Path.key ⟨"a/b".toList⟩ < Path.key ⟨"a.b".toList⟩ := by decide

end Findings
end ModuleBoundary
