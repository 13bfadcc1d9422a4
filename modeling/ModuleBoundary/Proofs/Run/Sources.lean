/-
What a run takes from a source of files.

A source may list files in any order, and may list paths that do not count: without an
identity, without a language, or unreadable.  A run over another source that lists the
same files otherwise ends in the same way (`outcome_eq_of_agree`), as long as no two of
the files are reported as one path.  Each file contributes its verdicts as one block, and
with different reported paths the sort can tell the blocks apart, so their order is lost
in sorting while the order within a block is kept.
-/
import ModuleBoundary.Proofs.Run.Analysis

namespace ModuleBoundary

variable {g : Guard} {t : Tree}

/-! ## Blocks -/

/-- Blocks without an element of interest can be left out. -/
theorem Sorting.filter_flatMap_filter {α β : Type} {f : α → List β} {p : β → Bool}
    {q : α → Bool} (h : ∀ a, q a = false → (f a).filter p = []) (xs : List α) :
    (xs.flatMap f).filter p = ((xs.filter q).flatMap f).filter p := by
  induction xs with
  | nil => rfl
  | cons x xs ih =>
    rw [List.flatMap_cons, List.filter_append, ih]
    cases hq : q x with
    | true => rw [List.filter_cons_of_pos hq, List.flatMap_cons, List.filter_append]
    | false => rw [h x hq, List.nil_append, List.filter_cons_of_neg (by simp [hq])]

/-- A class with at most one element reads the same in any order. -/
theorem Sorting.filter_eq_of_perm {α β : Type} {key : α → β} {q : α → Bool} {xs ys : List α}
    (hperm : xs.Perm ys) (hdistinct : xs.Pairwise fun a b => key a ≠ key b)
    (hq : ∀ a b, q a = true → q b = true → key a = key b) : xs.filter q = ys.filter q := by
  have hclass := hperm.filter q
  have hpairwise := hdistinct.sublist (List.filter_sublist (p := q))
  match hxs : xs.filter q with
  | [] =>
    rw [hxs] at hclass
    exact hclass.nil_eq
  | [a] =>
    rw [hxs] at hclass
    exact (List.perm_singleton.mp hclass.symm).symm
  | a :: b :: rest =>
    rw [hxs] at hpairwise
    have hmem : ∀ c ∈ a :: b :: rest, q c = true := fun c hc => by
      rw [← hxs] at hc
      exact (List.mem_filter.mp hc).2
    exact absurd (hq a b (hmem a (by simp)) (hmem b (by simp)))
      (List.rel_of_pairwise_cons hpairwise List.mem_cons_self)

namespace Guard

/-- Two lists of files agree in a pass: what counts of them is the same in some order,
and no two files of it are reported as one path. -/
structure Agree (g : Guard) (t : Tree) (sharedPass : Bool) (a b : List Path) : Prop where
  perm : (a.filter (g.counts t sharedPass)).Perm (b.filter (g.counts t sharedPass))
  distinct : (a.filter (g.counts t sharedPass)).Pairwise fun p q =>
    (p.relativeTo g.base).components ≠ (q.relativeTo g.base).components

theorem file_of_mem_verdicts {file : Path} {v : Violation} (h : v ∈ g.verdicts t file) :
    v.file = file.relativeTo g.base := by
  obtain ⟨_, _, _, _, _, _, _, _, rfl⟩ := mem_verdicts.mp h
  rfl

/-- Lists that agree have the same verdicts on every line of every file. -/
theorem filter_verdicts_of_agree {sharedPass : Bool} {a b : List Path}
    (h : g.Agree t sharedPass a b) (v : Violation) :
    ((a.filter (g.counts t sharedPass)).flatMap (g.verdicts t)).filter
        (Sorting.tied Violation.le v) =
      ((b.filter (g.counts t sharedPass)).flatMap (g.verdicts t)).filter
        (Sorting.tied Violation.le v) := by
  let here : Path → Bool := fun p => decide ((p.relativeTo g.base).components = v.file.components)
  have helsewhere : ∀ p, here p = false →
      (g.verdicts t p).filter (Sorting.tied Violation.le v) = [] := by
    intro p hp
    refine List.filter_eq_nil_iff.mpr fun w hw htied => ?_
    have hfile := (Violation.tied_iff.mp htied).1
    rw [file_of_mem_verdicts hw] at hfile
    exact of_decide_eq_false hp hfile.symm
  have hsame : (a.filter (g.counts t sharedPass)).filter here =
      (b.filter (g.counts t sharedPass)).filter here :=
    Sorting.filter_eq_of_perm h.perm h.distinct fun p q hp hq =>
      (of_decide_eq_true hp).trans (of_decide_eq_true hq).symm
  rw [Sorting.filter_flatMap_filter helsewhere, hsame, ← Sorting.filter_flatMap_filter helsewhere]

/-- A run is decided by what counts of the listed files, in no particular order. -/
theorem outcome_eq_of_agree {a b : FileSource}
    (hshared : ∀ root, g.roots.sharedRoot = some root →
      g.Agree t true (a root).files (b root).files)
    (hmodule : g.Agree t false (a g.roots.moduleRoot).files (b g.roots.moduleRoot).files) :
    (g.run t a).outcome = (g.run t b).outcome := by
  cases hdir : t.isDir g.roots.moduleRoot with
  | false => rw [run_of_not_isDir hdir, run_of_not_isDir hdir]
  | true =>
    rw [outcome_of_isDir hdir, outcome_of_isDir hdir, analysed, analysed, if_pos hdir, if_pos hdir]
    cases hroot : g.roots.sharedRoot.filter t.isDir with
    | none =>
      simp only [Option.toList_none, List.flatMap_nil, List.nil_append]
      rw [hmodule.perm.length_eq]
      refine congrArg Outcome.checked (Findings.sort_congr _ fun v => ?_)
      rw [List.filter_append, List.filter_append, filter_verdicts_of_agree hmodule]
    | some root =>
      have hagree := hshared root (Option.filter_eq_some_iff.mp hroot).1
      simp only [Option.toList_some, List.flatMap_singleton, List.flatMap_append]
      rw [List.length_append, List.length_append, hagree.perm.length_eq, hmodule.perm.length_eq]
      refine congrArg Outcome.checked (Findings.sort_congr _ fun v => ?_)
      simp only [List.filter_append, filter_verdicts_of_agree hagree,
        filter_verdicts_of_agree hmodule]

/-- The files of the small layout in another order, among paths that do not count: a
missing file, a directory, no source file, and shared contracts below the module root. -/
def shuffled : FileSource := fun root =>
  if root = Layout.guard.roots.moduleRoot then
    ⟨["./modules/user/Gone.php", "./modules/user/Store.php", "./modules/user",
      "./modules/user/Mail.php", "./modules/api/Bus.php"], 1⟩
  else ⟨["./modules/README.md", "./modules/api/Bus.php"], 0⟩

theorem outcome_shuffled :
    Layout.guard.Agree Layout.nested true (shuffled "./modules/api").files
        (Listing.scan Layout.nested "./modules/api").files ∧
      Layout.guard.Agree Layout.nested false (shuffled "./modules").files
        (Listing.scan Layout.nested "./modules").files ∧
      (Layout.guard.run Layout.nested shuffled).outcome =
        (Layout.guard.run Layout.nested (Listing.scan Layout.nested)).outcome := by
  have hshared : Layout.guard.Agree Layout.nested true (shuffled "./modules/api").files
      (Listing.scan Layout.nested "./modules/api").files :=
    ⟨by decide +kernel, by decide +kernel⟩
  have hmodule : Layout.guard.Agree Layout.nested false (shuffled "./modules").files
      (Listing.scan Layout.nested "./modules").files :=
    ⟨by decide +kernel, by decide +kernel⟩
  refine ⟨hshared, hmodule, outcome_eq_of_agree (fun root hroot => ?_) hmodule⟩
  obtain rfl : "./modules/api" = root := Option.some.inj hroot
  exact hshared

end Guard
end ModuleBoundary
