/-
Route definitions that are reported more than once.

The patterns are followed one after the other, and what a file defines is reported each time that
the file is matched.  Within a file a line is reported once, so a line is reported as often as
files are matched that are reported alike and define a route in that line
(`countP_checkDefinitions`), and two patterns that stand for one file double its violations
(`not_forall_once`).
-/
import ModuleBoundary.Proofs.Routing.Grammar

namespace ModuleBoundary

/-- The two violations name the same line of what is, component by component, one file. -/
def Violation.SameLine (v w : Violation) : Prop :=
  v.file.components = w.file.components ∧ v.line = w.line

instance (v w : Violation) : Decidable (v.SameLine w) := inferInstanceAs (Decidable (_ ∧ _))

namespace Routing

variable {r : Routing} {t : Tree} {base : Path}

/-! ## One file -/

def definesAt (t : Tree) (file : Path) (n : Nat) : Bool :=
  match t.readSource file with
  | .ok s => n != 0 && (Text.lines s)[n - 1]?.any RouteLine.isDefinition
  | .error _ => false

theorem definesAt_iff (base : Path) {file : Path} {n : Nat} : definesAt t file n = true ↔
    ∃ v ∈ definitionsIn t base file, v.line = n := by
  have hmem : ∀ v, v ∈ definitionsIn t base file ↔ _ := fun v => mem_violations_checkFile
  simp only [hmem]
  rw [definesAt, Tree.readSource]
  cases hread : t.read file with
  | error e => simp [Except.map]
  | ok bytes =>
    simp only [Except.map, Bool.and_eq_true, bne_iff_ne, Option.any_eq_true]
    constructor
    · intro h
      obtain ⟨hn, line, hline, hbroken⟩ := h
      exact ⟨_, ⟨bytes, n - 1, line, rfl, hline, hbroken, rfl⟩, Nat.sub_add_cancel (by omega)⟩
    · intro h
      obtain ⟨_, ⟨bytes', k, line, heq, hline, hbroken, rfl⟩, rfl⟩ := h
      obtain rfl := Except.ok.inj heq
      exact ⟨Nat.succ_ne_zero k, line, hline, hbroken⟩

theorem nodup_lines (t : Tree) (base file : Path) :
    ((definitionsIn t base file).map Violation.line).Nodup :=
  List.pairwise_map.mpr ((ascending_checkFile t base _ _ file).imp fun h => Nat.ne_of_lt h)

theorem countP_definitionsIn (t : Tree) (base file : Path) (place : List Component) (n : Nat) :
    (definitionsIn t base file).countP
        (fun v => decide (v.file.components = place ∧ v.line = n)) =
      if (file.relativeTo base).components = place ∧ definesAt t file n = true then 1 else 0 := by
  by_cases hplace : (file.relativeTo base).components = place
  · have hline : (definitionsIn t base file).countP
        (fun v => decide (v.file.components = place ∧ v.line = n)) =
        ((definitionsIn t base file).map Violation.line).count n := by
      rw [List.count, List.countP_map]
      refine List.countP_congr fun v hv => ?_
      rw [file_of_mem_definitionsIn hv]
      simp [hplace]
    rw [hline, (nodup_lines t base file).count]
    simp [hplace, definesAt_iff base]
  · rw [if_neg (fun h => hplace h.1), List.countP_eq_zero]
    intro v hv
    rw [file_of_mem_definitionsIn hv]
    simp [hplace]

/-! ## All files -/

/-- A line is reported as often as files are matched that are reported as its file and define a
route in it. -/
theorem countP_checkDefinitions (r : Routing) (t : Tree) (base : Path) (place : List Component)
    (n : Nat) :
    (r.checkDefinitions t base).violations.countP
        (fun v => decide (v.file.components = place ∧ v.line = n)) =
      (r.matched t base).countP fun p =>
        decide ((p.relativeTo base).components = place ∧ definesAt t p n = true) := by
  rw [violations_checkDefinitions]
  induction r.matched t base with
  | nil => rfl
  | cons p files ih =>
    rw [List.flatMap_cons, List.countP_append, ih, countP_definitionsIn, List.countP_cons]
    simp only [decide_eq_true_eq]
    omega

/-- Two files share a line if they are reported alike and define a route in a line of one number. -/
def SharesLine (t : Tree) (base p q : Path) : Prop :=
  (p.relativeTo base).components = (q.relativeTo base).components ∧
    ∃ n, definesAt t p n = true ∧ definesAt t q n = true

theorem sharesLine_iff {p q : Path} : SharesLine t base p q ↔
    ∃ v ∈ definitionsIn t base p, ∃ w ∈ definitionsIn t base q, v.SameLine w := by
  simp only [SharesLine, definesAt_iff base]
  constructor
  · intro h
    obtain ⟨hplace, n, ⟨v, hv, hvn⟩, w, hw, hwn⟩ := h
    refine ⟨v, hv, w, hw, ?_, hvn.trans hwn.symm⟩
    rw [file_of_mem_definitionsIn hv, file_of_mem_definitionsIn hw, hplace]
  · intro h
    obtain ⟨v, hv, w, hw, hplace, hline⟩ := h
    rw [file_of_mem_definitionsIn hv, file_of_mem_definitionsIn hw] at hplace
    exact ⟨hplace, v.line, ⟨v, hv, rfl⟩, w, hw, hline.symm⟩

theorem pairwise_checkDefinitions_iff (r : Routing) (t : Tree) (base : Path) :
    (r.checkDefinitions t base).violations.Pairwise (fun v w => ¬ v.SameLine w) ↔
      (r.matched t base).Pairwise fun p q => ¬ SharesLine t base p q := by
  have hblock : ∀ p, (definitionsIn t base p).Pairwise fun v w => ¬ v.SameLine w := by
    intro p
    refine (ascending_checkFile t base _ _ p).imp ?_
    intro v w hlt hsame
    exact Nat.ne_of_lt hlt hsame.2
  rw [violations_checkDefinitions, List.pairwise_flatMap]
  simp only [hblock, implies_true, true_and]
  apply List.Pairwise.iff
  intro p q
  rw [sharesLine_iff]
  constructor
  · intro h hshared
    obtain ⟨v, hv, w, hw, hsame⟩ := hshared
    exact h v hv w hw hsame
  · intro h v hv w hw hsame
    exact h ⟨v, hv, w, hw, hsame⟩

/-- A line is reported as often as files are matched that are reported as its file and define a
route in it.  So no line is reported twice if and only if no two of the files that are matched, a
file that is matched twice among them, share a line. -/
theorem checkDefinitions_repeats (r : Routing) (t : Tree) (base : Path) :
    (∀ (place : List Component) (n : Nat),
      (r.checkDefinitions t base).violations.countP
          (fun v => decide (v.file.components = place ∧ v.line = n)) =
        (r.matched t base).countP fun p =>
          decide ((p.relativeTo base).components = place ∧ definesAt t p n = true)) ∧
    ((r.checkDefinitions t base).violations.Pairwise (fun v w => ¬ v.SameLine w) ↔
      (r.matched t base).Pairwise fun p q => ¬ SharesLine t base p q) :=
  ⟨countP_checkDefinitions r t base, pairwise_checkDefinitions_iff r t base⟩

/-- Two patterns that overlap, neither of which stands for a file twice, report a line twice. -/
theorem not_forall_once : ¬ ∀ (r : Routing) (t : Tree) (base : Path),
    (∀ glob ∈ r.globs, (matchedBy t base glob).Nodup) →
      (r.checkDefinitions t base).violations.Pairwise fun v w => ¬ v.SameLine w := by
  intro h
  have hpatterns : ∀ glob ∈ ["routes/*.php".toList, "routes/web.php".toList],
      (matchedBy web "." glob).Nodup := by decide +kernel
  have htwice : ¬ (checkDefinitions ⟨["routes/*.php".toList, "routes/web.php".toList], .none⟩
      web ".").violations.Pairwise fun v w => ¬ v.SameLine w := by decide +kernel
  exact htwice (h ⟨_, .none⟩ web "." hpatterns)

end Routing
end ModuleBoundary
