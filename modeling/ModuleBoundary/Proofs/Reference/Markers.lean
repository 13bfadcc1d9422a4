/-
Reading a target by its markers.

The segments of a target are what stands between its slashes and backslashes.  Of the markers
the first one that is a segment decides, at its first place (`Decides`), and what stands behind
that place is the answer.  `PathReading` has a constructor for each way in which this ends, and
`attempt_markers_eq_iff` says that no target is read otherwise.
-/
import ModuleBoundary.Proofs.Reference.Names
import ModuleBoundary.Proofs.Text.Segments

namespace ModuleBoundary
namespace Reference

variable {markers names below : List Text} {target : Text} {i : Nat}

/-! ## Segments -/

def segments (target : Text) : List Text := target.splitOnP fun c => c == '/' || c == '\\'

/-- Turning the backslashes round first makes no difference. -/
theorem splitOn_withSlashes (target : Text) :
    (withSlashes target).splitOn '/' = segments target := by
  rw [segments]
  induction target with
  | nil => rfl
  | cons c s ih =>
    have hcons : withSlashes (c :: s) = (if c = '\\' then '/' else c) :: withSlashes s := rfl
    rw [hcons, List.splitOn_cons_eq_if_modifyHead, List.splitOnP_cons_eq_if_modifyHead, ih]
    by_cases hback : c = '\\'
    · rw [hback]
      rfl
    · rw [if_neg hback]
      have hsame : (c == '\\') = false := beq_eq_false_iff_ne.mpr hback
      rw [hsame, Bool.or_false]

/-- The layer is read off the segments between the first and the last. -/
theorem pathLayer_eq_contracts_iff {path : Text} :
    pathLayer path = .contracts ↔ "contracts".toList ∈ (path.splitOn '/').tail.dropLast := by
  have hslash : '/' ∉ "contracts".toList := by decide
  have hpart : Text.hasPart "/contracts/".toList path = true ↔
      "contracts".toList ∈ (path.splitOn '/').tail.dropLast := by
    rw [Text.hasPart_iff]
    exact Text.isInfix_between_iff hslash
  rw [← hpart, pathLayer]
  cases Text.hasPart "/contracts/".toList path <;> simp

theorem pathLayer_withSlashes_iff :
    pathLayer (withSlashes target) = .contracts ↔
      "contracts".toList ∈ (segments target).tail.dropLast := by
  rw [pathLayer_eq_contracts_iff, splitOn_withSlashes]

/-! ## The place that decides -/

/-- The first of the markers that is among the names stands at place `i`, and at none before. -/
def Decides (markers names : List Text) (i : Nat) : Prop :=
  ∃ before marker behind, markers = before ++ marker :: behind ∧ (∀ m ∈ before, m ∉ names) ∧
    names[i]? = some marker ∧ ∀ j < i, names[j]? ≠ some marker

theorem idxOf?_eq_some_iff {name : Text} :
    names.idxOf? name = some i ↔ names[i]? = some name ∧ ∀ j < i, names[j]? ≠ some name := by
  rw [List.idxOf?_eq_some_iff]
  constructor
  · intro h
    obtain ⟨hi, hname, hfirst⟩ := h
    refine ⟨List.getElem?_eq_some_iff.mpr ⟨hi, hname⟩, fun j hj heq => ?_⟩
    obtain ⟨_, hj'⟩ := List.getElem?_eq_some_iff.mp heq
    exact hfirst j hj hj'
  · intro h
    obtain ⟨hplace, hfirst⟩ := h
    obtain ⟨hi, hname⟩ := List.getElem?_eq_some_iff.mp hplace
    refine ⟨hi, hname, fun j hj heq => ?_⟩
    exact hfirst j hj (List.getElem?_eq_some_iff.mpr ⟨by omega, heq⟩)

theorem afterMarker?_eq_some_iff :
    afterMarker? markers names = some below ↔
      ∃ i, Decides markers names i ∧ names.drop (i + 1) = below := by
  rw [afterMarker?, List.findSome?_eq_some_iff]
  simp only [Option.map_eq_some_iff, Option.map_eq_none_iff, List.idxOf?_eq_none_iff,
    idxOf?_eq_some_iff]
  constructor
  · intro h
    obtain ⟨before, marker, behind, hmarkers, ⟨i, hplace, hbelow⟩, hbefore⟩ := h
    exact ⟨i, ⟨before, marker, behind, hmarkers, hbefore, hplace⟩, hbelow⟩
  · intro h
    obtain ⟨i, ⟨before, marker, behind, hmarkers, hbefore, hplace⟩, hbelow⟩ := h
    exact ⟨before, marker, behind, hmarkers, ⟨i, hplace, hbelow⟩, hbefore⟩

theorem afterMarker?_eq_none_iff :
    afterMarker? markers names = none ↔ ∀ m ∈ markers, m ∉ names := by
  rw [afterMarker?, List.findSome?_eq_none_iff]
  simp only [Option.map_eq_none_iff, List.idxOf?_eq_none_iff]

/-! ## The answers -/

theorem ofMarkers_of_forall_not_mem (h : ∀ m ∈ markers, m ∉ segments target) :
    ofMarkers markers target = .noMatch := by
  by_cases hslash : '/' ∈ target
  · rw [ofMarkers, if_pos hslash]
    simp only [splitOn_withSlashes, afterMarker?_eq_none_iff.mpr h]
  · exact ofMarkers_of_not_mem hslash

/-- What stands behind the place that decides is the answer. -/
theorem ofMarkers_of_decides (hslash : '/' ∈ target) (h : Decides markers (segments target) i) :
    ofMarkers markers target =
      match (segments target)[i + 1]? with
      | none => .rejected
      | some name =>
        if name = [] ∨ isShared name = true then .rejected
        else .found ⟨name, pathLayer (withSlashes target), .path⟩ := by
  rw [ofMarkers, if_pos hslash]
  simp only [splitOn_withSlashes, afterMarker?_eq_some_iff.mpr ⟨i, h, rfl⟩]
  rw [← List.head?_drop]
  cases (segments target).drop (i + 1) <;> rfl

/-- How a target can be read as a path.  Without a slash it is none, whatever its segments. -/
inductive PathReading (markers : List Text) (target : Text) : Attempt → Prop
  | noSlash (h : '/' ∉ target) : PathReading markers target .noMatch
  | noMarker (h : ∀ m ∈ markers, m ∉ segments target) : PathReading markers target .noMatch
  | rejected {i : Nat} (hslash : '/' ∈ target) (hplace : Decides markers (segments target) i)
      (hname : ∀ name, (segments target)[i + 1]? = some name → ¬ IsModuleName name) :
      PathReading markers target .rejected
  | found {i : Nat} {name : Text} {layer : Layer} (hslash : '/' ∈ target)
      (hplace : Decides markers (segments target) i)
      (hbehind : (segments target)[i + 1]? = some name) (hname : IsModuleName name)
      (hlayer : layer = .contracts ↔ "contracts".toList ∈ (segments target).tail.dropLast) :
      PathReading markers target (.found ⟨name, layer, .path⟩)

theorem pathReading_ofMarkers (markers : List Text) (target : Text) :
    PathReading markers target (ofMarkers markers target) := by
  by_cases hslash : '/' ∈ target
  · cases hafter : afterMarker? markers (segments target) with
    | none =>
      have hnone := afterMarker?_eq_none_iff.mp hafter
      rw [ofMarkers_of_forall_not_mem hnone]
      exact .noMarker hnone
    | some below =>
      obtain ⟨i, hplace, _⟩ := afterMarker?_eq_some_iff.mp hafter
      rw [ofMarkers_of_decides hslash hplace]
      cases hbehind : (segments target)[i + 1]? with
      | none =>
        refine .rejected hslash hplace fun name hname => ?_
        rw [hbehind] at hname
        exact absurd hname (by simp)
      | some name =>
        by_cases hname : IsModuleName name
        · simp only [if_neg (isModuleName_iff.mp hname)]
          exact .found hslash hplace hbehind hname pathLayer_withSlashes_iff
        · simp only [if_pos (not_isModuleName_iff.mp hname)]
          refine .rejected hslash hplace fun name' hname' => ?_
          obtain rfl := Option.some.inj (hbehind.symm.trans hname')
          exact hname
  · rw [ofMarkers_of_not_mem hslash]
    exact .noSlash hslash

theorem PathReading.eq_ofMarkers {answer : Attempt} (h : PathReading markers target answer) :
    ofMarkers markers target = answer := by
  cases h with
  | noSlash hslash => exact ofMarkers_of_not_mem hslash
  | noMarker hnone => exact ofMarkers_of_forall_not_mem hnone
  | rejected hslash hplace hname =>
    rw [ofMarkers_of_decides hslash hplace]
    split
    · rfl
    · next name hbehind =>
      rw [if_pos (not_isModuleName_iff.mp (hname name hbehind))]
  | found hslash hplace hbehind hname hlayer =>
    rw [ofMarkers_of_decides hslash hplace, hbehind]
    simp only [if_neg (isModuleName_iff.mp hname)]
    rw [Layer.eq_of_contracts_iff (pathLayer_withSlashes_iff.trans hlayer.symm)]

end Reference

/-- The strategy that is given by markers answers as their order and the segments say. -/
theorem Strategy.attempt_markers_eq_iff (markers : List Text) (target : Text) (answer : Attempt) :
    (Strategy.markers markers).attempt target = answer ↔
      Reference.PathReading markers target answer := by
  constructor
  · intro h
    rw [← h]
    exact Reference.pathReading_ofMarkers markers target
  · intro h
    exact h.eq_ofMarkers

example : (Strategy.markers Reference.defaultMarkers).attempt
    "src/domains/legacy/modules\\user/service".toList =
      .found ⟨"user".toList, .internals, .path⟩ := by decide

end ModuleBoundary
