/-
Class names with a backslash in front.

A class is named with a leading backslash or without.  No place of a qualified name starts at a
backslash, so both spellings are read alike (`ofPatterns_backslash`).  The marker of shared
contracts does start with one.  A name that starts with `Shared\Contracts\` shows the marker in
one of its spellings only; in the other it is classified if it names a module further on.
`classify_backslash_iff` says that there is no other difference.
-/
import ModuleBoundary.Proofs.Reference.Domains

namespace ModuleBoundary

namespace Reference

theorem ofPatterns_backslash (target : Text) :
    ofPatterns defaultPatterns ('\\' :: target) = ofPatterns defaultPatterns target := by
  have hleft : leftmostDomain? (['\\'] ++ target) = leftmostDomain? target :=
    leftmostDomain?_append (by decide) target
  rw [ofPatterns, ofPatterns, findSome?_defaultPatterns, findSome?_defaultPatterns, ← hleft,
    List.singleton_append]

theorem ofPatterns_eq_iff {target : Text} {answer : Attempt} :
    ofPatterns defaultPatterns target = answer ↔ QualifiedReading target answer := by
  constructor
  · intro h
    rw [← h]
    exact qualifiedReading_ofPatterns target
  · intro h
    exact h.eq_ofPatterns

end Reference

/-- Without a slash only the patterns have a say. -/
theorem Strategy.firstAnswer?_defaults {target : Text} {r : Reference} (h : '/' ∉ target) :
    firstAnswer? target defaults = some r ↔
      Reference.ofPatterns Reference.defaultPatterns target = .found r := by
  have hpath : (markers Reference.defaultMarkers).attempt target = .noMatch :=
    Reference.ofMarkers_of_not_mem h
  have hname : (patterns Reference.defaultPatterns).attempt target =
      Reference.ofPatterns Reference.defaultPatterns target := rfl
  rw [defaults, firstAnswer?, hpath]
  simp only [firstAnswer?, hname]
  cases Reference.ofPatterns Reference.defaultPatterns target <;> simp

namespace Classifier

open Reference (QualifiedReading)

variable {target : Text} {r : Reference}

def sharedFront : Text := "Shared\\Contracts\\".toList

theorem isSharedTarget_iff (h : '/' ∉ target) :
    (ofRoot none).isSharedTarget target = true ↔ '\\' :: sharedFront <:+: target := by
  have hmarkers : (ofRoot none).sharedMarkers =
      ["/shared/contracts/".toList, '\\' :: sharedFront] := rfl
  have hpath : ¬ "/shared/contracts/".toList <:+: target := fun hpart =>
    h (hpart.subset (by decide))
  simp only [isSharedTarget, hmarkers, List.any_cons, List.any_nil, Bool.or_false, Bool.or_eq_true,
    Text.hasPart_iff]
  exact or_iff_right hpath

theorem classify_eq_some_iff (h : '/' ∉ target) :
    (ofRoot none).classify target = some r ↔
      ¬ '\\' :: sharedFront <:+: target ∧ QualifiedReading target (.found r) := by
  have hanswer : Strategy.firstAnswer? target (ofRoot none).strategies = some r ↔
      QualifiedReading target (.found r) :=
    (Strategy.firstAnswer?_defaults h).trans Reference.ofPatterns_eq_iff
  rw [classify, ← isSharedTarget_iff h, ← hanswer]
  by_cases hshared : target = [] ∨ (ofRoot none).isSharedTarget target = true
  · rw [if_pos hshared]
    refine iff_of_false (by simp) fun hfound => ?_
    obtain ⟨hpart, hfound⟩ := hfound
    rcases hshared with hnil | hshared
    · have hnone : Strategy.firstAnswer? [] (ofRoot none).strategies = none := rfl
      rw [hnil, hnone] at hfound
      exact absurd hfound (by simp)
    · exact hpart hshared
  · rw [if_neg hshared]
    exact (and_iff_right fun hpart => hshared (Or.inr hpart)).symm

/-- A backslash in front of a class name takes the reference away if the name starts like those of
shared contracts, and does nothing else.  So it makes a difference to those of these names in which
a module is found and no other marker stands. -/
theorem classify_backslash_iff (h : '/' ∉ target) :
    (∀ r, (ofRoot none).classify ('\\' :: target) = some r ↔
      ¬ sharedFront <+: target ∧ (ofRoot none).classify target = some r) ∧
    ((ofRoot none).classify target = (ofRoot none).classify ('\\' :: target) ↔
      ¬ (sharedFront <+: target ∧ ¬ '\\' :: sharedFront <:+: target ∧
        ∃ r, QualifiedReading target (.found r))) := by
  have hslash : '/' ∉ '\\' :: target := by simpa using h
  have hcons : ∀ r, (ofRoot none).classify ('\\' :: target) = some r ↔
      ¬ sharedFront <+: target ∧ (ofRoot none).classify target = some r := by
    intro r
    rw [classify_eq_some_iff hslash, classify_eq_some_iff h, List.infix_cons_iff,
      List.cons_prefix_cons, and_iff_right rfl, not_or, and_assoc,
      ← Reference.ofPatterns_eq_iff, Reference.ofPatterns_backslash,
      Reference.ofPatterns_eq_iff]
  refine ⟨hcons, ?_⟩
  constructor
  · intro heq hfront
    obtain ⟨hfront, hpart, r, hr⟩ := hfront
    have hfound := (classify_eq_some_iff h).mpr ⟨hpart, hr⟩
    rw [heq] at hfound
    exact ((hcons r).mp hfound).1 hfront
  · intro hfront
    ext r
    rw [hcons r]
    refine ⟨fun hfound => ⟨fun hstarts => hfront ⟨hstarts, ?_⟩, hfound⟩, And.right⟩
    obtain ⟨hpart, hr⟩ := (classify_eq_some_iff h).mp hfound
    exact ⟨hpart, r, hr⟩

def sharedId : Text := "Shared\\Contracts\\Domains\\User\\UserId".toList

theorem classify_backslash_sharedId :
    '/' ∉ sharedId ∧
    (∀ r, (ofRoot none).classify ('\\' :: sharedId) = some r ↔
      ¬ sharedFront <+: sharedId ∧ (ofRoot none).classify sharedId = some r) ∧
    ((ofRoot none).classify sharedId = (ofRoot none).classify ('\\' :: sharedId) ↔
      ¬ (sharedFront <+: sharedId ∧ ¬ '\\' :: sharedFront <:+: sharedId ∧
        ∃ r, QualifiedReading sharedId (.found r))) := by
  have h : '/' ∉ sharedId := by decide
  exact ⟨h, classify_backslash_iff h⟩

/-- The two spellings of one class need not be classified alike. -/
theorem not_forall_backslash : ¬ ∀ target : Text, '/' ∉ target →
    (ofRoot none).classify target = (ofRoot none).classify ('\\' :: target) := by
  intro h
  exact absurd (h sharedId (by decide)) (by decide +kernel)

end Classifier
end ModuleBoundary
