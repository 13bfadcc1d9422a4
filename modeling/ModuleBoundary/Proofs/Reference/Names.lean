/-
The module that a reference names.

Whichever way a target is read, the name of the module is a part of it between two marks, and
the reading is rejected if that part is empty or `shared` in any case.  `names_of_classify`
says so for both default strategies at once: which markers or patterns they have takes no part
in it.
-/
import ModuleBoundary.Proofs.Text.Cutting
import ModuleBoundary.Proofs.Text.LetterCase
import ModuleBoundary.Proofs.Text.Parts
import ModuleBoundary.Reference.Classifier

namespace ModuleBoundary

theorem Layer.eq_of_contracts_iff {a b : Layer} (h : a = .contracts ↔ b = .contracts) : a = b := by
  cases a <;> cases b <;> simp at h ⊢

namespace Reference

structure IsModuleName (name : Text) : Prop where
  ne_nil : name ≠ []
  not_shared : ¬ Text.IsCaseOf "shared".toList name

theorem isModuleName_iff {name : Text} :
    IsModuleName name ↔ ¬ (name = [] ∨ isShared name = true) := by
  rw [not_or, isShared, Text.sameIgnoringCase_iff (by decide)]
  exact ⟨fun h => ⟨h.ne_nil, h.not_shared⟩, fun h => ⟨h.1, h.2⟩⟩

theorem not_isModuleName_iff {name : Text} :
    ¬ IsModuleName name ↔ name = [] ∨ isShared name = true := by
  rw [isModuleName_iff, Decidable.not_not]

/-- The reference names a module, by a part of the target. -/
structure Names (r : Reference) (target : Text) : Prop where
  ne_nil : r.moduleName ≠ []
  not_shared : isShared r.moduleName = false
  backslash_not_mem : '\\' ∉ r.moduleName
  isInfix : r.moduleName <:+: target

/-- What both ways of reading end with. -/
theorem names_of_found {name target : Text} {layer : Layer} {spelling : Spelling} {r : Reference}
    (h : (if name = [] ∨ isShared name = true then Attempt.rejected
      else .found ⟨name, layer, spelling⟩) = .found r)
    (hback : '\\' ∉ name) (hpart : name <:+: target) : r.Names target := by
  by_cases hname : name = [] ∨ isShared name = true
  · rw [if_pos hname] at h
    exact absurd h (by simp)
  · rw [if_neg hname] at h
    obtain rfl := Attempt.found.inj h
    obtain ⟨hne, hshared⟩ := not_or.mp hname
    exact ⟨hne, Bool.eq_false_iff.mpr hshared, hback, hpart⟩

/-! ## Paths -/

theorem isSuffix_of_afterMarker? {markers segments behind : List Text}
    (h : afterMarker? markers segments = some behind) : behind <:+ segments := by
  obtain ⟨marker, _, hmarker⟩ := List.exists_of_findSome?_eq_some h
  obtain ⟨i, _, rfl⟩ := Option.map_eq_some_iff.mp hmarker
  exact List.drop_suffix _ _

theorem withSlashes_eq_self {target : Text} (h : '\\' ∉ target) : withSlashes target = target := by
  have hsame : ∀ c ∈ target, (if c = '\\' then '/' else c) = c := by
    intro c hc
    rw [if_neg]
    intro hback
    exact h (hback ▸ hc)
  exact (List.map_congr_left hsame).trans (List.map_id' target)

theorem isInfix_of_mem_segments {target name : Text}
    (h : name ∈ (withSlashes target).splitOn '/') : '\\' ∉ name ∧ name <:+: target := by
  obtain ⟨hsegment, hslash⟩ := Text.mem_splitOn h
  obtain ⟨part, hpart, rfl⟩ := List.infix_map_iff.mp hsegment
  -- A backslash would be a slash in the segment, so turning them round changed nothing here.
  have hback : '\\' ∉ part := fun hmem => hslash (List.mem_map.mpr ⟨'\\', hmem, rfl⟩)
  have hsame : part.map _ = part := withSlashes_eq_self hback
  rw [hsame]
  exact ⟨hback, hpart⟩

theorem names_of_ofMarkers {markers : List Text} {target : Text} {r : Reference}
    (h : ofMarkers markers target = .found r) : r.Names target := by
  rw [ofMarkers] at h
  by_cases hslash : '/' ∈ target
  · simp only [if_pos hslash] at h
    split at h
    · exact absurd h (by simp)
    · exact absurd h (by simp)
    · next name more hafter =>
      have hname : name ∈ (withSlashes target).splitOn '/' :=
        (isSuffix_of_afterMarker? hafter).subset List.mem_cons_self
      obtain ⟨hback, hpart⟩ := isInfix_of_mem_segments hname
      exact names_of_found h hback hpart
  · rw [if_neg hslash] at h
    exact absurd h (by simp)

/-! ## Qualified names -/

theorem domain?_eq_some_iff {s name rest : Text} :
    domain? s = some (name, rest) ↔
      s = "Domains\\".toList ++ (name ++ '\\' :: rest) ∧ '\\' ∉ name ∧ '\n' ∉ rest := by
  simp only [domain?, Option.bind_eq_bind, Option.bind_eq_some_iff, Text.after?_eq_some]
  constructor
  · intro h
    obtain ⟨behind, hs, ⟨name', rest'⟩, hcut, heq⟩ := h
    split at heq
    · exact absurd heq (by simp)
    · next hfeed =>
      obtain ⟨hname, hrest⟩ := Prod.mk.inj (Option.some.inj heq)
      obtain ⟨hbehind, hback⟩ := Text.cut?_eq_some hcut
      rw [hs, hbehind, ← hname, ← hrest]
      exact ⟨rfl, hback, hfeed⟩
  · intro h
    obtain ⟨hs, hback, hfeed⟩ := h
    exact ⟨_, hs, (name, rest), Text.cut?_append_cons hback rest, if_neg hfeed⟩

theorem isSuffix_skip (front s : Text) : skip front s <:+ s := by
  rw [skip]
  cases h : Text.after? front s with
  | none => exact List.suffix_rfl
  | some rest => exact ⟨front, (Text.after?_eq_some.mp h).symm⟩

theorem exists_suffix_of_leftmostDomain? {s : Text} {found : Text × Text}
    (h : leftmostDomain? s = some found) : ∃ suffix, suffix <:+ s ∧ domain? suffix = some found := by
  induction s with
  | nil => exact absurd h (by simp [leftmostDomain?])
  | cons c s ih =>
    rw [leftmostDomain?] at h
    split at h
    · next r hdomain => exact ⟨c :: s, List.suffix_rfl, hdomain.trans h⟩
    · obtain ⟨suffix, hsuffix, hdomain⟩ := ih h
      exact ⟨suffix, hsuffix.trans (List.suffix_cons c s), hdomain⟩

theorem exists_suffix_of_match? {pattern : Pattern} {target : Text} {found : Text × Text}
    (h : pattern.match? target = some found) :
    ∃ suffix, suffix <:+ target ∧ domain? suffix = some found := by
  cases pattern with
  | anchored => exact ⟨_, (isSuffix_skip _ _).trans (isSuffix_skip _ _), h⟩
  | anywhere => exact exists_suffix_of_leftmostDomain? h

theorem names_of_ofPatterns {patterns : List Pattern} {target : Text} {r : Reference}
    (h : ofPatterns patterns target = .found r) : r.Names target := by
  rw [ofPatterns] at h
  split at h
  · exact absurd h (by simp)
  · next name rest hmatch =>
    obtain ⟨pattern, _, hpattern⟩ := List.exists_of_findSome?_eq_some hmatch
    obtain ⟨suffix, hsuffix, hdomain⟩ := exists_suffix_of_match? hpattern
    obtain ⟨rfl, hback, _⟩ := domain?_eq_some_iff.mp hdomain
    have hpart : name <:+: "Domains\\".toList ++ (name ++ '\\' :: rest) :=
      ⟨"Domains\\".toList, '\\' :: rest, List.append_assoc _ _ _⟩
    exact names_of_found h hback (hpart.trans hsuffix.isInfix)

end Reference

/-! ## Classifiers -/

theorem Strategy.exists_of_firstAnswer? {target : Text} {strategies : List Strategy} {r : Reference}
    (h : firstAnswer? target strategies = some r) : ∃ s ∈ strategies, s.attempt target = .found r := by
  induction strategies with
  | nil => exact absurd h (by simp [firstAnswer?])
  | cons s rest ih =>
    rw [firstAnswer?] at h
    split at h
    · obtain ⟨s', hs', hattempt⟩ := ih h
      exact ⟨s', List.mem_cons_of_mem s hs', hattempt⟩
    · exact absurd h (by simp)
    · next r' hattempt =>
      obtain rfl := Option.some.inj h
      exact ⟨s, List.mem_cons_self, hattempt⟩

theorem Strategy.names_of_attempt {s : Strategy} {target : Text} {r : Reference}
    (hs : s ∈ defaults) (h : s.attempt target = .found r) : r.Names target := by
  rw [defaults, List.mem_pair] at hs
  rcases hs with hs | hs
  · rw [hs] at h
    exact Reference.names_of_ofMarkers h
  · rw [hs] at h
    exact Reference.names_of_ofPatterns h

/-- What a target is classified as names a module by a part of the target. -/
theorem Classifier.names_of_classify {root : Option Path} {target : Text} {r : Reference}
    (h : (ofRoot root).classify target = some r) : r.Names target := by
  rw [classify] at h
  split at h
  · exact absurd h (by simp)
  · obtain ⟨s, hs, hattempt⟩ := Strategy.exists_of_firstAnswer? h
    exact Strategy.names_of_attempt hs hattempt

end ModuleBoundary
