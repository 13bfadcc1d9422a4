/-
Reading a target as a qualified name.

A name is read at a place of the target where `Domains\`, the name of a module, a backslash and
the rest stand (`DomainAt`), and the leftmost such place decides.  `QualifiedReading` has a
constructor for each way in which this ends.  The anchored pattern only looks where no place is
farther left, so it takes no part in the answer: `attempt_patterns_eq_iff` says both.
-/
import ModuleBoundary.Proofs.Reference.Names
import ModuleBoundary.Proofs.Text.Segments

namespace ModuleBoundary
namespace Reference

variable {target name rest : Text} {c : Char} {i : Nat}

/-! ## Places -/

/-- From its place `i` on the target reads `Domains\`, the name, a backslash and the rest. -/
structure DomainAt (target : Text) (i : Nat) (name rest : Text) : Prop where
  reads : target.drop i = "Domains\\".toList ++ (name ++ '\\' :: rest)
  backslash_not_mem : '\\' ∉ name
  feed_not_mem : '\n' ∉ rest

structure FirstDomainAt (target : Text) (i : Nat) (name rest : Text) : Prop
    extends DomainAt target i name rest where
  first : ∀ j < i, ∀ name' rest', ¬ DomainAt target j name' rest'

theorem domainAt_iff :
    DomainAt target i name rest ↔ domain? (target.drop i) = some (name, rest) := by
  rw [domain?_eq_some_iff]
  exact ⟨fun h => ⟨h.reads, h.backslash_not_mem, h.feed_not_mem⟩, fun h => ⟨h.1, h.2.1, h.2.2⟩⟩

theorem domainAt_zero : DomainAt target 0 name rest ↔ domain? target = some (name, rest) :=
  domainAt_iff

theorem domainAt_succ : DomainAt (c :: target) (i + 1) name rest ↔ DomainAt target i name rest := by
  rw [domainAt_iff, domainAt_iff, List.drop_succ_cons]

theorem not_domainAt_zero (h : domain? target = none) : ¬ DomainAt target 0 name rest := by
  rw [domainAt_zero, h]
  simp

theorem domain?_nil : domain? [] = none := rfl

theorem not_domainAt_nil : ¬ DomainAt [] i name rest := by
  rw [domainAt_iff, List.drop_nil, domain?_nil]
  simp

/-- Where nothing is read in front, the first place is the first place behind the first
character. -/
theorem firstDomainAt_succ (h : domain? (c :: target) = none) :
    FirstDomainAt (c :: target) (i + 1) name rest ↔ FirstDomainAt target i name rest := by
  constructor
  · intro hfirst
    refine ⟨domainAt_succ.mp hfirst.toDomainAt, fun j hj name' rest' hplace => ?_⟩
    exact hfirst.first (j + 1) (by omega) name' rest' (domainAt_succ.mpr hplace)
  · intro hfirst
    refine ⟨domainAt_succ.mpr hfirst.toDomainAt, fun j hj name' rest' hplace => ?_⟩
    cases j with
    | zero => exact not_domainAt_zero h hplace
    | succ j => exact hfirst.first j (by omega) name' rest' (domainAt_succ.mp hplace)

theorem leftmostDomain?_eq_some_iff :
    leftmostDomain? target = some (name, rest) ↔ ∃ i, FirstDomainAt target i name rest := by
  induction target with
  | nil =>
    constructor
    · intro h
      exact absurd h (by simp [leftmostDomain?])
    · intro h
      obtain ⟨i, hfirst⟩ := h
      exact absurd hfirst.toDomainAt not_domainAt_nil
  | cons c s ih =>
    rw [leftmostDomain?]
    cases hdomain : domain? (c :: s) with
    | some found =>
      -- No place is farther left than the start.
      have hplace : DomainAt (c :: s) 0 found.1 found.2 := domainAt_zero.mpr hdomain
      constructor
      · intro h
        rw [Option.some.inj h] at hplace
        exact ⟨0, hplace, fun j hj => absurd hj (Nat.not_lt_zero j)⟩
      · intro h
        obtain ⟨i, hfirst⟩ := h
        cases i with
        | zero => exact hdomain.symm.trans (domainAt_zero.mp hfirst.toDomainAt)
        | succ i => exact absurd hplace (hfirst.first 0 (Nat.succ_pos i) _ _)
    | none =>
      refine ih.trans ⟨?_, ?_⟩
      · intro h
        obtain ⟨i, hfirst⟩ := h
        exact ⟨i + 1, (firstDomainAt_succ hdomain).mpr hfirst⟩
      · intro h
        obtain ⟨i, hfirst⟩ := h
        cases i with
        | zero => exact absurd hfirst.toDomainAt (not_domainAt_zero hdomain)
        | succ i => exact ⟨i, (firstDomainAt_succ hdomain).mp hfirst⟩

/-- Of all places there is a first one. -/
theorem exists_firstDomainAt (h : DomainAt target i name rest) :
    ∃ j name' rest', FirstDomainAt target j name' rest' := by
  induction i using Nat.strongRecOn generalizing name rest with
  | ind i ih =>
    by_cases hfirst : ∃ j < i, ∃ name' rest', DomainAt target j name' rest'
    · obtain ⟨j, hj, name', rest', hplace⟩ := hfirst
      exact ih j hj hplace
    · refine ⟨i, name, rest, h, fun j hj name' rest' hplace => ?_⟩
      exact hfirst ⟨j, hj, name', rest', hplace⟩

theorem leftmostDomain?_eq_none_iff :
    leftmostDomain? target = none ↔ ∀ i name rest, ¬ DomainAt target i name rest := by
  constructor
  · intro h i name rest hplace
    obtain ⟨j, name', rest', hfirst⟩ := exists_firstDomainAt hplace
    rw [leftmostDomain?_eq_some_iff.mpr ⟨j, hfirst⟩] at h
    exact absurd h (by simp)
  · intro h
    cases hleft : leftmostDomain? target with
    | none => rfl
    | some found =>
      obtain ⟨i, hfirst⟩ := leftmostDomain?_eq_some_iff.mp hleft
      exact absurd hfirst.toDomainAt (h i found.1 found.2)

/-! ## Patterns -/

theorem domain?_cons_of_ne (h : c ≠ 'D') (s : Text) : domain? (c :: s) = none := by
  cases hdomain : domain? (c :: s) with
  | none => rfl
  | some found =>
    obtain ⟨hs, _⟩ := domain?_eq_some_iff.mp hdomain
    exact absurd (List.cons.inj hs).1 h

theorem leftmostDomain?_append {front : Text} (h : 'D' ∉ front) (s : Text) :
    leftmostDomain? (front ++ s) = leftmostDomain? s := by
  induction front with
  | nil => rfl
  | cons c front ih =>
    have hne : c ≠ 'D' := fun hc => h (hc ▸ List.mem_cons_self)
    rw [List.cons_append, leftmostDomain?, domain?_cons_of_ne hne]
    exact ih fun hmem => h (List.mem_cons_of_mem c hmem)

theorem leftmostDomain?_of_domain? {found : Text × Text} (h : domain? target = some found) :
    leftmostDomain? target = some found := by
  cases target with
  | nil => exact absurd h (by simp [domain?_nil])
  | cons c s => rw [leftmostDomain?, h]

theorem skip_cases (front s : Text) : s = skip front s ∨ s = front ++ skip front s := by
  rw [skip]
  cases hfront : Text.after? front s with
  | none => exact Or.inl rfl
  | some rest => exact Or.inr (Text.after?_eq_some.mp hfront)

/-- What the anchored pattern passes over: a backslash, `App\`, both or nothing. -/
def leads : List Text := [[], ['\\'], "App\\".toList, "\\App\\".toList]

theorem match?_anchored_eq_some_iff {found : Text × Text} :
    Pattern.anchored.match? target = some found ↔
      ∃ lead ∈ leads, ∃ s, target = lead ++ s ∧ domain? s = some found := by
  constructor
  · intro h
    -- Each of the two parts is there and passed over, or is not there.
    have hlead : ∃ lead ∈ leads, target = lead ++ skip "App\\".toList (skip ['\\'] target) := by
      rcases skip_cases ['\\'] target with hback | hback <;>
        rcases skip_cases "App\\".toList (skip ['\\'] target) with happ | happ
      · exact ⟨[], by decide, hback.trans happ⟩
      · exact ⟨"App\\".toList, by decide, hback.trans happ⟩
      · exact ⟨['\\'], by decide, hback.trans (congrArg _ happ)⟩
      · exact ⟨"\\App\\".toList, by decide, hback.trans (congrArg _ happ)⟩
    obtain ⟨lead, hmem, htarget⟩ := hlead
    exact ⟨lead, hmem, _, htarget, h⟩
  · intro h
    obtain ⟨lead, hmem, s, htarget, hs⟩ := h
    obtain ⟨hreads, _⟩ := domain?_eq_some_iff.mp hs
    have hskip : skip "App\\".toList (skip ['\\'] target) = s := by
      rw [htarget, hreads]
      simp only [leads, List.mem_cons, List.not_mem_nil, or_false] at hmem
      rcases hmem with hmem | hmem | hmem | hmem <;> rw [hmem] <;> rfl
    rw [← hs, ← hskip]
    rfl

/-- Nothing that the anchored pattern passes over can be the start of a match. -/
theorem leftmostDomain?_of_anchored {found : Text × Text}
    (h : Pattern.anchored.match? target = some found) : leftmostDomain? target = some found := by
  obtain ⟨lead, hmem, s, htarget, hs⟩ := match?_anchored_eq_some_iff.mp h
  -- A match starts with this letter.
  have hfree : ∀ lead ∈ leads, 'D' ∉ lead := by decide
  rw [htarget, leftmostDomain?_append (hfree lead hmem)]
  exact leftmostDomain?_of_domain? hs

theorem findSome?_defaultPatterns (target : Text) :
    defaultPatterns.findSome? (·.match? target) = leftmostDomain? target := by
  rw [defaultPatterns, List.findSome?_cons]
  cases hanchored : Pattern.anchored.match? target with
  | some found => exact (leftmostDomain?_of_anchored hanchored).symm
  | none =>
    show List.findSome? _ [Pattern.anywhere] = _
    rw [List.findSome?_singleton]
    rfl

theorem ofPatterns_anywhere (target : Text) :
    ofPatterns [.anywhere] target = ofPatterns defaultPatterns target := by
  rw [ofPatterns, ofPatterns, findSome?_defaultPatterns, List.findSome?_singleton]
  rfl

/-! ## The answers -/

theorem restLayer_eq_contracts_iff :
    restLayer rest = .contracts ↔ "Contracts".toList ∈ (rest.splitOn '\\').dropLast := by
  have hback : '\\' ∉ "Contracts".toList := by decide
  have hsegments : ('\\' :: rest).splitOn '\\' = [] :: rest.splitOn '\\' :=
    List.splitOn_append_cons_self [] rest
  have hpart : Text.hasPart "\\Contracts\\".toList ('\\' :: rest) = true ↔
      "Contracts".toList ∈ (('\\' :: rest).splitOn '\\').tail.dropLast := by
    rw [Text.hasPart_iff]
    exact Text.isInfix_between_iff hback
  rw [hsegments, List.tail_cons] at hpart
  rw [← hpart, restLayer]
  cases Text.hasPart "\\Contracts\\".toList ('\\' :: rest) <;> simp

inductive QualifiedReading (target : Text) : Attempt → Prop
  | noMatch (h : ∀ i name rest, ¬ DomainAt target i name rest) : QualifiedReading target .noMatch
  | rejected {i : Nat} {name rest : Text} (hplace : FirstDomainAt target i name rest)
      (hname : ¬ IsModuleName name) : QualifiedReading target .rejected
  | found {i : Nat} {name rest : Text} {layer : Layer} (hplace : FirstDomainAt target i name rest)
      (hname : IsModuleName name)
      (hlayer : layer = .contracts ↔ "Contracts".toList ∈ (rest.splitOn '\\').dropLast) :
      QualifiedReading target (.found ⟨name, layer, .qualified⟩)

theorem qualifiedReading_ofPatterns (target : Text) :
    QualifiedReading target (ofPatterns defaultPatterns target) := by
  rw [ofPatterns, findSome?_defaultPatterns]
  cases hleft : leftmostDomain? target with
  | none => exact .noMatch (leftmostDomain?_eq_none_iff.mp hleft)
  | some found =>
    obtain ⟨i, hplace⟩ := leftmostDomain?_eq_some_iff.mp hleft
    by_cases hname : IsModuleName found.1
    · simp only [if_neg (isModuleName_iff.mp hname)]
      exact .found hplace hname restLayer_eq_contracts_iff
    · simp only [if_pos (not_isModuleName_iff.mp hname)]
      exact .rejected hplace hname

theorem QualifiedReading.eq_ofPatterns {answer : Attempt} (h : QualifiedReading target answer) :
    ofPatterns defaultPatterns target = answer := by
  rw [ofPatterns, findSome?_defaultPatterns]
  cases h with
  | noMatch hnone => rw [leftmostDomain?_eq_none_iff.mpr hnone]
  | rejected hplace hname =>
    rw [leftmostDomain?_eq_some_iff.mpr ⟨_, hplace⟩]
    exact if_pos (not_isModuleName_iff.mp hname)
  | found hplace hname hlayer =>
    rw [leftmostDomain?_eq_some_iff.mpr ⟨_, hplace⟩]
    simp only [if_neg (isModuleName_iff.mp hname)]
    rw [Layer.eq_of_contracts_iff (restLayer_eq_contracts_iff.trans hlayer.symm)]

end Reference

/-- The default patterns answer as the leftmost place says, and so does the second one alone. -/
theorem Strategy.attempt_patterns_eq_iff (target : Text) :
    (∀ answer, (Strategy.patterns Reference.defaultPatterns).attempt target = answer ↔
      Reference.QualifiedReading target answer) ∧
    (Strategy.patterns [.anywhere]).attempt target =
      (Strategy.patterns Reference.defaultPatterns).attempt target := by
  refine ⟨fun answer => ⟨?_, ?_⟩, Reference.ofPatterns_anywhere target⟩
  · intro h
    rw [← h]
    exact Reference.qualifiedReading_ofPatterns target
  · intro h
    exact h.eq_ofPatterns

example : (Strategy.patterns Reference.defaultPatterns).attempt
    "Domains\\User\\Dto\nDomains\\Billing\\Contracts\\Dto".toList =
      .found ⟨"Billing".toList, .contracts, .qualified⟩ := by decide

end ModuleBoundary
