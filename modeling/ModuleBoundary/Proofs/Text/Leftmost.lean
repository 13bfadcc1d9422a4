/-
The leftmost place of a form in a line.

A test that is made at every place holds behind some beginning of the line (`somewhere_iff`).  A
place of a form is what stands in front of a match (`Places`), and the search finds one that no
place is shorter than (`firstAtWordStart?_eq_some_iff`).  It goes through the line character
by character: a place behind the first character is a place in the rest of the line, seen from
there.
-/
import ModuleBoundary.Text.Form

namespace ModuleBoundary
namespace Text

variable {α : Type} {form : Text → Option α} {inWord : Bool}

/-- A word can start behind `pre`.  `inWord` says whether the character in front of `pre` is a
word character. -/
def StartsWord (inWord : Bool) (pre : Text) : Prop := (pre.getLast?.map isWord).getD inWord = false

instance (inWord : Bool) (pre : Text) : Decidable (StartsWord inWord pre) :=
  inferInstanceAs (Decidable (_ = false))

theorem startsWord_cons (c : Char) (pre : Text) :
    StartsWord inWord (c :: pre) ↔ StartsWord (isWord c) pre := by
  cases pre with
  | nil => exact Iff.rfl
  | cons d pre =>
    rw [StartsWord, StartsWord, List.getLast?_cons_cons]
    cases h : (d :: pre).getLast? with
    | none => exact absurd (List.getLast?_eq_none_iff.mp h) (List.cons_ne_nil d pre)
    | some e => exact Iff.rfl

theorem startsWord_false {pre : Text} :
    StartsWord false pre ↔ ∀ c, pre.getLast? = some c → isWord c = false := by
  rw [StartsWord]
  cases pre.getLast? <;> simp

/-- A test holds somewhere in a text if it holds behind one of its beginnings.  It is told there
whether a word can start. -/
theorem somewhere_iff {test : Bool → Text → Bool} (hnil : ∀ wordStart, test wordStart [] = false)
    {s : Text} : somewhere test inWord s = true ↔
      ∃ pre rest, s = pre ++ rest ∧ test (decide (StartsWord inWord pre)) rest = true := by
  induction s generalizing inWord with
  | nil =>
    constructor
    · intro h
      exact absurd h (by simp [somewhere])
    · intro h
      obtain ⟨pre, rest, hs, htest⟩ := h
      rw [(List.append_eq_nil_iff.mp hs.symm).2, hnil] at htest
      exact absurd htest (by simp)
  | cons c s ih =>
    have hfront : decide (StartsWord inWord []) = !inWord := by cases inWord <;> rfl
    rw [somewhere_cons, Bool.or_eq_true, ih]
    constructor
    · intro h
      rcases h with h | h
      · exact ⟨[], c :: s, rfl, hfront ▸ h⟩
      · obtain ⟨pre, rest, hs, htest⟩ := h
        have hstart : StartsWord inWord (c :: pre) ↔ StartsWord (isWord c) pre := startsWord_cons c pre
        simp only [← hstart] at htest
        exact ⟨c :: pre, rest, congrArg (c :: ·) hs, htest⟩
    · intro h
      obtain ⟨pre, rest, hs, htest⟩ := h
      cases pre with
      | nil =>
        rw [hfront] at htest
        exact Or.inl (hs ▸ htest)
      | cons d pre =>
        obtain ⟨hd, hrest⟩ := List.cons.inj hs
        simp only [startsWord_cons, ← hd] at htest
        exact Or.inr ⟨pre, rest, hrest, htest⟩

def Places (form : Text → Option α) (inWord : Bool) (s pre : Text) (a : α) : Prop :=
  StartsWord inWord pre ∧ ∃ rest, s = pre ++ rest ∧ form rest = some a

/-- The form matches at a place that no place is shorter than. -/
def Leads (form : Text → Option α) (inWord : Bool) (s : Text) (a : α) : Prop :=
  ∃ pre, Places form inWord s pre a ∧
    ∀ pre' a', Places form inWord s pre' a' → pre.length ≤ pre'.length

/-- What the search looks at in front. -/
theorem places_nil {s : Text} {a : α} :
    Places form inWord s [] a ↔ (if inWord = true then none else form s) = some a := by
  constructor
  · intro h
    obtain ⟨hstart, rest, hs, hform⟩ := h
    change inWord = false at hstart
    rw [hstart, hs]
    exact hform
  · intro h
    cases inWord with
    | true => exact absurd h (by simp)
    | false => exact ⟨rfl, s, rfl, h⟩

theorem places_cons {c d : Char} {s pre : Text} {a : α} :
    Places form inWord (c :: s) (d :: pre) a ↔ d = c ∧ Places form (isWord c) s pre a := by
  rw [Places, startsWord_cons]
  constructor
  · intro h
    obtain ⟨hstart, rest, hs, hform⟩ := h
    obtain ⟨hd, hrest⟩ := List.cons.inj hs
    rw [← hd] at hstart
    exact ⟨hd.symm, hstart, rest, hrest, hform⟩
  · intro h
    obtain ⟨hd, hstart, rest, hs, hform⟩ := h
    rw [hd, hs]
    exact ⟨hstart, rest, rfl, hform⟩

/-- Where nothing matches in front, the search goes on behind the first character. -/
theorem leads_cons {c : Char} {s : Text} {a : α}
    (h : ∀ b, ¬ Places form inWord (c :: s) [] b) :
    Leads form inWord (c :: s) a ↔ Leads form (isWord c) s a := by
  constructor
  · intro hleads
    obtain ⟨pre, hpre, hshort⟩ := hleads
    cases pre with
    | nil => exact absurd hpre (h a)
    | cons d pre =>
      refine ⟨pre, (places_cons.mp hpre).2, fun pre' a' hpre' => ?_⟩
      have hle := hshort (c :: pre') a' (places_cons.mpr ⟨rfl, hpre'⟩)
      simpa using hle
  · intro hleads
    obtain ⟨pre, hpre, hshort⟩ := hleads
    refine ⟨c :: pre, places_cons.mpr ⟨rfl, hpre⟩, fun pre' a' hpre' => ?_⟩
    cases pre' with
    | nil => exact absurd hpre' (h a')
    | cons d pre' =>
      have hle := hshort pre' a' (places_cons.mp hpre').2
      simpa using hle

variable (hnil : form [] = none)
include hnil

theorem not_places_of_nil {pre : Text} {a : α} : ¬ Places form inWord [] pre a := by
  intro h
  obtain ⟨_, rest, hs, hform⟩ := h
  rw [(List.append_eq_nil_iff.mp hs.symm).2, hnil] at hform
  exact absurd hform (by simp)

theorem firstAtWordStart?_eq_some_iff {s : Text} {a : α} :
    firstAtWordStart? form inWord s = some a ↔ Leads form inWord s a := by
  induction s generalizing inWord with
  | nil =>
    constructor
    · intro h
      exact absurd h (by simp [firstAtWordStart?])
    · intro h
      obtain ⟨pre, hpre, _⟩ := h
      exact absurd hpre (not_places_of_nil hnil)
  | cons c s ih =>
    rw [firstAtWordStart?]
    cases hfront : (if inWord = true then none else form (c :: s)) with
    | some b =>
      have hplace : Places form inWord (c :: s) [] b := places_nil.mpr hfront
      constructor
      · intro h
        refine ⟨[], ?_, fun _ _ _ => Nat.zero_le _⟩
        rw [← Option.some.inj h]
        exact hplace
      · intro h
        obtain ⟨pre, hpre, hshort⟩ := h
        have hlength : pre = [] := List.length_eq_zero_iff.mp (Nat.le_zero.mp (hshort [] b hplace))
        rw [hlength, places_nil, hfront] at hpre
        exact hpre
    | none =>
      rw [leads_cons]
      · exact ih
      · intro b hplace
        rw [places_nil, hfront] at hplace
        exact absurd hplace (by simp)

/-- The search finds something in every line that has a place of the form. -/
theorem isSome_firstAtWordStart?_iff {s : Text} :
    (firstAtWordStart? form inWord s).isSome = true ↔ ∃ pre a, Places form inWord s pre a := by
  constructor
  · intro h
    obtain ⟨a, ha⟩ := Option.isSome_iff_exists.mp h
    obtain ⟨pre, hpre, _⟩ := (firstAtWordStart?_eq_some_iff hnil).mp ha
    exact ⟨pre, a, hpre⟩
  · intro h
    obtain ⟨pre, a, hpre⟩ := h
    induction s generalizing inWord pre with
    | nil => exact absurd hpre (not_places_of_nil hnil)
    | cons c s ih =>
      rw [firstAtWordStart?]
      cases hfront : (if inWord = true then none else form (c :: s)) with
      | some b => rfl
      | none =>
        cases pre with
        | nil =>
          rw [places_nil, hfront] at hpre
          exact absurd hpre (by simp)
        | cons d pre => exact ih pre (places_cons.mp hpre).2

end Text
end ModuleBoundary
