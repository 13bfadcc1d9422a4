/-
An item without its alias.

An alias begins at the first ` as `, in any case, and what is left of an item is what stands in
front of that, without blanks at its ends (`withoutAlias_cases`).  So there is nothing to trim and
no alias in what is left, and taking the alias away a second time changes nothing
(`withoutAlias_withoutAlias`).
-/
import ModuleBoundary.Import.Use
import ModuleBoundary.Proofs.Text.Cutting
import ModuleBoundary.Proofs.Text.LetterCase
import ModuleBoundary.Proofs.Text.Trimming

namespace ModuleBoundary
namespace Import
namespace Use

open Text (IsSolid)

/-! ## Where an alias begins -/

def asWord : Text := " as ".toList

theorem afterAs?_of_ne {c : Char} (hc : c ≠ ' ') (t : Text) : afterAs? (c :: t) = none := by
  rw [afterAs?, if_neg]
  intro hlower
  exact hc (Text.eq_of_toLower_eq_space (List.cons.inj hlower).1)

theorem afterAs?_of_isBlank {d : Char} (hd : Text.isBlank d = true) (c : Char) (t : Text) :
    afterAs? (c :: d :: t) = none := by
  rw [afterAs?, if_neg]
  intro hlower
  have hsecond : d.toLower = 'a' := (List.cons.inj (List.cons.inj hlower).2).1
  have hnat := Text.toNat_toLower d
  have hblank := Text.toNat_of_isBlank hd
  rw [hsecond] at hnat
  change 97 = _ at hnat
  split at hnat
  · omega
  · have hd' : d = 'a' := Char.toNat_inj.mp hnat.symm
    rw [hd'] at hd
    exact absurd hd (by decide)

theorem afterAs?_keyword {keyword : Text} (h : Text.lower keyword = "as".toList) (rest : Text) :
    afterAs? (' ' :: (keyword ++ ' ' :: rest)) = some rest := by
  obtain ⟨a, more, hkeyword, ha, hmore⟩ := List.map_eq_cons_iff.mp h
  obtain ⟨b, none, hrest, hb, hnone⟩ := List.map_eq_cons_iff.mp hmore
  rw [hkeyword, hrest, List.map_eq_nil_iff.mp hnone, afterAs?, if_pos]
  · rfl
  · show [Char.toLower ' ', a.toLower, b.toLower, Char.toLower ' '] = _
    rw [ha, hb]
    rfl

theorem isSome_afterAs?_iff {s : Text} :
    (afterAs? s).isSome = true ↔ asWord <+: Text.lower s := by
  have htake : Text.lower (s.take 4) = (Text.lower s).take 4 := List.map_take
  rw [List.prefix_iff_eq_take, afterAs?, htake]
  by_cases h : (Text.lower s).take 4 = " as ".toList
  · rw [if_pos h]
    exact ⟨fun _ => h.symm, fun _ => rfl⟩
  · rw [if_neg h]
    exact ⟨fun hsome => absurd hsome (by simp), fun heq => absurd heq.symm h⟩

/-- In lower case an alias is where the cut is, and no alias comes before it. -/
theorem lower_eq_of_cutAt? {s a rest : Text} (h : Text.cutAt? afterAs? s = some (a, rest)) :
    (∃ b, Text.lower s = Text.lower a ++ (asWord ++ b)) ∧
      ∀ a' b', Text.lower s = a' ++ (asWord ++ b') → (Text.lower a).length ≤ a'.length := by
  constructor
  · obtain ⟨suffix, hs, hsuffix⟩ := Text.cutAt?_eq_some h
    have hsome : (afterAs? suffix).isSome = true := by rw [hsuffix]; rfl
    obtain ⟨b, hb⟩ := isSome_afterAs?_iff.mp hsome
    refine ⟨b, ?_⟩
    rw [hb, hs]
    exact List.map_append
  · intro a' b' hlower
    obtain ⟨front, behind, hs, hfront, hbehind⟩ := List.map_eq_append_iff.mp hlower
    have hsome := isSome_afterAs?_iff.mpr ⟨b', hbehind.symm⟩
    have hle := Text.length_le_of_cutAt? h hs hsome
    rw [Text.lower, List.length_map, ← hfront, List.length_map]
    exact hle

theorem not_infix_of_cutAt? {s : Text} (h : Text.cutAt? afterAs? s = none) :
    ¬ asWord <:+: Text.lower s := by
  intro halias
  obtain ⟨a, b, hlower⟩ := halias
  rw [List.append_assoc] at hlower
  obtain ⟨front, behind, hs, _, hbehind⟩ := List.map_eq_append_iff.mp hlower.symm
  have hsome := isSome_afterAs?_iff.mpr ⟨b, hbehind.symm⟩
  rw [Text.eq_none_of_cutAt? h hs] at hsome
  exact absurd hsome (by simp)

/-- No alias is left in front of the first one. -/
theorem not_infix_lower_of_cutAt? {s a rest : Text}
    (h : Text.cutAt? afterAs? s = some (a, rest)) : ¬ asWord <:+: Text.lower a := by
  intro halias
  obtain ⟨x, y, hlower⟩ := halias
  obtain ⟨⟨b, hb⟩, hfirst⟩ := lower_eq_of_cutAt? h
  have hs : Text.lower s = x ++ (asWord ++ (y ++ (asWord ++ b))) := by
    rw [hb, ← hlower]
    simp
  have hle := hfirst x _ hs
  have hlength := congrArg List.length hlower
  rw [List.length_append, List.length_append] at hlength
  have hfour : asWord.length = 4 := rfl
  omega

/-! ## What is left -/

theorem withoutAlias_cases (s : Text) :
    (Text.cutAt? afterAs? (Text.trim s) = none ∧ withoutAlias s = Text.trim s) ∨
      ∃ a rest, Text.cutAt? afterAs? (Text.trim s) = some (a, rest) ∧
        withoutAlias s = Text.trimEnd a := by
  rw [withoutAlias]
  cases hcut : Text.cutAt? afterAs? (Text.trim s) with
  | none => exact Or.inl ⟨rfl, rfl⟩
  | some r => exact Or.inr ⟨r.1, r.2, rfl, rfl⟩

theorem isPrefix_withoutAlias (s : Text) : withoutAlias s <+: Text.trim s := by
  rcases withoutAlias_cases s with ⟨_, heq⟩ | ⟨a, rest, hcut, heq⟩
  · exact heq ▸ List.prefix_rfl
  · obtain ⟨suffix, hs, _⟩ := Text.cutAt?_eq_some hcut
    rw [heq]
    exact (Text.isPrefix_trimEnd a).trans ⟨suffix, hs.symm⟩

theorem isInfix_withoutAlias (item : Text) : withoutAlias item <:+: item :=
  (isPrefix_withoutAlias item).isInfix.trans (Text.isInfix_trim item)

/-- What is left has nothing to trim. -/
theorem withoutAlias_solid (s : Text) : withoutAlias s = [] ∨ IsSolid (withoutAlias s) := by
  rcases withoutAlias_cases s with ⟨_, heq⟩ | ⟨a, rest, hcut, heq⟩
  · rw [heq]
    exact Text.trim_cases s
  · obtain ⟨suffix, hs, hsuffix⟩ := Text.cutAt?_eq_some hcut
    rw [heq]
    cases a with
    | nil => exact Or.inl rfl
    | cons c a =>
      have hsolid := (Text.trim_cases s).resolve_left (by rw [hs]; exact List.cons_ne_nil c _)
      obtain ⟨d, rest', hd, hblank⟩ := hsolid.first
      rw [hs] at hd
      obtain ⟨rfl, _⟩ := List.cons.inj hd
      exact Or.inr (Text.isSolid_trimEnd_cons hblank a)

theorem not_infix_withoutAlias (s : Text) : ¬ asWord <:+: Text.lower (withoutAlias s) := by
  rcases withoutAlias_cases s with ⟨hcut, heq⟩ | ⟨a, rest, hcut, heq⟩
  · rw [heq]
    exact not_infix_of_cutAt? hcut
  · rw [heq]
    intro halias
    have hpart : Text.lower (Text.trimEnd a) <+: Text.lower a := (Text.isPrefix_trimEnd a).map _
    exact not_infix_lower_of_cutAt? hcut (halias.trans hpart.isInfix)

theorem withoutAlias_eq_trim {s : Text} (h : ¬ asWord <:+: Text.lower (Text.trim s)) :
    withoutAlias s = Text.trim s := by
  rcases withoutAlias_cases s with ⟨_, heq⟩ | ⟨a, rest, hcut, _⟩
  · exact heq
  · obtain ⟨⟨b, hb⟩, _⟩ := lower_eq_of_cutAt? hcut
    refine absurd ?_ h
    rw [hb]
    exact ⟨Text.lower a, b, List.append_assoc _ _ _⟩

theorem withoutAlias_withoutAlias (s : Text) :
    withoutAlias (withoutAlias s) = withoutAlias s := by
  have htrim : Text.trim (withoutAlias s) = withoutAlias s := by
    rcases withoutAlias_solid s with hnil | hsolid
    · rw [hnil]
      rfl
    · exact hsolid.trim_eq
  rw [withoutAlias_eq_trim, htrim]
  rw [htrim]
  exact not_infix_withoutAlias s

end Use
end Import
end ModuleBoundary
