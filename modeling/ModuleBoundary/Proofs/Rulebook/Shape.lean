/-
Which documents have the shape of a rulebook.

The shape is given level by level (`Reading.IsDocument`), and a level can be read if and only if
it has its shape.  A document without tags is refused for its shape exactly if it is not empty
and does not have this shape, and every other refusal lists problems (`Rulebook.ofValue_shape`).
-/
import ModuleBoundary.Proofs.Rulebook.Agreement

namespace ModuleBoundary

open Yaml (Value)

namespace Reading

variable {α β : Type} {v w u : Value}

/-! ## The shape -/

def IsRoots : Value → Prop :=
  IsMapping fun name w =>
    name ∈ ["module_root".toList, "shared_contracts_root".toList] → IsOptional IsText w

def IsProfile : Value → Prop :=
  IsMapping fun name w => name = "roots".toList → IsOptional IsRoots w

def IsProfiles : Value → Prop := IsMapping fun _ w => IsOptional IsProfile w

def IsBody : Value → Prop :=
  IsMapping fun name w => name = "profiles".toList → IsOptional IsProfiles w

def IsDocument : Value → Prop :=
  IsMapping fun name w => name = "clean_plus".toList → IsOptional IsBody w

/-! ## What can be read -/

theorem exists_map_iff {ε : Type} {x : Except ε α} {f : α → β} :
    (∃ b, x.map f = .ok b) ↔ ∃ a, x = .ok a := by
  cases x with
  | error e => exact iff_of_false nofun nofun
  | ok a => exact iff_of_true ⟨f a, rfl⟩ ⟨a, rfl⟩

/-- A reading that takes null for nothing may be made optional. -/
theorem exists_optional_of_iff {read : Reading α} {fits : Value → Prop}
    (h : (∃ a, read v = .ok a) ↔ IsOptional fits v) :
    (∃ r, optional read v = .ok r) ↔ IsOptional fits v := by
  rw [exists_optional_iff, IsOptional, h, IsOptional, ← or_assoc, or_self]

theorem exists_roots_iff (h : v.IsPlain) : (∃ d, roots v = .ok d) ↔ IsOptional IsRoots v := by
  refine exists_fields_iff h (fun name hname w h => absurd h hname) fun name hname w hw d => ?_
  have htext : (∃ r, optional (text .text) w = .ok r) ↔ IsOptional IsText w :=
    exists_optional_iff.trans (or_congr_right (exists_text_iff hw))
  rw [imp_iff_right hname, ← htext]
  split
  · exact exists_map_iff
  · exact exists_map_iff

theorem exists_profile_iff (h : v.IsPlain) :
    (∃ d, profile v = .ok d) ↔ IsOptional IsProfile v := by
  refine exists_fields_iff h (fun name hname w h => ?_) fun name hname w hw d => ?_
  · exact absurd (List.mem_singleton.mpr h) hname
  · rw [imp_iff_right (List.mem_singleton.mp hname)]
    exact exists_map_iff.trans (exists_optional_of_iff (exists_roots_iff hw))

theorem exists_body_iff (h : v.IsPlain) : (∃ b, body v = .ok b) ↔ IsOptional IsBody v := by
  refine exists_fields_iff h (fun name hname w h => ?_) fun name hname w hw b => ?_
  · exact absurd (List.mem_cons.mpr (.inl h)) hname
  · by_cases hprofiles : name = "profiles".toList
    · have hread : (∃ m, profiles w = .ok m) ↔ IsOptional IsProfiles w :=
        exists_profiles_iff hw fun w hw => exists_optional_of_iff (exists_profile_iff hw)
      rw [if_pos hprofiles, imp_iff_right hprofiles]
      exact exists_map_iff.trans (exists_optional_of_iff hread)
    · have hcopy : w.unmark.isProper = true := by
        rw [Value.unmark_of_isUntagged w hw.isUntagged]
        exact hw.isProper
      rw [if_neg hprofiles]
      exact iff_of_true (exists_map_iff.mpr (exists_raw hcopy)) fun h => absurd h hprofiles

theorem exists_draft_iff (h : v.IsPlain) :
    (∃ d, Draft.ofValue v = .ok d) ↔ IsOptional IsDocument v := by
  refine exists_fields_iff h (fun name hname w h => ?_) fun name hname w hw d => ?_
  · exact absurd (List.mem_singleton.mpr h) hname
  · rw [imp_iff_right (List.mem_singleton.mp hname)]
    exact exists_map_iff.trans (exists_optional_of_iff (exists_body_iff hw))

/-! ## Along a path -/

/-- What stands under a name of a mapping fits there. -/
theorem IsMapping.under {fits : Text → Value → Prop} {name : Text} {path : List Text}
    (h : IsMapping fits v) (hu : Value.Under (name :: path) v u) :
    ∃ w, fits name w ∧ Value.Under path w u := by
  obtain ⟨es, rfl, hall⟩ := h
  obtain ⟨_, w, heq, hmem, hw⟩ := hu
  obtain rfl := Value.mapping.inj heq
  obtain ⟨_, hname, hfits⟩ := hall _ hmem
  obtain rfl := Value.string.inj hname
  exact ⟨w, hfits, hw⟩

theorem IsOptional.under {fits : Text → Value → Prop} {name : Text} {path : List Text}
    (h : IsOptional (IsMapping fits) v) (hu : Value.Under (name :: path) v u) :
    ∃ w, fits name w ∧ Value.Under path w u := by
  obtain rfl | h := h
  · obtain ⟨_, _, h, -⟩ := hu
    exact nomatch h
  · exact h.under hu

/-- Every root of a document that has the shape is a text, or left out. -/
theorem IsDocument.root {key root : Text} (h : IsOptional IsDocument v)
    (hroot : root ∈ ["module_root".toList, "shared_contracts_root".toList])
    (hu : Value.Under ["clean_plus".toList, "profiles".toList, key, "roots".toList, root] v u) :
    IsOptional IsText u := by
  obtain ⟨body, hbody, hu⟩ := h.under hu
  obtain ⟨profiles, hprofiles, hu⟩ := (hbody rfl).under hu
  obtain ⟨profile, hprofile, hu⟩ := (hprofiles rfl).under hu
  obtain ⟨roots, hroots, hu⟩ := hprofile.under hu
  obtain ⟨_, htext, rfl⟩ := (hroots rfl).under hu
  exact htext hroot

end Reading

/-! ## Refusals -/

namespace Rulebook

open Reading

variable {v : Value}

def IsParseFailure (result : Except ConfigError Rulebook) : Prop :=
  ∃ e, result = .error e ∧ e.code = "clean_plus::config::parse".toList

theorem isParseFailure_iff : IsParseFailure (ofValue v) ↔ ¬∃ d, Draft.ofValue v = .ok d := by
  cases h : Draft.ofValue v with
  | error e =>
    rw [ofValue_of_no_draft h]
    exact iff_of_true ⟨_, rfl, rfl⟩ nofun
  | ok d =>
    refine iff_of_false ?_ (not_not_intro ⟨d, rfl⟩)
    rw [ofValue_of_draft h]
    rintro ⟨e, he, hcode⟩
    cases hload : d.load with
    | error ps =>
      rw [hload] at he
      obtain rfl := Except.error.inj he
      have hne : "clean_plus::config::invalid".toList ≠ "clean_plus::config::parse".toList := by
        decide
      exact hne hcode
    | ok book =>
      rw [hload] at he
      exact nomatch he

theorem invalid_of_draft {d : Draft} {e : ConfigError} (h : Draft.ofValue v = .ok d)
    (he : ofValue v = .error e) : ∃ ps, e = .invalid ps := by
  rw [ofValue_of_draft h] at he
  cases hload : d.load with
  | error ps =>
    rw [hload] at he
    exact ⟨ps, (Except.error.inj he).symm⟩
  | ok book =>
    rw [hload] at he
    exact nomatch he

/-- A document without tags cannot be parsed if and only if it is not null and does not have the
shape of a rulebook; if it has, the only refusal is a list of problems.  So one root that is no
text is never reported among missing entries.  Of two documents that agree in the fields, the
values under other names and under `routing` change neither the error nor the profiles. -/
theorem ofValue_shape (v : Value) :
    (∀ s, Value.ofText? s = some v → v.isUntagged = true → v.IsPlain ∧ ofText s = ofValue v) ∧
    (v.IsPlain →
      (IsParseFailure (ofValue v) ↔ v ≠ .null ∧ ¬IsDocument v) ∧
      (v = .null ∨ IsDocument v → ∀ e, ofValue v = .error e → ∃ ps, e = .invalid ps) ∧
      (∀ key root w, root ∈ ["module_root".toList, "shared_contracts_root".toList] →
        Value.Under ["clean_plus".toList, "profiles".toList, key, "roots".toList, root] v w →
        w ≠ .null → ¬IsText w → IsParseFailure (ofValue v)) ∧
      ∀ w, w.IsPlain → AgreeInDocument (fun _ _ => True) v w →
        Matches (fun b b' => b.profiles = b'.profiles) (ofValue v) (ofValue w)) := by
  refine ⟨fun s hs huntagged => ⟨⟨huntagged, Value.isProper_of_ofText? hs⟩, ?_⟩, fun h => ?_⟩
  · rw [ofText, hs]
  · refine ⟨?_, fun hshape e he => ?_, fun key root w hroot hu hnull htext => ?_, ?_⟩
    · rw [isParseFailure_iff, exists_draft_iff h, IsOptional, not_or]
    · obtain ⟨d, hd⟩ := (exists_draft_iff h).mpr hshape
      exact invalid_of_draft hd he
    · rw [isParseFailure_iff, exists_draft_iff h]
      intro hshape
      exact (IsDocument.root hshape hroot hu).elim hnull htext
    · exact fun w hw hagree => matches_ofValue (hagree.of_isPlain h hw)

def twoProfiles (moduleRoot other : Value) : Value :=
  .mapping [(.string "clean_plus".toList, .mapping [(.string "profiles".toList, .mapping
      [(.string "app".toList, .null), (.string "web".toList, .mapping [(.string "roots".toList,
        .mapping [(.string "module_root".toList, moduleRoot)])])])]),
    (.string "other".toList, other)]

theorem ofValue_shape_twoProfiles :
    (∃ v, Value.ofText? "clean_plus: {profiles: 1}".toList = some v ∧
      ofText "clean_plus: {profiles: 1}".toList = ofValue v) ∧
    IsParseFailure (ofValue (twoProfiles (.int 1) .null)) ∧
    (∃ ps, ofValue (twoProfiles (.string "w".toList) .null) = .error (.invalid ps)) ∧
    Matches (fun b b' => b.profiles = b'.profiles) (ofValue (twoProfiles (.int 1) .null))
      (ofValue (twoProfiles (.int 1) (.bool true))) := by
  have hwrong : (twoProfiles (.int 1) .null).IsPlain := ⟨rfl, by decide⟩
  have hother : (twoProfiles (.int 1) (.bool true)).IsPlain := ⟨rfl, by decide⟩
  have hmissing : (twoProfiles (.string "w".toList) .null).IsPlain := ⟨rfl, by decide⟩
  refine ⟨?_, ?_, ?_, ?_⟩
  · have huntagged :
        (Value.ofText? "clean_plus: {profiles: 1}".toList).any Value.isUntagged = true := by
      decide +kernel
    obtain ⟨v, hv, htags⟩ := (Option.any_eq_true _ _).mp huntagged
    exact ⟨v, hv, ((ofValue_shape v).1 _ hv htags).2⟩
  · refine ((ofValue_shape _).2 hwrong).2.2.1 "web".toList "module_root".toList (.int 1) (by decide)
      ?_ nofun nofun
    exact ⟨_, _, rfl, .head _, _, _, rfl, .head _, _, _, rfl, .tail _ (.head _), _, _, rfl, .head _,
      _, _, rfl, .head _, rfl⟩
  · have herror : (ofValue (twoProfiles (.string "w".toList) .null)).isOk = false := by
      decide +kernel
    cases hresult : ofValue (twoProfiles (.string "w".toList) .null) with
    | ok book => exact nomatch hresult ▸ herror
    | error e =>
      have hshape : IsOptional IsDocument (twoProfiles (.string "w".toList) .null) :=
        (exists_draft_iff hmissing).mp ⟨_, rfl⟩
      obtain ⟨ps, rfl⟩ := ((ofValue_shape _).2 hmissing).2.1 hshape e hresult
      exact ⟨ps, rfl⟩
  · refine ((ofValue_shape _).2 hwrong).2.2.2 _ hother
      (.inr ⟨_, _, rfl, rfl, .cons ?_ (.cons ?_ .nil)⟩)
    · exact ⟨rfl, fun _ _ _ => .inl rfl⟩
    · refine ⟨rfl, fun name hname hclean => ?_⟩
      obtain rfl := Value.string.inj hname
      exact absurd hclean (by decide)

end Rulebook
end ModuleBoundary
