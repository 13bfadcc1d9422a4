/-
The order of entries does not matter to a rulebook.

Which of several errors is met first does depend on the order.  But whether there is one is seen
from the shape, which is the same in every order (`Reading.IsDocument.reordered`), and what is
read from a document that has the shape is found under names.  So of two documents that differ in
the order of entries only, either both cannot be parsed, or both have the same draft in all that
loading looks at (`Rulebook.ofValue_reordered`).
-/
import ModuleBoundary.Proofs.Rulebook.Routing
import ModuleBoundary.Proofs.Rulebook.Shape
import ModuleBoundary.Proofs.Yaml.Reordering

namespace ModuleBoundary

open Yaml (Value)
open Yaml.Value (Reordered ReorderedPlain)

/-! ## Related options -/

section

variable {α β : Type} {o o' : Option α}

theorem eq_of_rel (h : Option.Rel Eq o o') : o = o' := by
  cases h with
  | none => rfl
  | some h => rw [h]

theorem map_eq_of_rel {R : α → α → Prop} {f : α → β} (h : Option.Rel R o o')
    (hf : ∀ {a b}, R a b → f a = f b) : o.map f = o'.map f := by
  cases h with
  | none => rfl
  | some h => rw [Option.map_some, Option.map_some, hf h]

end

namespace Reading

variable {v w : Value}

/-! ## The shape -/

theorem IsText.reordered (h : Reordered v w) (hv : IsText v) : IsText w := by
  obtain ⟨s, rfl⟩ := hv
  exact ⟨s, h.eq_of_string⟩

theorem IsOptional.reordered {fits : Value → Prop} (h : Reordered v w)
    (hfits : fits v → fits w) (hv : IsOptional fits v) : IsOptional fits w := by
  obtain rfl | hv := hv
  · exact .inl h.eq_of_null
  · exact .inr (hfits hv)

theorem IsMapping.reordered {fits : Text → Value → Prop} (h : Reordered v w)
    (hfits : ∀ name a b, Reordered a b → fits name a → fits name b) (hv : IsMapping fits v) :
    IsMapping fits w := by
  obtain ⟨es, rfl, hall⟩ := hv
  obtain ⟨es', rfl, -⟩ := h.mem_mapping
  obtain ⟨_, heq, hback⟩ := h.symm.mem_mapping
  obtain rfl := Value.mapping.inj heq
  refine ⟨es', rfl, fun e' he' => ?_⟩
  obtain ⟨⟨k, a⟩, he, hkey, hvalue⟩ := hback e' he'
  obtain ⟨name, rfl, ha⟩ := hall _ he
  exact ⟨name, hkey.symm.eq_of_string, hfits name a _ hvalue.symm ha⟩

theorem IsRoots.reordered (h : Reordered v w) : IsRoots v → IsRoots w :=
  IsMapping.reordered h fun _ _ _ h hfits hname => (hfits hname).reordered h (IsText.reordered h)

theorem IsProfile.reordered (h : Reordered v w) : IsProfile v → IsProfile w :=
  IsMapping.reordered h fun _ _ _ h hfits hname => (hfits hname).reordered h (IsRoots.reordered h)

theorem IsProfiles.reordered (h : Reordered v w) : IsProfiles v → IsProfiles w :=
  IsMapping.reordered h fun _ _ _ h hfits => hfits.reordered h (IsProfile.reordered h)

theorem IsBody.reordered (h : Reordered v w) : IsBody v → IsBody w :=
  IsMapping.reordered h fun _ _ _ h hfits hname =>
    (hfits hname).reordered h (IsProfiles.reordered h)

theorem IsDocument.reordered (h : Reordered v w) : IsDocument v → IsDocument w :=
  IsMapping.reordered h fun _ _ _ h hfits hname => (hfits hname).reordered h (IsBody.reordered h)

/-! ## What is read -/

/-- From two plain values in different orders results are read that go together, if both can be
read. -/
def IsStable {α : Type} (S : α → α → Prop) (read : Reading α) : Prop :=
  ∀ {v w a b}, ReorderedPlain v w → read v = .ok a → read w = .ok b → S a b

variable {α σ : Type} {S : α → α → Prop} {read : Reading α}

theorem isStable_text {wanted : Wanted} : IsStable Eq (text wanted) := by
  intro v w s t h hs ht
  rw [text_eq_ok_iff, h.left.untag] at hs
  rw [text_eq_ok_iff, h.right.untag] at ht
  subst hs
  exact (Value.string.inj (ht.symm.trans h.reordered.eq_of_string)).symm

theorem IsStable.optional (hread : IsStable S read) :
    IsStable (Option.Rel S) (optional read) := by
  intro v w r r' h hr hr'
  obtain ⟨rfl, rfl⟩ | ⟨hnull, a, ha, rfl⟩ := optional_eq_ok_iff.mp hr
  · obtain rfl := h.reordered.eq_of_null
    obtain rfl := Except.ok.inj hr'
    exact .none
  · obtain ⟨rfl, -⟩ | ⟨-, b, hb, rfl⟩ := optional_eq_ok_iff.mp hr'
    · exact absurd h.reordered.symm.eq_of_null hnull
    · exact .some (hread h ha hb)

theorem HasSlot.isStable {whole : Reading σ} {name : Text} {slot : σ → Option α}
    (hslot : HasSlot whole name slot read) (hread : IsStable S read) :
    IsStable (fun s s' => Option.Rel S (slot s) (slot s')) whole :=
  fun h hs hs' => hread.optional (h.entry name) (hslot.of_entry h.left hs)
    (hslot.of_entry h.right hs')

theorem isStable_roots : IsStable Eq roots := by
  intro v w d d' h hd hd'
  have hmodule := hasSlot_moduleRoot.isStable isStable_text h hd hd'
  have hshared := hasSlot_sharedRoot.isStable isStable_text h hd hd'
  obtain ⟨moduleRoot, sharedRoot⟩ := d
  obtain ⟨moduleRoot', sharedRoot'⟩ := d'
  rw [RootsDraft.mk.injEq]
  exact ⟨eq_of_rel hmodule, eq_of_rel hshared⟩

theorem isStable_profile : IsStable Eq profile := by
  intro v w d d' h hd hd'
  have hroots := hasSlot_roots.isStable isStable_roots h hd hd'
  obtain ⟨roots⟩ := d
  obtain ⟨roots'⟩ := d'
  rw [ProfileDraft.mk.injEq]
  exact eq_of_rel hroots

/-- Every profile of a map of them can be read. -/
theorem exists_of_profiles {m : Keyed (Option ProfileDraft)} {key : Text} {u : Value}
    (h : v.IsPlain) (hm : profiles v = .ok m) (hget : v.get? key = some u) :
    ∃ d, optional profile u = .ok d := by
  obtain ⟨es, rfl, hmem⟩ := (Value.get?_eq_some_iff h).mp hget
  obtain ⟨hnull, -⟩ | ⟨_, heq, hall, -⟩ := (profiles_eq_ok_iff h).mp hm
  · exact nomatch hnull
  · obtain rfl := Value.mapping.inj heq
    obtain ⟨_, -, hd⟩ := hall _ hmem
    exact hd

theorem isStable_profiles : IsStable Eq profiles := by
  intro v w m m' h hm hm'
  refine Keyed.ext_find? fun key => ?_
  rw [find?_profiles h.left hm, find?_profiles h.right hm']
  cases hget : v.get? key with
  | none =>
    have hrel := h.rel_get? key
    rw [hget] at hrel
    cases hget' : w.get? key with
    | none => rfl
    | some u' => exact nomatch hget' ▸ hrel
  | some u =>
    obtain ⟨u', hget', hu⟩ := h.get?_of_get? hget
    obtain ⟨d, hd⟩ := exists_of_profiles h.left hm hget
    obtain ⟨d', hd'⟩ := exists_of_profiles h.right hm' hget'
    rw [hget', Option.bind_some, Option.bind_some, hd, hd',
      eq_of_rel (isStable_profile.optional hu hd hd')]

end Reading

/-! ## Routing -/

namespace Routing

variable {v w : Value} {o o' : Option Value}

theorem filterMap_asText?_eq {items items' : List Value} (h : List.Forall₂ Reordered items items') :
    items.filterMap Value.asText? = items'.filterMap Value.asText? := by
  induction h with
  | nil => rfl
  | cons h _ ih => rw [List.filterMap_cons, List.filterMap_cons, h.asText?_eq, ih]

theorem globsOf_eq (h : Option.Rel ReorderedPlain o o') : globsOf o = globsOf o' := by
  cases h with
  | none => rfl
  | @some v w h =>
    cases v with
    | sequence items =>
      obtain ⟨items', rfl, hitems⟩ := h.reordered.sequence_items
      exact filterMap_asText?_eq hitems
    | mapping es =>
      obtain ⟨es', rfl, -⟩ := h.reordered.mem_mapping
      rfl
    | _ => rw [h.reordered.eq_of_scalar nofun nofun]

theorem registrationOf_eq (h : Option.Rel ReorderedPlain o o') :
    registrationOf o = registrationOf o' := by
  cases h with
  | none => rfl
  | @some v w h =>
    cases v with
    | sequence items =>
      obtain ⟨items', rfl, -⟩ := h.reordered.sequence_items
      rfl
    | mapping es =>
      obtain ⟨es', rfl, -⟩ := h.reordered.mem_mapping
      rfl
    | _ => rw [h.reordered.eq_of_scalar nofun nofun]

theorem ofValue_eq (h : ReorderedPlain v w) : ofValue v = ofValue w := by
  rw [ofValue, ofValue, globsOf_eq (h.rel_get? _), registrationOf_eq (h.rel_get? _)]

theorem rel_location? (h : ReorderedPlain v w) (key : Text) :
    Option.Rel ReorderedPlain (location? v key) (location? w key) := by
  have hget := h.rel_get? "locations".toList
  rw [location?, location?]
  generalize v.get? "locations".toList = o at hget
  generalize w.get? "locations".toList = o' at hget
  cases hget with
  | none => exact .none
  | some hl => exact hl.rel_get? key

theorem allOf_eq (h : ReorderedPlain v w) : allOf v = allOf w := by
  refine Keyed.ext_find? fun key => ?_
  rw [find?_allOf h.left, find?_allOf h.right]
  exact map_eq_of_rel (rel_location? h key) ofValue_eq

end Routing

/-! ## Loading -/

namespace Reading

def LoadAlike (b b' : BodyDraft) : Prop :=
  b.profiles = b'.profiles ∧ b.routing.map Routing.allOf = b'.routing.map Routing.allOf

theorem isStable_raw : IsStable (fun u u' => Routing.allOf u = Routing.allOf u') raw := by
  intro v w u u' h hu hu'
  rw [raw, h.left.copy?] at hu
  rw [raw, h.right.copy?] at hu'
  obtain rfl := Except.ok.inj hu
  obtain rfl := Except.ok.inj hu'
  exact Routing.allOf_eq h

theorem isStable_body : IsStable LoadAlike body := fun h hb hb' =>
  ⟨eq_of_rel (hasSlot_profiles.isStable isStable_profiles h hb hb'),
    map_eq_of_rel (hasSlot_routing.isStable isStable_raw h hb hb') id⟩

theorem isStable_draft : IsStable (fun d d' => Option.Rel LoadAlike d.body d'.body) Draft.ofValue :=
  hasSlot_body.isStable isStable_body

end Reading

theorem Draft.load_eq {d d' : Draft} (h : Option.Rel Reading.LoadAlike d.body d'.body) :
    d.load = d'.load := by
  obtain ⟨body⟩ := d
  obtain ⟨body'⟩ := d'
  cases h with
  | none => rfl
  | @some b b' hb =>
    cases hprofiles : b.profiles with
    | none =>
      have hprofiles' : b'.profiles = none := hb.1 ▸ hprofiles
      simp only [load, hprofiles, hprofiles']
    | some drafts =>
      rw [load_of_profiles hprofiles, load_of_profiles (hb.1 ▸ hprofiles), hb.2]

namespace Rulebook

variable {v w : Value}

/-- Both results are the same rulebook, or the same list of problems, or both documents cannot be
parsed. -/
inductive SameVerdict : Except ConfigError Rulebook → Except ConfigError Rulebook → Prop
  | loaded (book : Rulebook) : SameVerdict (.ok book) (.ok book)
  | invalid (ps : List Problem) : SameVerdict (.error (.invalid ps)) (.error (.invalid ps))
  | unparsed {r r' : Except ConfigError Rulebook} (h : IsParseFailure r) (h' : IsParseFailure r') :
    SameVerdict r r'

/-- Two documents that differ in the order of entries only, at any depth, have the same verdict. -/
theorem ofValue_reordered (hv : v.IsPlain) (hw : w.IsPlain) (h : Reordered v w) :
    SameVerdict (ofValue v) (ofValue w) := by
  by_cases hshape : Reading.IsOptional Reading.IsDocument v
  · obtain ⟨d, hd⟩ := (Reading.exists_draft_iff hv).mpr hshape
    obtain ⟨d', hd'⟩ := (Reading.exists_draft_iff hw).mpr
      (hshape.reordered h (Reading.IsDocument.reordered h))
    rw [ofValue_of_draft hd, ofValue_of_draft hd',
      Draft.load_eq (Reading.isStable_draft ⟨hv, hw, h⟩ hd hd')]
    cases d'.load with
    | ok book => exact .loaded book
    | error ps => exact .invalid ps
  · have hshape' : ¬Reading.IsOptional Reading.IsDocument w := fun hw =>
      hshape (hw.reordered h.symm (Reading.IsDocument.reordered h.symm))
    refine .unparsed ?_ ?_
    · rwa [isParseFailure_iff, Reading.exists_draft_iff hv]
    · rwa [isParseFailure_iff, Reading.exists_draft_iff hw]

def sections (profiles : List (Value × Value)) : List (Value × Value) :=
  [(.string "clean_plus".toList, .mapping [(.string "profiles".toList, .mapping profiles)]),
    (.string "other".toList, .null)]

def blankProfile : Value × Value :=
  (.string "web".toList, .mapping [(.string "roots".toList, .mapping
    [(.string "module_root".toList, .string []), (.string "shared_contracts_root".toList, .null)])])

def bareProfile : Value × Value := (.string "app".toList, .null)

theorem ofValue_reordered_sections :
    Reordered (.mapping (sections [blankProfile, bareProfile]))
      (.mapping (sections [bareProfile, blankProfile]).reverse) ∧
    SameVerdict (ofValue (.mapping (sections [blankProfile, bareProfile])))
      (ofValue (.mapping (sections [bareProfile, blankProfile]).reverse)) := by
  have hprofiles : Reordered (.mapping [blankProfile, bareProfile])
      (.mapping [bareProfile, blankProfile]) := .perm (.swap _ _ _)
  have hsections : Reordered (.mapping (sections [blankProfile, bareProfile]))
      (.mapping (sections [bareProfile, blankProfile]).reverse) :=
    .trans (.value _ [] _ (.value _ [] [] hprofiles)) (.perm (.swap _ _ _))
  exact ⟨hsections, ofValue_reordered ⟨rfl, by decide⟩ ⟨rfl, by decide⟩ hsections⟩

end Rulebook
end ModuleBoundary
