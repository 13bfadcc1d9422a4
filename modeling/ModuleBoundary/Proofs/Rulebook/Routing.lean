/-
What routing decides in a document, and what it does not.

A document is taken apart into its routing and everything around it (`RoutingFrame`).  Whatever
is put in for the routing, the error or the profiles are the same, provided that the routing can
be copied and is the only entry of its name (`Rulebook.matches_fill`).  The routing checks of a
profile are those of one location of the routing (`Rulebook.routingFor_of_fill`), which says
what they are (`Routing.areOf_location`).
-/
import ModuleBoundary.Proofs.Rulebook.Agreement

namespace ModuleBoundary

open Yaml (Value)

/-! ## A document around its routing -/

/-- A value under tags, the first one outermost. -/
def Yaml.Value.withTags (tags : List Text) (v : Value) : Value := tags.foldr .tagged v

theorem Yaml.Value.untag_withTags (tags : List Text) (v : Value) :
    (v.withTags tags).untag = v.untag := by
  induction tags with
  | nil => rfl
  | cons tag rest ih => exact ih

theorem Yaml.Value.withTags_ne_null {tags : List Text} {es : List (Value × Value)} :
    (Value.mapping es).withTags tags ≠ .null := by
  intro h
  exact nomatch (untag_withTags tags (.mapping es)).symm.trans (congrArg untag h)

/-- A document whose `clean_plus` is a mapping, without the entry of routing in it. -/
structure RoutingFrame where
  documentTags : List Text
  above : List (Value × Value)
  bodyKey : Value
  bodyKey_text : bodyKey.untag = .string "clean_plus".toList
  bodyTags : List Text
  before : List (Value × Value)
  key : Value
  key_text : key.untag = .string "routing".toList
  after : List (Value × Value)
  below : List (Value × Value)

namespace RoutingFrame

def body (f : RoutingFrame) (routing : Option Value) : Value :=
  (Value.mapping (f.before ++ ((routing.map fun w => (f.key, w)).toList ++ f.after))).withTags
    f.bodyTags

def fill (f : RoutingFrame) (routing : Option Value) : Value :=
  (Value.mapping (f.above ++ (f.bodyKey, f.body routing) :: f.below)).withTags f.documentTags

def IsSole (f : RoutingFrame) : Prop :=
  ∀ e ∈ f.before ++ f.after, e.1.untag ≠ .string "routing".toList

end RoutingFrame

namespace Reading

variable {f : RoutingFrame} {w w₁ w₂ : Value}

theorem agreeInBody_body (h : CopiedAlike w₁ w₂) :
    AgreeInBody CopiedAlike (f.body (some w₁)) (f.body (some w₂)) := by
  refine .inr ⟨_, _, Value.untag_withTags _ _, Value.untag_withTags _ _, .replace ?_ ?_ _ _⟩
  · exact fun _ v => ⟨fun _ => .refl v, fun _ => rfl⟩
  · intro name hname
    obtain rfl := Value.string.inj (f.key_text.symm.trans hname)
    exact ⟨fun hprofiles => absurd hprofiles (by decide), fun _ => h⟩

/-- With a routing that can be copied and without any. -/
theorem matches_body_none (h : w.unmark.isProper = true) (hsole : f.IsSole) :
    Matches SameProfiles (body (f.body none)) (body (f.body (some w))) := by
  have hfields (r : Option Value) : body (f.body r) = _ :=
    fields_of_mapping (Value.untag_withTags _ _)
  rw [hfields, hfields]
  refine matches_readFields_insert f.key_text (by decide) List.not_mem_nil hsole ?_ ?_
  · intro b
    obtain ⟨r, hr⟩ := exists_raw h
    refine ⟨{ b with routing := r }, ?_, rfl⟩
    rw [if_neg (by decide), hr]
    rfl
  · intro name hname v b b' hb
    split
    · exact (Matches.refl (fun _ => rfl) _).map fun _ _ => id
    · exact (Matches.refl (fun _ => rfl) _).map fun _ _ _ => hb

def hasCopy (routing : Option Value) : Bool := routing.all fun w => w.unmark.isProper

theorem matches_body_fill {r₁ r₂ : Option Value} (hcopy : hasCopy r₁ = hasCopy r₂)
    (hsole : r₁.isSome = r₂.isSome ∨ f.IsSole) :
    Matches SameProfiles (body (f.body r₁)) (body (f.body r₂)) := by
  match r₁, r₂ with
  | some w₁, some w₂ => exact matches_body (agreeInBody_body hcopy)
  | none, some w₂ => exact matches_body_none hcopy.symm (hsole.resolve_left nofun)
  | some w₁, none =>
    exact (matches_body_none hcopy (hsole.resolve_left nofun)).symm fun _ _ => Eq.symm
  | none, none => exact .refl SameProfiles.refl _

theorem optional_body (f : RoutingFrame) (r : Option Value) :
    optional body (f.body r) = (body (f.body r)).map some :=
  optional_of_ne_null Value.withTags_ne_null

theorem matchInBody_fill {r₁ r₂ : Option Value} (hcopy : hasCopy r₁ = hasCopy r₂)
    (hsole : r₁.isSome = r₂.isSome ∨ f.IsSole) : MatchInBody (f.body r₁) (f.body r₂) := by
  rw [MatchInBody, optional_body, optional_body]
  exact (matches_body_fill hcopy hsole).map fun _ _ => .some

end Reading

namespace Rulebook

open Reading (hasCopy)

variable {f : RoutingFrame}

/-- The routing decides on neither the error nor the profiles. -/
theorem matches_fill {r₁ r₂ : Option Value} (hcopy : hasCopy r₁ = hasCopy r₂)
    (hsole : r₁.isSome = r₂.isSome ∨ f.IsSole) :
    Matches (fun b b' => b.profiles = b'.profiles) (ofValue (f.fill r₁)) (ofValue (f.fill r₂)) := by
  refine matches_ofValue_of_bodies
    (.inr ⟨_, _, Value.untag_withTags _ _, Value.untag_withTags _ _, .replace ?_ ?_ _ _⟩)
  · exact fun _ v _ => .refl v
  · exact fun _ _ _ => Reading.matchInBody_fill hcopy hsole

end Rulebook

/-! ## What is in the routing -/

namespace Routing

open Yaml.Value (get?_eq_some_iff isPlain_sequence_iff isPlain_mapping_iff under_cons_iff
  under_singleton_iff isPlain_of_get?)

variable {w u l : Value} {key : Text}

def location? (w : Value) (key : Text) : Option Value :=
  (w.get? "locations".toList).bind (·.get? key)

theorem find?_allOf (h : w.IsPlain) (key : Text) :
    (allOf w).find? key = (location? w key).map ofValue := by
  have htext (es : List (Value × Value)) :
      (es.filterMap fun e => e.1.asText?.map fun key => (key, ofValue e.2)) =
        Reading.textEntries (fun u => some (ofValue u)) es := by
    rw [Reading.textEntries]
    congr
    funext e
    cases Value.asText? e.1 <;> rfl
  rw [allOf, location?]
  cases hget : w.get? "locations".toList with
  | none => rfl
  | some l =>
    have hl := isPlain_of_get? h hget
    simp only [Option.bind_some, Value.asMapping?, hl.untag]
    cases l with
    | mapping es =>
      simp only [htext, Reading.find?_textEntries hl]
      cases Value.get? (.mapping es) key <;> rfl
    | tagged tag v => exact absurd hl.isUntagged Value.not_isUntagged_tagged
    | _ => rfl

theorem under_locations_iff (h : w.IsPlain) {path : List Text} :
    Value.Under ("locations".toList :: key :: path) w u ↔
      ∃ l, location? w key = some l ∧ Value.Under path l u := by
  simp only [under_cons_iff h, location?, Option.bind_eq_some_iff]
  constructor
  · rintro ⟨l, hl, hu⟩
    obtain ⟨u, hu, hpath⟩ := (under_cons_iff (isPlain_of_get? h hl)).mp hu
    exact ⟨u, ⟨l, hl, hu⟩, hpath⟩
  · rintro ⟨u, ⟨l, hl, hu⟩, hpath⟩
    exact ⟨l, hl, (under_cons_iff (isPlain_of_get? h hl)).mpr ⟨u, hu, hpath⟩⟩

theorem isPlain_of_location? (h : w.IsPlain) (hl : location? w key = some l) : l.IsPlain := by
  obtain ⟨ls, hls, hl⟩ := Option.bind_eq_some_iff.mp hl
  exact isPlain_of_get? (isPlain_of_get? h hls) hl

def text? : Value → Option Text
  | .string s => some s
  | _ => .none

/-- The checks are what the location of the profile says: the texts of its sequence of patterns,
in their order, and its registration, if that is a text that is not blank. -/
structure AreOf (w : Value) (key : Text) (checks : Routing) : Prop where
  globs : ∀ items,
    Value.Under ["locations".toList, key, "forbidden_route_definition_glob".toList] w
      (.sequence items) → checks.globs = items.filterMap text?
  no_globs : (∀ items,
    ¬Value.Under ["locations".toList, key, "forbidden_route_definition_glob".toList] w
      (.sequence items)) → checks.globs = []
  registration : ∀ path, checks.registration = some path ↔
    ∃ s, Value.Under ["locations".toList, key, "registration_location".toList] w (.string s) ∧
      Text.trim s ≠ [] ∧ path = ⟨Text.trim s⟩

theorem globsOf_sequence {items : List Value} (h : ∀ v ∈ items, v.IsPlain) :
    globsOf (some (.sequence items)) = items.filterMap text? := by
  refine List.filterMap_congr fun v hv => ?_
  rw [Value.asText?, (h v hv).untag]
  cases v <;> rfl

theorem globsOf_eq_nil {o : Option Value} (h : ∀ items, o ≠ some (.sequence items)) :
    globsOf o = [] := by
  rw [globsOf]
  exact h

theorem registrationOf_eq_some_iff {o : Option Value} {path : Path} :
    registrationOf o = some path ↔
      ∃ s, o = some (.string s) ∧ Text.trim s ≠ [] ∧ path = ⟨Text.trim s⟩ := by
  unfold registrationOf
  split
  · next s =>
    by_cases hblank : Text.trim s = []
    · rw [if_pos hblank]
      refine iff_of_false nofun ?_
      rintro ⟨_, ⟨⟩, hne, -⟩
      exact hne hblank
    · rw [if_neg hblank]
      constructor
      · intro h
        exact ⟨s, rfl, hblank, (Option.some.inj h).symm⟩
      · rintro ⟨_, ⟨⟩, -, rfl⟩
        rfl
  · next hne => exact iff_of_false nofun fun ⟨s, hs, _⟩ => hne s hs

theorem areOf_location (h : w.IsPlain) (key : Text) :
    AreOf w key (((location? w key).map ofValue).getD .none) := by
  cases hl : location? w key with
  | none =>
    have hno {path : List Text} {u : Value} :
        ¬Value.Under ("locations".toList :: key :: path) w u := by
      rw [under_locations_iff h, hl]
      exact fun ⟨_, hnone, _⟩ => nomatch hnone
    exact ⟨fun items hu => absurd hu hno, fun _ => rfl,
      fun path => iff_of_false nofun fun ⟨_, hu, _⟩ => hno hu⟩
  | some l =>
    have hplain := isPlain_of_location? h hl
    have hunder {name : Text} {u : Value} :
        Value.Under ["locations".toList, key, name] w u ↔ l.get? name = some u := by
      rw [under_locations_iff h, hl]
      simp only [Option.some.injEq, exists_eq_left', under_singleton_iff hplain]
    refine ⟨fun items hu => ?_, fun hno => ?_, fun path => ?_⟩
    · have hget := hunder.mp hu
      have hitems := isPlain_sequence_iff.mp (isPlain_of_get? hplain hget)
      show globsOf _ = _
      rw [hget, globsOf_sequence hitems]
    · exact globsOf_eq_nil fun items hget => hno items (hunder.mpr hget)
    · simp only [hunder]
      exact registrationOf_eq_some_iff

theorem location?_eq_some_iff (h : w.IsPlain) :
    location? w key = some l ↔ Value.Under ["locations".toList, key] w l := by
  rw [under_locations_iff h]
  exact ⟨fun hl => ⟨l, hl, rfl⟩, fun ⟨_, hl, heq⟩ => heq ▸ hl⟩

end Routing

/-! ## The routing of a rulebook -/

namespace Reading

variable {f : RoutingFrame} {w : Value} {r : Option Value}

theorem body_of_fill {d : Draft} (h : Draft.ofValue (f.fill r) = .ok d) :
    optional body (f.body r) = .ok d.body :=
  hasSlot_body.of_mem (Value.untag_withTags _ _) (List.mem_append_right _ List.mem_cons_self)
    f.bodyKey_text h

theorem routing_of_body {b : BodyDraft} (h : body (f.body (some w)) = .ok b) :
    optional raw w = .ok b.routing :=
  hasSlot_routing.of_mem (Value.untag_withTags _ _) (List.mem_append_right _ List.mem_cons_self)
    f.key_text h

/-- Null counts as no routing, and is none either. -/
theorem allOf_of_raw (h : w.IsPlain) (hr : optional raw w = .ok r) :
    (r.map Routing.allOf).getD .empty = Routing.allOf w := by
  obtain ⟨rfl, rfl⟩ | ⟨-, u, hu, rfl⟩ := optional_eq_ok_iff.mp hr
  · rfl
  · rw [raw, h.copy?] at hu
    obtain rfl := Except.ok.inj hu
    rfl

end Reading

namespace Rulebook

open Reading (hasCopy)

variable {f : RoutingFrame} {w : Value} {book : Rulebook}

theorem routing_of_load {d : Draft} (h : d.load = .ok book) :
    ∃ b, d.body = some b ∧ book.routing = (b.routing.map Routing.allOf).getD .empty := by
  obtain ⟨drafts, ⟨b, hbody, hprofiles⟩, -⟩ := Draft.isHeldBy_of_load h
  obtain ⟨body⟩ := d
  obtain rfl : body = some b := hbody
  rw [Draft.load_of_profiles hprofiles] at h
  obtain ⟨profiles, -, rfl⟩ := map_eq_ok_iff.mp h
  exact ⟨b, rfl, rfl⟩

theorem routing_of_fill (hw : w.IsPlain) (h : ofValue (f.fill (some w)) = .ok book) :
    book.routing = Routing.allOf w := by
  obtain ⟨d, hd, hload⟩ := ofValue_eq_ok_iff.mp h
  obtain ⟨b, hbody, hrouting⟩ := routing_of_load hload
  have hread : Reading.optional Reading.body (f.body (some w)) = .ok (some b) :=
    hbody ▸ Reading.body_of_fill hd
  rw [Reading.optional_body, map_eq_ok_iff] at hread
  obtain ⟨_, hb, heq⟩ := hread
  obtain rfl := Option.some.inj heq
  rw [hrouting, Reading.allOf_of_raw hw (Reading.routing_of_body hb)]

theorem routingFor_of_fill (hw : w.IsPlain) (h : ofValue (f.fill (some w)) = .ok book)
    (key : Text) :
    book.routingFor key = ((Routing.location? w key).map Routing.ofValue).getD .none := by
  rw [routingFor, routing_of_fill hw h, Routing.find?_allOf hw]

/-- What stands around the routing decides on the error and on the profiles alone: two documents
that differ in their routing have the same, unless just one of the routings can be copied, or just
one document has a routing, and this is not the only entry of its name.  The checks of a profile
are what its location in the routing says, whatever the other locations are. -/
theorem routing_apart (f : RoutingFrame) :
    (∀ r₁ r₂, hasCopy r₁ = hasCopy r₂ → r₁.isSome = r₂.isSome ∨ f.IsSole →
      Matches (fun b b' => b.profiles = b'.profiles) (ofValue (f.fill r₁)) (ofValue (f.fill r₂))) ∧
    (∀ w book, w.IsPlain → ofValue (f.fill (some w)) = .ok book →
      ∀ key, Routing.AreOf w key (book.routingFor key)) ∧
    ∀ (g : RoutingFrame) w w' book book', w.IsPlain → w'.IsPlain →
      ofValue (f.fill (some w)) = .ok book → ofValue (g.fill (some w')) = .ok book' →
      ∀ key, (∀ l, Value.Under ["locations".toList, key] w l ↔
        Value.Under ["locations".toList, key] w' l) →
      book.routingFor key = book'.routingFor key := by
  refine ⟨fun r₁ r₂ => matches_fill, fun w book hw h key => ?_, ?_⟩
  · rw [routingFor_of_fill hw h]
    exact Routing.areOf_location hw key
  · intro g w w' book book' hw hw' h h' key hsame
    have hlocation : Routing.location? w key = Routing.location? w' key := Option.ext fun l => by
      rw [Routing.location?_eq_some_iff hw, Routing.location?_eq_some_iff hw', hsame]
    rw [routingFor_of_fill hw h, routingFor_of_fill hw' h', hlocation]

def profileFrame (beside : List (Value × Value)) : RoutingFrame where
  documentTags := []
  above := []
  bodyKey := .string "clean_plus".toList
  bodyKey_text := rfl
  bodyTags := []
  before := (.string "profiles".toList, .mapping [(.string "app".toList, .mapping
    [(.string "roots".toList, .mapping
      [(.string "module_root".toList, .string "m".toList)])])]) :: beside
  key := .string "routing".toList
  key_text := rfl
  after := []
  below := []

theorem isSole_profileFrame : (profileFrame []).IsSole := by
  intro e he hkey
  obtain rfl := List.mem_singleton.mp he
  exact absurd (Value.string.inj hkey) (by decide)

def twoLocations (other : Value) : Value :=
  .mapping [(.string "locations".toList, .mapping [(.string "app".toList, .mapping
      [(.string "forbidden_route_definition_glob".toList,
          .sequence [.string "routes/*.php".toList, .int 1]),
        (.string "registration_location".toList, .string " routes.php ".toList)]),
    (.string "web".toList, other)])]

theorem routing_apart_profileFrame :
    Matches (fun b b' => b.profiles = b'.profiles) (ofValue ((profileFrame []).fill none))
      (ofValue ((profileFrame []).fill (some (.int 1)))) ∧
    ∃ book book', ofValue ((profileFrame []).fill (some (twoLocations .null))) = .ok book ∧
      ofValue ((profileFrame []).fill (some (twoLocations (.int 1)))) = .ok book' ∧
      Routing.AreOf (twoLocations .null) "app".toList (book.routingFor "app".toList) ∧
      book.routingFor "app".toList = book'.routingFor "app".toList := by
  have hnull : (twoLocations .null).IsPlain := ⟨rfl, by decide⟩
  have hother : (twoLocations (.int 1)).IsPlain := ⟨rfl, by decide⟩
  obtain ⟨hmatches, hchecks, hsame⟩ := routing_apart (profileFrame [])
  refine ⟨hmatches none (some (.int 1)) rfl (.inr isSole_profileFrame), ?_⟩
  have hok : (ofValue ((profileFrame []).fill (some (twoLocations .null)))).isOk = true := by
    decide +kernel
  have hok' : (ofValue ((profileFrame []).fill (some (twoLocations (.int 1))))).isOk = true := by
    decide +kernel
  cases h : ofValue ((profileFrame []).fill (some (twoLocations .null))) with
  | error e => exact nomatch h ▸ hok
  | ok book =>
    cases h' : ofValue ((profileFrame []).fill (some (twoLocations (.int 1)))) with
    | error e => exact nomatch h' ▸ hok'
    | ok book' =>
      refine ⟨book, book', rfl, rfl, hchecks _ book hnull h _, ?_⟩
      refine hsame (profileFrame []) _ _ book book' hnull hother h h' _ fun u => ?_
      rw [← Routing.location?_eq_some_iff hnull, ← Routing.location?_eq_some_iff hother]
      exact Iff.rfl

/-- Two keys that differ in a mark of their tags. -/
def twinKeys : Value :=
  .mapping [(.tagged "a".toList (.string "x".toList), .int 1),
    (.tagged "!a".toList (.string "x".toList), .int 2)]

/-- Neither proviso can be spared: beside a second entry of its name, a routing is refused that
would not be missed, and so is a routing of which there is no copy. -/
theorem not_forall_matches_fill :
    (¬∀ (f : RoutingFrame) (r₁ r₂ : Option Value), hasCopy r₁ = hasCopy r₂ →
      Matches (fun b b' => b.profiles = b'.profiles) (ofValue (f.fill r₁)) (ofValue (f.fill r₂))) ∧
    ¬∀ (f : RoutingFrame) (r₁ r₂ : Option Value), f.IsSole →
      Matches (fun b b' => b.profiles = b'.profiles) (ofValue (f.fill r₁)) (ofValue (f.fill r₂)) := by
  constructor
  · intro h
    have htwo := (h (profileFrame [(.tagged "a".toList (.string "routing".toList), .int 1)]) none
      (some (.int 2)) rfl).isOk_eq
    exact absurd htwo (by decide +kernel)
  · intro h
    have htwins :=
      (h (profileFrame []) (some (.int 1)) (some twinKeys) isSole_profileFrame).isOk_eq
    exact absurd htwins (by decide +kernel)

end Rulebook
end ModuleBoundary
