/-
A `use` line that is read by offsets into its bytes.

Here the alias and the braces are searched for in the bytes, the alias in a copy in lower case,
and every part is a slice from one offset to another one (`ByOffset.targets?`).  A slice that is
out of range, or that ends in the middle of a character, gives `none`.  There is no such slice,
and the parts are the ones that cutting characters gives (`ByOffset.slices_in_range`).
-/
import ModuleBoundary.Proofs.Import.Places
import ModuleBoundary.Proofs.Text.Offsets

namespace ModuleBoundary
namespace Import
namespace Use

open Text (IsBoundary IsSolid slice?)
open Utf8 (encode)

namespace ByOffset

def withoutAlias? (item : Text) : Option Text :=
  let item := Text.trim item
  match Utf8.find? (encode asWord) (Utf8.lower (encode item)) with
  | some i => (slice? item 0 i).map Text.trimEnd
  | none => some item

/-- The offsets of the first opening brace and of the last closing one, if they stand in this
order. -/
def braces? (body : Text) : Option (Nat × Nat) := do
  let left ← Utf8.find? (encode ['{']) (encode body)
  let right ← Utf8.findLast? (encode ['}']) (encode body)
  if left < right then some (left, right) else none

def bodyTargets? (body : Text) : Option (List Text) :=
  match braces? body with
  | some (left, right) => do
    let front ← slice? body 0 left
    let inner ← slice? body (left + 1) right
    let members ← (inner.splitOn ',').mapM withoutAlias?
    some (members.filterMap fun member =>
      if member = [] then none else some (Text.trim front ++ member))
  | none => do
    let target ← withoutAlias? body
    some (if target = [] then [] else [target])

def targets? (line : Text) : Option (List Text) :=
  match Text.after? "use ".toList (Text.trim line) with
  | none => some []
  | some rest =>
    let rest := Text.dropBlanks rest
    if isOther rest then some []
    else bodyTargets? (Text.trim (rest.takeWhile (· != ';')))

/-! ## Aliases -/

theorem ascii_asWord : ∀ c ∈ asWord, c.toNat < 0x80 := by
  have hall : (asWord.all fun c => decide (c.toNat < 0x80)) = true := by decide
  intro c hc
  exact of_decide_eq_true (List.all_eq_true.mp hall c hc)

theorem asWord_ne_nil : asWord ≠ [] := by decide

/-- Where an alias is found in lower case, the text has a boundary. -/
theorem isBoundary_of_find? {s : Text} {i : Nat}
    (h : Utf8.find? (encode asWord) (Utf8.lower (encode s)) = some i) : IsBoundary s i := by
  have hoccurs := List.find?_some h
  rw [← Utf8.encode_lower, Utf8.occursAt_encode_iff ascii_asWord asWord_ne_nil] at hoccurs
  obtain ⟨a, b, hlower, ha⟩ := hoccurs
  obtain ⟨front, behind, hs, hfront, _⟩ := List.map_eq_append_iff.mp hlower
  refine ⟨front, behind, hs, ?_⟩
  rw [← ha, ← hfront]
  exact (Utf8.length_encode_lower front).symm

theorem withoutAlias?_eq (s : Text) : withoutAlias? s = some (withoutAlias s) := by
  rw [withoutAlias?, ← Utf8.encode_lower]
  rcases withoutAlias_cases s with ⟨hcut, heq⟩ | ⟨a, rest, hcut, heq⟩
  · have hfind := Utf8.find?_encode_eq_none ascii_asWord asWord_ne_nil (not_infix_of_cutAt? hcut)
    simp only [hfind, heq]
  · obtain ⟨⟨b, hb⟩, hfirst⟩ := lower_eq_of_cutAt? hcut
    have hfind := Utf8.find?_encode ascii_asWord asWord_ne_nil hb hfirst
    obtain ⟨suffix, hs, _⟩ := Text.cutAt?_eq_some hcut
    have hslice : slice? (Text.trim s) 0 (encode (Text.lower a)).length = some a :=
      Text.slice?_eq_some_iff.mpr ⟨[], suffix, hs, rfl, (Utf8.length_encode_lower a).symm⟩
    simp only [hfind, hslice, heq, Option.map_some]

/-! ## Braces -/

theorem ascii_left : ∀ c ∈ ['{'], c.toNat < 0x80 := List.forall_mem_singleton.mpr (by decide)

theorem ascii_right : ∀ c ∈ ['}'], c.toNat < 0x80 := List.forall_mem_singleton.mpr (by decide)

/-- A pair of braces in order is on boundaries, and the first one ends on one. -/
theorem isBoundary_of_braces? {body : Text} {left right : Nat}
    (h : braces? body = some (left, right)) :
    left < right ∧ IsBoundary body left ∧ IsBoundary body (left + 1) ∧ IsBoundary body right := by
  simp only [braces?, Option.bind_eq_bind, Option.bind_eq_some_iff] at h
  obtain ⟨l, hleft, r, hright, heq⟩ := h
  by_cases hlt : l < r
  · rw [if_pos hlt] at heq
    obtain ⟨rfl, rfl⟩ := Prod.mk.inj (Option.some.inj heq)
    obtain ⟨a, b, hbody, ha⟩ := (Utf8.occursAt_encode_iff ascii_left (List.cons_ne_nil _ _)).mp
      (List.find?_some hleft)
    obtain ⟨x, y, hbody', hx⟩ := (Utf8.occursAt_encode_iff ascii_right (List.cons_ne_nil _ _)).mp
      (List.find?_some hright)
    refine ⟨hlt, ⟨a, _, hbody, ha⟩, ⟨a ++ ['{'], b, ?_, ?_⟩, ⟨x, _, hbody', hx⟩⟩
    · rw [hbody, List.append_assoc]
    · rw [Utf8.encode_append, List.length_append, ha]
      rfl
  · rw [if_neg hlt] at heq
    exact absurd heq (by simp)

theorem find?_left {front : Text} (h : '{' ∉ front) (rest : Text) :
    Utf8.find? (encode ['{']) (encode (front ++ '{' :: rest)) = some (encode front).length :=
  Utf8.find?_encode ascii_left (List.cons_ne_nil _ _) rfl fun _ _ hother =>
    Text.length_le_of_not_mem h hother

theorem findLast?_right {behind : Text} (h : '}' ∉ behind) (front : Text) :
    Utf8.findLast? (encode ['}']) (encode (front ++ '}' :: behind)) =
      some (encode front).length :=
  Utf8.findLast?_encode ascii_right (List.cons_ne_nil _ _) rfl fun _ _ hother =>
    Text.length_le_of_not_mem_behind h hother

theorem braces?_of_group? {body front inner : Text} (h : group? body = some (front, inner)) :
    braces? body =
      some ((encode front).length, (encode (front ++ '{' :: inner)).length) := by
  obtain ⟨behind, hbody, hfront, hbehind⟩ := group?_eq_some h
  have hright : body = (front ++ '{' :: inner) ++ '}' :: behind := by
    rw [hbody]
    simp
  have hlast := findLast?_right hbehind (front ++ '{' :: inner)
  rw [← hright] at hlast
  have hlt : (encode front).length < (encode (front ++ '{' :: inner)).length := by
    rw [Utf8.encode_append, List.length_append]
    have hpos := Utf8.length_utf8EncodeChar_pos '{'
    rw [Utf8.encode_cons, List.length_append]
    omega
  rw [braces?, hlast, hbody, find?_left hfront (inner ++ '}' :: behind)]
  exact if_pos hlt

theorem braces?_eq_none {body : Text} (h : group? body = none) : braces? body = none := by
  rw [group?] at h
  rw [braces?]
  cases hcut : Text.cut? '{' body with
  | none =>
    have hleft : ¬ ['{'] <:+: body := fun hpart =>
      Text.not_mem_of_cut?_eq_none hcut (hpart.subset List.mem_cons_self)
    rw [Utf8.find?_encode_eq_none ascii_left (List.cons_ne_nil _ _) hleft]
    rfl
  | some cut =>
    obtain ⟨front, rest⟩ := cut
    obtain ⟨hbody, hfront⟩ := Text.cut?_eq_some hcut
    cases hlast : Text.cutLast? '}' body with
    | none =>
      have hright : ¬ ['}'] <:+: body := fun hpart =>
        Text.not_mem_of_cutLast?_eq_none hlast (hpart.subset List.mem_cons_self)
      rw [Utf8.findLast?_encode_eq_none ascii_right (List.cons_ne_nil _ _) hright]
      cases Utf8.find? (encode ['{']) (encode body) <;> rfl
    | some last =>
      obtain ⟨front', behind⟩ := last
      obtain ⟨hbody', hbehind⟩ := Text.cutLast?_eq_some hlast
      -- The last closing brace is not behind the first opening one.
      have hrest : '}' ∉ rest := by
        apply Text.not_mem_of_cutLast?_eq_none
        rw [hcut] at h
        cases hinner : Text.cutLast? '}' rest with
        | none => rfl
        | some inner => exact absurd h (by simp [hinner])
      have hle := Text.length_le_of_not_mem_behind hrest (hbody.symm.trans hbody')
      have hoffset := Utf8.length_encode_le hbody' hbody hle
      have hleft := find?_left hfront rest
      have hright := findLast?_right hbehind front'
      rw [← hbody] at hleft
      rw [← hbody'] at hright
      rw [hleft, hright]
      exact if_neg (Nat.not_lt_of_le hoffset)

theorem bodyTargets?_eq (body : Text) : bodyTargets? body = some (bodyTargets body) := by
  rw [bodyTargets?, bodyTargets]
  cases hgroup : group? body with
  | none =>
    rw [braces?_eq_none hgroup]
    simp only [withoutAlias?_eq, Option.bind_eq_bind, Option.bind_some]
  | some group =>
    obtain ⟨front, inner⟩ := group
    obtain ⟨behind, hbody, _⟩ := group?_eq_some hgroup
    have hfront : slice? body 0 (encode front).length = some front :=
      Text.slice?_eq_some_iff.mpr ⟨[], _, hbody, rfl, rfl⟩
    have hinner : slice? body ((encode front).length + 1)
        (encode (front ++ '{' :: inner)).length = some inner := by
      refine Text.slice?_eq_some_iff.mpr ⟨front ++ ['{'], '}' :: behind, ?_, ?_, ?_⟩
      · rw [hbody]
        simp
      · rw [Utf8.encode_append, List.length_append]
        rfl
      · rw [List.append_assoc]
        rfl
    have hmembers : (inner.splitOn ',').mapM withoutAlias? =
        some ((inner.splitOn ',').map withoutAlias) := by
      have hread : withoutAlias? = fun item => pure (withoutAlias item) := funext withoutAlias?_eq
      rw [hread]
      exact List.mapM_pure
    rw [braces?_of_group? hgroup]
    simp only [hfront, hinner, hmembers, Option.bind_eq_bind, Option.bind_some]

theorem targets?_eq (line : Text) : targets? line = some (targets line) := by
  rw [targets?, targets]
  cases Text.after? "use ".toList (Text.trim line) with
  | none => rfl
  | some rest =>
    by_cases hother : isOther (Text.dropBlanks rest) = true
    · simp only [if_pos hother]
    · simp only [if_neg hother, bodyTargets?_eq]

end ByOffset

/-! ## Targets -/

theorem isSolid_of_mem_bodyTargets {body target : Text} (h : target ∈ bodyTargets body) :
    IsSolid target := by
  rw [bodyTargets] at h
  cases hgroup : group? body with
  | none =>
    rw [hgroup] at h
    by_cases hnil : withoutAlias body = []
    · exact absurd h (by simp [hnil])
    · have htarget : target = withoutAlias body := by simpa [hnil] using h
      rw [htarget]
      exact (withoutAlias_solid body).resolve_left hnil
  | some group =>
    rw [hgroup] at h
    obtain ⟨member, hmember, heq⟩ := List.mem_filterMap.mp h
    by_cases hnil : member = []
    · exact absurd heq (by simp [hnil])
    rw [if_neg hnil] at heq
    obtain ⟨item, _, rfl⟩ := List.mem_map.mp hmember
    have hsolid := (withoutAlias_solid item).resolve_left hnil
    rw [← Option.some.inj heq]
    rcases Text.trim_cases group.1 with hfront | hfront
    · rw [hfront]
      exact hsolid
    · exact hfront.append hsolid []

theorem isSolid_of_mem_targets {line target : Text} (h : target ∈ targets line) :
    IsSolid target := by
  obtain ⟨_, _, _, hbody⟩ := mem_targets_iff.mp h
  exact isSolid_of_mem_bodyTargets hbody

theorem semicolon_not_mem_of_mem_targets {line target : Text} (h : target ∈ targets line) :
    ';' ∉ target := by
  obtain ⟨rest, _, _, hbody⟩ := mem_targets_iff.mp h
  intro hmem
  have htrim := (Text.isInfix_trim _).subset (subset_of_mem_bodyTargets hbody hmem)
  have hfree := List.all_eq_true.mp List.all_takeWhile ';' htrim
  exact absurd hfree (by decide)

/-- Reading by offsets slices only on boundaries and never fails.  An alias that is found in lower
case is on a boundary of the trimmed item, and what stands in front of it is what is left of the
item: a beginning with nothing to trim and no alias in it, the whole item if it has none, and the
same if the alias is taken away again.  The braces are on boundaries, in order.  The targets that
come out are those of the line; none is empty, has a blank at an end, or holds a semicolon. -/
theorem ByOffset.slices_in_range :
    (∀ (item : Text) (i : Nat),
      Utf8.find? (encode asWord) (Utf8.lower (encode (Text.trim item))) = some i →
        IsBoundary (Text.trim item) i) ∧
    (∀ item : Text, withoutAlias? item = some (withoutAlias item) ∧
      withoutAlias item <+: Text.trim item ∧
      (withoutAlias item = [] ∨ IsSolid (withoutAlias item)) ∧
      ¬ asWord <:+: Text.lower (withoutAlias item) ∧
      (¬ asWord <:+: Text.lower (Text.trim item) → withoutAlias item = Text.trim item) ∧
      withoutAlias (withoutAlias item) = withoutAlias item) ∧
    (∀ (body : Text) (left right : Nat), braces? body = some (left, right) →
      left < right ∧ IsBoundary body left ∧ IsBoundary body (left + 1) ∧
        IsBoundary body right) ∧
    (∀ line : Text, targets? line = some (targets line) ∧
      ∀ target ∈ targets line, IsSolid target ∧ ';' ∉ target) := by
  refine ⟨?_, ?_, ?_, ?_⟩
  · intro item i h
    exact isBoundary_of_find? h
  · intro item
    exact ⟨withoutAlias?_eq item, isPrefix_withoutAlias item, withoutAlias_solid item,
      not_infix_withoutAlias item, withoutAlias_eq_trim, withoutAlias_withoutAlias item⟩
  · intro body left right h
    exact isBoundary_of_braces? h
  · intro line
    refine ⟨targets?_eq line, fun target htarget => ?_⟩
    exact ⟨isSolid_of_mem_targets htarget, semicolon_not_mem_of_mem_targets htarget⟩

/-- Names in characters of two bytes, with an alias in capitals and without one, and as the
prefix of a group. -/
theorem ByOffset.slices_in_range_wide :
    (Utf8.find? (encode asWord)
        (Utf8.lower (encode (Text.trim "\u00a0Größe\\Maß  AS M ".toList))) = some 13 ∧
      IsBoundary (Text.trim "\u00a0Größe\\Maß  AS M ".toList) 13) ∧
    (¬ asWord <:+: Text.lower (Text.trim "Maß\t".toList) ∧
      withoutAlias "Maß\t".toList = Text.trim "Maß\t".toList) ∧
    (braces? "Ä\\\x7bB\x7d".toList = some (3, 5) ∧
      IsBoundary "Ä\\\x7bB\x7d".toList 3 ∧ IsBoundary "Ä\\\x7bB\x7d".toList 5) ∧
    ("Ä\\B".toList ∈ targets "use Ä\\\x7bB\x7d;".toList ∧
      IsSolid "Ä\\B".toList ∧ ';' ∉ "Ä\\B".toList) := by
  obtain ⟨hfind, hitem, hbraces, hline⟩ := slices_in_range
  have halias : Utf8.find? (encode asWord)
      (Utf8.lower (encode (Text.trim "\u00a0Größe\\Maß  AS M ".toList))) = some 13 := by decide
  have hnone : ¬ asWord <:+: Text.lower (Text.trim "Maß\t".toList) := by decide
  have hpair : braces? "Ä\\\x7bB\x7d".toList = some (3, 5) := by decide
  have htarget : "Ä\\B".toList ∈ targets "use Ä\\\x7bB\x7d;".toList := by decide
  obtain ⟨_, _, _, _, htrim, _⟩ := hitem "Maß\t".toList
  obtain ⟨_, hleft, _, hright⟩ := hbraces _ 3 5 hpair
  exact ⟨⟨halias, hfind _ 13 halias⟩, ⟨hnone, htrim hnone⟩, ⟨hpair, hleft, hright⟩,
    htarget, (hline _).2 _ htarget⟩

end Use
end Import
end ModuleBoundary
