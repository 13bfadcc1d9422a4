/-
What a map holds that is built from a list of entries.

The entries of a map ascend strictly, so looking up and being an entry are the same
(`mem_entries_iff`), two lists of keys that ascend and have the same keys are one list
(`eq_of_ascending`), and two maps with the same values under all keys are one map
(`ext_find?`).  Of several entries with one key the last one counts
(`find?_ofList_eq_some_iff`), and no key is lost (`mem_keys_ofList`).
-/
import Mathlib.Data.List.Induction
import Mathlib.Data.List.Sort
import ModuleBoundary.Keyed

namespace ModuleBoundary
namespace Keyed

variable {α : Type} {m : Keyed α} {l : List (Text × α)} {key : Text} {a : α}

/-! ## Looking up -/

theorem lookup_eq_find? (key : Text) (l : List (Text × α)) :
    lookup key l = (l.find? (·.1 = key)).map Prod.snd := by
  induction l with
  | nil => rfl
  | cons e rest ih =>
    rw [lookup, ih]
    by_cases h : e.1 = key <;> simp [h]

/-- The first entry with the key is found. -/
theorem lookup_eq_some_iff :
    lookup key l = some a ↔ ∃ before behind, l = before ++ (key, a) :: behind ∧
      ∀ e ∈ before, e.1 ≠ key := by
  rw [lookup_eq_find?, Option.map_eq_some_iff]
  constructor
  · rintro ⟨⟨k, b⟩, hfind, rfl⟩
    obtain ⟨hkey, before, behind, hl, hbefore⟩ := List.find?_eq_some_iff_append.mp hfind
    obtain rfl : k = key := by simpa using hkey
    exact ⟨before, behind, hl, by simpa using hbefore⟩
  · rintro ⟨before, behind, hl, hbefore⟩
    refine ⟨(key, a), List.find?_eq_some_iff_append.mpr ⟨by simp, before, behind, hl, ?_⟩, rfl⟩
    simpa using hbefore

theorem lookup_eq_none_iff : lookup key l = none ↔ ∀ e ∈ l, e.1 ≠ key := by
  rw [lookup_eq_find?, Option.map_eq_none_iff, List.find?_eq_none]
  simp

/-! ## Entries -/

theorem mem_entries_iff : (key, a) ∈ m.entries ↔ m.find? key = some a := by
  rw [find?, lookup_eq_some_iff]
  constructor
  · intro h
    obtain ⟨before, behind, hl⟩ := List.append_of_mem h
    refine ⟨before, behind, hl, fun e he heq => ?_⟩
    have hless := (List.pairwise_append.mp (hl ▸ m.ascending)).2.2 e he _ List.mem_cons_self
    exact List.lt_irrefl key (heq ▸ hless)
  · rintro ⟨before, behind, hl, _⟩
    rw [hl]
    exact List.mem_append_right before List.mem_cons_self

theorem keys_ascending (m : Keyed α) : m.keys.Pairwise (· < ·) :=
  List.pairwise_map.mpr m.ascending

theorem nodup_of_ascending {keys : List Text} (h : keys.Pairwise (· < ·)) : keys.Nodup := by
  refine List.Pairwise.imp ?_ h
  rintro k _ hlt rfl
  exact List.lt_irrefl k hlt

/-- Keys in ascending order are decided by which keys there are. -/
theorem eq_of_ascending {keys keys' : List Text} (h : keys.Pairwise (· < ·))
    (h' : keys'.Pairwise (· < ·)) (hmem : ∀ k, k ∈ keys ↔ k ∈ keys') : keys = keys' := by
  have hperm : keys.Perm keys' :=
    (List.perm_ext_iff_of_nodup (nodup_of_ascending h) (nodup_of_ascending h')).mpr hmem
  exact hperm.eq_of_pairwise (fun a b _ _ hab hba => absurd hba (List.lt_asymm hab)) h h'

/-- A map is what can be looked up in it. -/
theorem ext_find? {m m' : Keyed α} (h : ∀ key, m.find? key = m'.find? key) : m = m' := by
  let before (d e : Text × α) : Prop := d.1 < e.1
  have : Std.Irrefl before := ⟨fun e => List.lt_irrefl e.1⟩
  have : Std.Antisymm before := ⟨fun _ _ hab hba => absurd hba (List.lt_asymm hab)⟩
  have hentries : m.entries = m'.entries := by
    refine List.Pairwise.eq_of_mem_iff (r := before) m.ascending m'.ascending fun e => ?_
    rw [mem_entries_iff, mem_entries_iff, h]
  obtain ⟨entries, _⟩ := m
  obtain ⟨entries', _⟩ := m'
  congr

/-! ## Maps of lists -/

/-- Of the entries with one key the last one counts. -/
theorem find?_ofList (l : List (Text × α)) (key : Text) :
    (ofList l).find? key = lookup key l.reverse := by
  induction l using List.reverseRecOn with
  | nil => rfl
  | append_singleton l e ih =>
    rw [ofList, List.foldl_append, ← ofList, List.foldl_cons, List.foldl_nil, find?_insert, ih,
      List.reverse_concat, lookup]

theorem find?_ofList_eq_some_iff :
    (ofList l).find? key = some a ↔ ∃ before behind, l = before ++ (key, a) :: behind ∧
      ∀ e ∈ behind, e.1 ≠ key := by
  rw [find?_ofList, lookup_eq_some_iff]
  constructor
  · rintro ⟨behind, before, hl, hbehind⟩
    refine ⟨before.reverse, behind.reverse, ?_, fun e he => hbehind e (List.mem_reverse.mp he)⟩
    rw [← List.reverse_reverse l, hl]
    simp
  · rintro ⟨before, behind, rfl, hbehind⟩
    exact ⟨behind.reverse, before.reverse, by simp, fun e he => hbehind e (List.mem_reverse.mp he)⟩

theorem find?_ofList_eq_none_iff : (ofList l).find? key = none ↔ ∀ e ∈ l, e.1 ≠ key := by
  rw [find?_ofList, lookup_eq_none_iff]
  simp only [List.mem_reverse]

/-- Without a key that comes twice every entry counts. -/
theorem find?_ofList_of_nodup (h : (l.map Prod.fst).Nodup) :
    (ofList l).find? key = some a ↔ (key, a) ∈ l := by
  rw [find?_ofList_eq_some_iff]
  constructor
  · rintro ⟨before, behind, rfl, _⟩
    exact List.mem_append_right before List.mem_cons_self
  · intro hmem
    obtain ⟨before, behind, rfl⟩ := List.append_of_mem hmem
    refine ⟨before, behind, rfl, fun e he heq => ?_⟩
    rw [List.map_append, List.map_cons, List.nodup_append] at h
    exact (List.nodup_cons.mp h.2.1).1 (List.mem_map.mpr ⟨e, he, heq⟩)

theorem mem_keys_ofList : key ∈ (ofList l).keys ↔ ∃ e ∈ l, e.1 = key := by
  have hkey : key ∈ (ofList l).keys ↔ (ofList l).find? key ≠ none := by
    rw [keys, List.mem_map, Option.ne_none_iff_exists']
    constructor
    · rintro ⟨⟨k, a⟩, he, rfl⟩
      exact ⟨a, mem_entries_iff.mp he⟩
    · rintro ⟨a, ha⟩
      exact ⟨(key, a), mem_entries_iff.mpr ha, rfl⟩
  rw [hkey, ne_eq, find?_ofList_eq_none_iff]
  simp

end Keyed
end ModuleBoundary
