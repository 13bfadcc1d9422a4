/-
Which profile is chosen.

A rulebook of profiles keeps the last one of each key (`Rulebook.Counts`).  Without a key
the choice is made among those whose module root is a directory (`Rulebook.IsDetected`), and
how it ends is decided by how many there are.  A run makes the same probe again, so it is
never skipped with a profile that was detected.  `choose_detected` says all this at once,
with the keys that the errors name.
-/
import ModuleBoundary.Proofs.Rulebook.Entries
import ModuleBoundary.Proofs.Run.Analysis
import ModuleBoundary.Rulebook.Load

namespace ModuleBoundary
namespace Rulebook

/-- The last profile of a list with its key. -/
def Counts (profiles : List Profile) (p : Profile) : Prop :=
  ∃ before behind, profiles = before ++ p :: behind ∧ ∀ q ∈ behind, q.key ≠ p.key

/-- A profile that counts, and whose module root, seen from the base, is a directory. -/
def IsDetected (profiles : List Profile) (t : Tree) (base : Path) (p : Profile) : Prop :=
  Counts profiles p ∧ t.isDir (base.join p.roots.moduleRoot) = true

/-- The keys with a property, in ascending order and without repetition. -/
def Lists (keys : List Text) (has : Text → Prop) : Prop :=
  keys.Pairwise (· < ·) ∧ ∀ key, key ∈ keys ↔ has key

theorem Lists.unique {keys keys' : List Text} {has : Text → Prop} (h : Lists keys has)
    (h' : Lists keys' has) : keys = keys' :=
  Keyed.eq_of_ascending h.1 h'.1 fun key => (h.2 key).trans (h'.2 key).symm

variable {profiles : List Profile} {routing : Keyed Routing} {t : Tree} {base : Path}
  {b : Rulebook} {p q : Profile} {key : Text}

/-! ## The profiles of a list -/

theorem profile?_new_eq_some_iff (routing : Keyed Routing) :
    (new profiles routing).profile? key = some p ↔ Counts profiles p ∧ p.key = key := by
  rw [profile?, new, Keyed.find?_ofList_eq_some_iff]
  constructor
  · rintro ⟨before, behind, hl, hbehind⟩
    obtain ⟨before', rest, hprofiles, rfl, hrest⟩ := List.map_eq_append_iff.mp hl
    obtain ⟨p', behind', rfl, heq, rfl⟩ := List.map_eq_cons_iff.mp hrest
    obtain ⟨rfl, rfl⟩ := Prod.mk.inj heq
    refine ⟨⟨before', behind', hprofiles, fun q hq => ?_⟩, rfl⟩
    exact hbehind (q.key, q) (List.mem_map_of_mem hq)
  · rintro ⟨⟨before, behind, rfl, hbehind⟩, rfl⟩
    refine ⟨before.map fun q => (q.key, q), behind.map fun q => (q.key, q), by simp, ?_⟩
    intro e he
    obtain ⟨q, hq, rfl⟩ := List.mem_map.mp he
    exact hbehind q hq

theorem profile?_new_eq_none_iff (routing : Keyed Routing) :
    (new profiles routing).profile? key = none ↔ ∀ p ∈ profiles, p.key ≠ key := by
  rw [profile?, new, Keyed.find?_ofList_eq_none_iff]
  simp

theorem mem_entries_new {e : Text × Profile} :
    e ∈ (new profiles routing).profiles.entries ↔ Counts profiles e.2 ∧ e.2.key = e.1 :=
  Keyed.mem_entries_iff.trans (profile?_new_eq_some_iff routing)

theorem mem_allProfiles_new : p ∈ (new profiles routing).allProfiles ↔ Counts profiles p := by
  rw [allProfiles, Keyed.values, List.mem_map]
  constructor
  · rintro ⟨e, he, rfl⟩
    exact (mem_entries_new.mp he).1
  · intro h
    exact ⟨(p.key, p), mem_entries_new.mpr ⟨h, rfl⟩, rfl⟩

theorem lists_keys_new :
    Lists (new profiles routing).keys fun key => ∃ p ∈ profiles, p.key = key := by
  refine ⟨Keyed.keys_ascending _, fun key => ?_⟩
  rw [keys, new, Keyed.mem_keys_ofList]
  simp

/-! ## Candidates -/

theorem mem_candidates_new (routing : Keyed Routing) :
    p ∈ (new profiles routing).candidates t base ↔ IsDetected profiles t base p := by
  rw [candidates, List.mem_filter, mem_allProfiles_new, IsDetected]

theorem candidates_ascending (profiles : List Profile) (routing : Keyed Routing) (t : Tree)
    (base : Path) :
    ((new profiles routing).candidates t base).Pairwise fun p q => p.key < q.key := by
  refine List.Pairwise.filter _ (List.pairwise_map.mpr ?_)
  refine (new profiles routing).profiles.ascending.imp_of_mem fun {d e} hd he hlt => ?_
  rw [(mem_entries_new.mp hd).2, (mem_entries_new.mp he).2]
  exact hlt

theorem lists_candidates :
    Lists (((new profiles routing).candidates t base).map (·.key)) fun key =>
      ∃ p, IsDetected profiles t base p ∧ p.key = key := by
  refine ⟨List.pairwise_map.mpr (candidates_ascending _ _ _ _), fun key => ?_⟩
  rw [List.mem_map]
  exact exists_congr fun p => and_congr_left fun _ => mem_candidates_new routing

theorem candidates_eq_nil_iff :
    (new profiles routing).candidates t base = [] ↔ ∀ p, ¬IsDetected profiles t base p := by
  rw [List.eq_nil_iff_forall_not_mem]
  exact forall_congr' fun p => not_congr (mem_candidates_new routing)

theorem candidates_eq_singleton_iff :
    (new profiles routing).candidates t base = [p] ↔
      IsDetected profiles t base p ∧ ∀ q, IsDetected profiles t base q → q = p := by
  constructor
  · intro h
    have hmem : ∀ q, IsDetected profiles t base q ↔ q = p := by
      intro q
      rw [← mem_candidates_new routing, h, List.mem_singleton]
    exact ⟨(hmem p).mpr rfl, fun q => (hmem q).mp⟩
  · rintro ⟨hp, hunique⟩
    have hnodup : ((new profiles routing).candidates t base).Nodup := by
      refine List.Pairwise.imp ?_ (candidates_ascending profiles routing t base)
      rintro q _ hlt rfl
      exact List.lt_irrefl q.key hlt
    have hone : [p].Nodup := List.pairwise_singleton _ p
    refine List.perm_singleton.mp ((List.perm_ext_iff_of_nodup hnodup hone).mpr fun q => ?_)
    rw [mem_candidates_new, List.mem_singleton]
    exact ⟨hunique q, fun h => h ▸ hp⟩

/-! ## The choice -/

theorem choose_eq_ok_iff : b.choose t base none = .ok p ↔ b.candidates t base = [p] := by
  rw [choose]
  split <;> simp_all

theorem choose_eq_noProfile_iff :
    b.choose t base none = .error .noProfile ↔ b.candidates t base = [] := by
  rw [choose]
  split <;> simp_all

theorem choose_eq_ambiguous_iff {keys : List Text} :
    b.choose t base none = .error (.ambiguousProfile keys) ↔
      (∃ p q rest, b.candidates t base = p :: q :: rest) ∧
        keys = (b.candidates t base).map (·.key) := by
  rw [choose]
  split
  · next h => simp [h]
  · next h => simp [h]
  · next hnil hone =>
    match hc : b.candidates t base with
    | [] => exact absurd hc hnil
    | [p] => exact absurd hc (hone p)
    | p :: q :: rest => simp [eq_comm]

theorem exists_candidates_iff :
    (∃ p q rest, (new profiles routing).candidates t base = p :: q :: rest) ↔
      ∃ p q, p ≠ q ∧ IsDetected profiles t base p ∧ IsDetected profiles t base q := by
  constructor
  · rintro ⟨p, q, rest, hc⟩
    -- The candidates come in ascending order of their keys, so two of them differ.
    have hlt : p.key < q.key := by
      have hascending := candidates_ascending profiles routing t base
      rw [hc] at hascending
      exact List.rel_of_pairwise_cons hascending List.mem_cons_self
    have hmem : ∀ r ∈ [p, q], IsDetected profiles t base r := by
      intro r hr
      rw [← mem_candidates_new routing, hc]
      exact List.mem_append_left rest hr
    refine ⟨p, q, ?_, hmem p (by simp), hmem q (by simp)⟩
    rintro rfl
    exact List.lt_irrefl p.key hlt
  · rintro ⟨p, q, hne, hp, hq⟩
    rw [← mem_candidates_new routing] at hp hq
    match hc : (new profiles routing).candidates t base with
    | [] => simp [hc] at hp
    | [r] =>
      rw [hc, List.mem_singleton] at hp hq
      exact absurd (hp.trans hq.symm) hne
    | r :: s :: rest => exact ⟨r, s, rest, rfl⟩

/-- With a key only the profiles are looked at. -/
theorem choose_key_eq_error_iff {e : ConfigError} :
    (new profiles routing).choose t base (some key) = .error e ↔
      (∀ p ∈ profiles, p.key ≠ key) ∧ ∃ keys, e = .unknownProfile key keys ∧
        Lists keys fun key => ∃ p ∈ profiles, p.key = key := by
  rw [← profile?_new_eq_none_iff routing, choose]
  cases (new profiles routing).profile? key with
  | some p => simp
  | none =>
    constructor
    · intro h
      exact ⟨rfl, _, (Except.error.inj h).symm, lists_keys_new⟩
    · rintro ⟨-, keys, rfl, hkeys⟩
      exact congrArg (Except.error <| ConfigError.unknownProfile key ·) (lists_keys_new.unique hkeys)

theorem choose_key_eq_ok_iff :
    (new profiles routing).choose t base (some key) = .ok p ↔ Counts profiles p ∧ p.key = key := by
  rw [← profile?_new_eq_some_iff routing, choose]
  cases (new profiles routing).profile? key <;> simp

theorem isDir_of_choose (h : b.choose t base none = .ok p) :
    t.isDir (base.join p.roots.moduleRoot) = true := by
  have hmem : p ∈ b.candidates t base := by
    rw [choose_eq_ok_iff.mp h]
    exact List.mem_singleton_self p
  exact (List.mem_filter.mp hmem).2

/-- Detection and runs agree: with a profile that was chosen without a key, a run from the same
base checks, whatever the routing checks and the source of files are.  For a rulebook of any
list of profiles the choice is exact.  Without a key it is the only profile that is detected;
it fails if none is, and if several are it names their keys.  With a key it is the profile
under that key, wherever the run takes place, and the error for another key names all keys. -/
theorem choose_detected :
    (∀ (b : Rulebook) t base p, b.choose t base none = .ok p → ∀ (routing : Routing) source,
      ∃ findings, (Guard.run ⟨base, p, routing⟩ t source).outcome = .checked findings) ∧
    (∀ profiles routing t base,
      (∀ p, (new profiles routing).choose t base none = .ok p ↔
        IsDetected profiles t base p ∧ ∀ q, IsDetected profiles t base q → q = p) ∧
      ((new profiles routing).choose t base none = .error .noProfile ↔
        ∀ p, ¬IsDetected profiles t base p) ∧
      (∀ keys, (new profiles routing).choose t base none = .error (.ambiguousProfile keys) ↔
        (∃ p q, p ≠ q ∧ IsDetected profiles t base p ∧ IsDetected profiles t base q) ∧
          Lists keys fun key => ∃ p, IsDetected profiles t base p ∧ p.key = key)) ∧
    (∀ (b : Rulebook) t t' base base' key, b.choose t base (some key) = b.choose t' base' (some key)) ∧
    (∀ profiles routing t base key,
      (∀ p, (new profiles routing).choose t base (some key) = .ok p ↔
        Counts profiles p ∧ p.key = key) ∧
      (∀ e, (new profiles routing).choose t base (some key) = .error e ↔
        (∀ p ∈ profiles, p.key ≠ key) ∧ ∃ keys, e = .unknownProfile key keys ∧
          Lists keys fun key => ∃ p ∈ profiles, p.key = key)) := by
  refine ⟨?_, ?_, ?_, ?_⟩
  · intro b t base p h routing source
    exact ⟨_, Guard.outcome_of_isDir (g := ⟨base, p, routing⟩) (isDir_of_choose h)⟩
  · intro profiles routing t base
    refine ⟨fun p => ?_, ?_, fun keys => ?_⟩
    · rw [choose_eq_ok_iff, candidates_eq_singleton_iff]
    · rw [choose_eq_noProfile_iff, candidates_eq_nil_iff]
    · rw [choose_eq_ambiguous_iff, exists_candidates_iff]
      refine and_congr_right fun _ => ⟨?_, fun h => h.unique lists_candidates⟩
      rintro rfl
      exact lists_candidates
  · intro b t t' base base' key
    rfl
  · intro profiles routing t base key
    exact ⟨fun p => choose_key_eq_ok_iff, fun e => choose_key_eq_error_iff⟩

/-- A key with two profiles, of which the first one has no directory and the second one has,
and another key between them. -/
def repeated : List Profile :=
  [⟨"web".toList, "old", none⟩, ⟨"api".toList, "api", none⟩, ⟨"web".toList, "modules", none⟩]

theorem choose_detected_repeated :
    (new repeated .empty).choose Layout.nested "." none = .ok ⟨"web".toList, "modules", none⟩ ∧
    (∀ (routing : Routing) source, ∃ findings,
      (Guard.run ⟨".", ⟨"web".toList, "modules", none⟩, routing⟩ Layout.nested source).outcome =
        .checked findings) ∧
    (new repeated .empty).choose Layout.nested "." (some "app".toList) =
      .error (.unknownProfile "app".toList ["api".toList, "web".toList]) := by
  obtain ⟨hruns, hexact, _, hkeyed⟩ := choose_detected
  have hcandidates : (new repeated .empty).candidates Layout.nested "." =
      [⟨"web".toList, "modules", none⟩] := by decide +kernel
  have hchoose := ((hexact repeated .empty Layout.nested ".").1 ⟨"web".toList, "modules", none⟩).mpr
    (candidates_eq_singleton_iff.mp hcandidates)
  have hkeys : (new repeated .empty).keys = ["api".toList, "web".toList] := by decide +kernel
  refine ⟨hchoose, hruns _ _ _ _ hchoose, ((hkeyed repeated .empty _ _ _).2 _).mpr ⟨by decide, ?_⟩⟩
  exact ⟨_, rfl, hkeys ▸ lists_keys_new⟩

end Rulebook
end ModuleBoundary
