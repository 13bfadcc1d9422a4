/-
The places that identities stand for.

An identity is computed by dropping components, keeping the names among the rest that are
texts and looking at the first of them.  Here it is read backwards: which paths have which
identity.  The shared contracts are the paths that start with their root
(`identify_eq_sharedContracts_iff`).  A path that goes on from the module root by names alone
is in the module of the first text among them, and strict if `contracts` and another text
come next (`identify_eq_inModule_iff`).
-/
import ModuleBoundary.Identity
import ModuleBoundary.Proofs.Path.Joining
import ModuleBoundary.Proofs.Text.Encoding

namespace ModuleBoundary
namespace Identity

/-- The names below a module lead to something in its contracts layer: one name alone is a file
or a directory of the module. -/
def InContracts (below : List Text) : Prop := ∃ more, more ≠ [] ∧ below = "contracts".toList :: more

theorem inContracts_iff {layer first : Text} {rest : List Text} :
    InContracts (layer :: first :: rest) ↔ layer = "contracts".toList := by
  constructor
  · rintro ⟨_, _, h⟩
    exact (List.cons.inj h).1
  · rintro rfl
    exact ⟨first :: rest, List.cons_ne_nil first rest, rfl⟩

instance : (below : List Text) → Decidable (InContracts below)
  | [] => isFalse fun ⟨_, _, h⟩ => nomatch h
  | [_] => isFalse fun ⟨_, hne, h⟩ => hne (List.cons.inj h).2.symm
  | _ :: _ :: _ => decidable_of_iff _ inContracts_iff.symm

theorem ofNames_cons (n : Text) (below : List Text) : ofNames (n :: below) =
    if isShared n = true then none else some (.inModule n (decide (InContracts below))) := by
  match below with
  | [] => rfl
  | [_] => rfl
  | layer :: first :: rest =>
    have hlayer : (layer == "contracts".toList) = decide (InContracts (layer :: first :: rest)) := by
      rw [Bool.eq_iff_iff, beq_iff_eq, decide_eq_true_iff, inContracts_iff]
    rw [← hlayer]
    rfl

theorem ofNames_ne_sharedContracts {names : List Text} :
    Identity.ofNames names ≠ some .sharedContracts := by
  cases names with
  | nil => exact fun h => nomatch h
  | cons n below =>
    rw [ofNames_cons]
    split <;> exact fun h => nomatch h

theorem ofNames_eq_inModule_iff {names : List Text} {name : Text} {strict : Bool} :
    ofNames names = some (.inModule name strict) ↔
      ∃ below, names = name :: below ∧ isShared name = false ∧
        strict = decide (InContracts below) := by
  cases names with
  | nil => simp [ofNames]
  | cons n below =>
    rw [ofNames_cons]
    cases hshared : isShared n with
    | true =>
      rw [if_pos rfl]
      constructor
      · exact fun h => nomatch h
      · rintro ⟨_, heq, hname, _⟩
        obtain ⟨rfl, -⟩ := List.cons.inj heq
        exact absurd (hshared.symm.trans hname) (by simp)
    | false =>
      rw [if_neg Bool.false_ne_true, Option.some.injEq, Identity.inModule.injEq]
      constructor
      · rintro ⟨rfl, rfl⟩
        exact ⟨below, rfl, hshared, rfl⟩
      · rintro ⟨_, heq, -, hstrict⟩
        obtain ⟨rfl, rfl⟩ := List.cons.inj heq
        exact ⟨rfl, hstrict.symm⟩

/-! ## Names among components -/

theorem names_map_name (behind : List Bytes) :
    names (behind.map .name) = behind.filterMap Utf8.decode? := by
  rw [names, List.filterMap_map]
  rfl

theorem mem_names {cs : List Component} {n : Text} (h : n ∈ names cs) :
    .name (Utf8.encode n) ∈ cs := by
  obtain ⟨c, hc, heq⟩ := List.mem_filterMap.mp h
  cases c with
  | name bytes => exact Utf8.decode?_eq_some_iff.mp heq ▸ hc
  | root => exact absurd heq (by simp)
  | here => exact absurd heq (by simp)
  | up => exact absurd heq (by simp)

end Identity

/-- A name among the components of a path is spelled in it. -/
theorem Path.mem_segments_of_name {p : Path} {n : Bytes} (h : .name n ∈ p.components) :
    n ∈ p.segments := by
  rw [components_eq, List.mem_append] at h
  rcases h with h | h
  · have hlead : p.lead = some (.name n) := Option.mem_toList.mp h
    rw [lead] at hlead
    split at hlead
    · exact absurd hlead (by simp)
    · split at hlead <;> exact absurd hlead (by simp)
  · obtain ⟨s, hs, heq⟩ := List.mem_map.mp h
    rw [Component.ofSegment] at heq
    split at heq
    · exact absurd heq (by simp)
    · obtain rfl := Component.name.inj heq
      exact (List.mem_filter.mp hs).1

namespace Roots

open Identity (InContracts)

variable {roots : Roots} {file : Path} {name : Text} {strict : Bool}

theorem identify_eq_sharedContracts_iff :
    roots.identify file = some .sharedContracts ↔
      ∃ root, roots.sharedRoot = some root ∧ file.startsWith root = true := by
  rw [← Option.any_eq_true, identify]
  cases hany : roots.sharedRoot.any file.startsWith with
  | true => simp
  | false =>
    rw [if_neg Bool.false_ne_true]
    refine ⟨fun h => ?_, fun h => absurd h (by simp)⟩
    split at h
    · exact absurd h Identity.ofNames_ne_sharedContracts
    · exact absurd h (by simp)

/-- The module of a file is the first text among the names that it has behind the module root. -/
theorem exists_names_of_identify (h : roots.identify file = some (.inModule name strict)) :
    ∃ rest below, file.components = roots.moduleRoot.components ++ rest ∧
      Identity.names rest = name :: below := by
  rw [identify] at h
  split at h
  · exact absurd h (by simp)
  · split at h
    · next hstarts =>
      obtain ⟨rest, hrest⟩ := Path.startsWith_iff.mp hstarts
      rw [← hrest, List.drop_left] at h
      obtain ⟨below, hnames, _⟩ := Identity.ofNames_eq_inModule_iff.mp h
      exact ⟨rest, below, hrest.symm, hnames⟩
    · exact absurd h (by simp)

/-- The name of a module is a segment of the paths of its files. -/
theorem mem_segments_of_identify (h : roots.identify file = some (.inModule name strict)) :
    Utf8.encode name ∈ file.segments := by
  obtain ⟨rest, below, hfile, hnames⟩ := exists_names_of_identify h
  have hname : name ∈ Identity.names rest := hnames ▸ List.mem_cons_self
  apply Path.mem_segments_of_name
  rw [hfile]
  exact List.mem_append_right _ (Identity.mem_names hname)

theorem identify_eq_inModule_iff {behind : List Bytes}
    (hfile : file.components = roots.moduleRoot.components ++ behind.map .name) :
    roots.identify file = some (.inModule name strict) ↔
      roots.identify file ≠ some .sharedContracts ∧
        ∃ below, behind.filterMap Utf8.decode? = name :: below ∧ isShared name = false ∧
          strict = decide (InContracts below) := by
  have hstarts : file.startsWith roots.moduleRoot = true := by
    rw [Path.startsWith_iff, hfile]
    exact List.prefix_append _ _
  rw [identify, hstarts, if_pos rfl, hfile, List.drop_left, Identity.names_map_name,
    ← Identity.ofNames_eq_inModule_iff]
  cases roots.sharedRoot.any file.startsWith with
  | true => simp
  | false =>
    rw [if_neg Bool.false_ne_true]
    exact (and_iff_right Identity.ofNames_ne_sharedContracts).symm

end Roots
end ModuleBoundary
