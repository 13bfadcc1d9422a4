/-
What stands under a path of names in a value.

Of a plain value the entries of a mapping are what can be looked up in it
(`Value.get?_eq_some_iff`), so a path leads to the same value in both ways
(`Value.under_cons_iff`).
-/
import ModuleBoundary.Proofs.Yaml.Proper

namespace ModuleBoundary
namespace Yaml
namespace Value

variable {v u w : Value} {name : Text} {path : List Text} {entries : List (Value × Value)}

theorem get?_mapping :
    get? (.mapping entries) name = (entries.find? fun e => same e.1 (.string name)).map Prod.snd :=
  rfl

theorem get?_eq_some_iff (h : v.IsPlain) :
    v.get? name = some u ↔ ∃ es, v = .mapping es ∧ (.string name, u) ∈ es := by
  cases v with
  | mapping es =>
    rw [get?_mapping, Option.map_eq_some_iff]
    constructor
    · rintro ⟨⟨k, _⟩, hfind, rfl⟩
      obtain rfl : k = .string name := same_string.mp (by simpa using List.find?_some hfind)
      exact ⟨es, rfl, List.mem_of_find?_eq_some hfind⟩
    · rintro ⟨_, heq, hmem⟩
      obtain rfl := mapping.inj heq
      have hfound : (es.find? fun e => same e.1 (.string name)).isSome = true :=
        List.find?_isSome.mpr ⟨_, hmem, same_string.mpr rfl⟩
      obtain ⟨⟨k, w⟩, hfind⟩ := Option.isSome_iff_exists.mp hfound
      obtain rfl : k = .string name := same_string.mp (by simpa using List.find?_some hfind)
      exact ⟨_, hfind, h.eq_of_mem (List.mem_of_find?_eq_some hfind) hmem⟩
  | tagged tag v => exact absurd h.isUntagged not_isUntagged_tagged
  | _ => exact iff_of_false nofun (by simp)

/-- What stands under a key of a mapping; null if nothing does. -/
def entry (v : Value) (name : Text) : Value := (v.get? name).getD .null

theorem entry_of_mem (h : IsPlain (.mapping entries)) (hmem : (.string name, u) ∈ entries) :
    (mapping entries).entry name = u := by
  rw [entry, (get?_eq_some_iff h).mpr ⟨entries, rfl, hmem⟩, Option.getD_some]

theorem entry_of_not_mem (h : IsPlain (.mapping entries))
    (hmem : ∀ u, (.string name, u) ∉ entries) : (mapping entries).entry name = .null := by
  rw [entry]
  cases hget : get? (.mapping entries) name with
  | none => rfl
  | some u =>
    obtain ⟨_, heq, hu⟩ := (get?_eq_some_iff h).mp hget
    obtain rfl := mapping.inj heq
    exact absurd hu (hmem u)

/-- `u` stands in the value under the names, one mapping inside the other. -/
def Under : List Text → Value → Value → Prop
  | [], v, u => v = u
  | name :: path, v, u =>
    ∃ es w, v = .mapping es ∧ (.string name, w) ∈ es ∧ Under path w u

theorem under_cons_iff (h : v.IsPlain) :
    Under (name :: path) v u ↔ ∃ w, v.get? name = some w ∧ Under path w u := by
  constructor
  · rintro ⟨es, w, rfl, hmem, hw⟩
    exact ⟨w, (get?_eq_some_iff h).mpr ⟨es, rfl, hmem⟩, hw⟩
  · rintro ⟨w, hget, hw⟩
    obtain ⟨es, rfl, hmem⟩ := (get?_eq_some_iff h).mp hget
    exact ⟨es, w, rfl, hmem, hw⟩

theorem under_singleton_iff (h : v.IsPlain) : Under [name] v u ↔ v.get? name = some u := by
  rw [under_cons_iff h]
  exact ⟨fun ⟨_, hget, heq⟩ => heq ▸ hget, fun hget => ⟨u, hget, rfl⟩⟩

theorem isPlain_of_get? (h : v.IsPlain) (hget : v.get? name = some u) : u.IsPlain := by
  obtain ⟨es, rfl, hmem⟩ := (get?_eq_some_iff h).mp hget
  exact ((isPlain_mapping_iff.mp h).2 _ hmem).2

end Value
end Yaml
end ModuleBoundary
