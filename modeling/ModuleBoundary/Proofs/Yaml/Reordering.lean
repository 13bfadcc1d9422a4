/-
Values that differ in the order of the entries of mappings only.

Two such values are joined by single steps: the entries of one mapping are permuted, at the top
or anywhere inside.  Seen from outside, the entries of two mappings correspond to each other
(`Reordered.mem_mapping`), the items of two sequences do so one by one
(`Reordered.sequence_items`), and nothing else changes (`Reordered.eq_of_scalar`).  So under a
name there are corresponding values (`ReorderedPlain.entry`).
-/
import Mathlib.Data.List.Forall2
import ModuleBoundary.Proofs.Yaml.Paths

namespace ModuleBoundary
namespace Yaml
namespace Value

/-- The second value is the first one with the entries of mappings permuted, at any depth and in
any number of places. -/
inductive Reordered : Value → Value → Prop
  | refl (v : Value) : Reordered v v
  | trans {u v w : Value} (h : Reordered u v) (h' : Reordered v w) : Reordered u w
  | perm {es es' : List (Value × Value)} (h : es.Perm es') : Reordered (.mapping es) (.mapping es')
  | item {v w : Value} (before after : List Value) (h : Reordered v w) :
    Reordered (.sequence (before ++ v :: after)) (.sequence (before ++ w :: after))
  | key {k l : Value} (v : Value) (before after : List (Value × Value)) (h : Reordered k l) :
    Reordered (.mapping (before ++ (k, v) :: after)) (.mapping (before ++ (l, v) :: after))
  | value (k : Value) {v w : Value} (before after : List (Value × Value)) (h : Reordered v w) :
    Reordered (.mapping (before ++ (k, v) :: after)) (.mapping (before ++ (k, w) :: after))

namespace Reordered

variable {u v w : Value} {es : List (Value × Value)} {items : List Value} {name : Text}

theorem symm (h : Reordered v w) : Reordered w v := by
  induction h with
  | refl v => exact .refl v
  | trans _ _ ih ih' => exact .trans ih' ih
  | perm h => exact .perm h.symm
  | item before after _ ih => exact .item before after ih
  | key v before after _ ih => exact .key v before after ih
  | value k before after _ ih => exact .value k before after ih

/-! ## What corresponds -/

def Entry (e e' : Value × Value) : Prop := Reordered e.1 e'.1 ∧ Reordered e.2 e'.2

theorem Entry.refl (e : Value × Value) : Entry e e := ⟨.refl e.1, .refl e.2⟩

/-- After one entry was replaced by another one, every entry is still there. -/
theorem exists_mem_replace {d d' : Value × Value} (before after : List (Value × Value))
    (h : Entry d d') : ∀ e ∈ before ++ d :: after, ∃ e' ∈ before ++ d' :: after, Entry e e' := by
  intro e he
  rcases List.mem_append.mp he with he | he
  · exact ⟨e, List.mem_append_left _ he, .refl e⟩
  · rcases List.mem_cons.mp he with rfl | he
    · exact ⟨d', List.mem_append_right _ List.mem_cons_self, h⟩
    · exact ⟨e, List.mem_append_right _ (List.mem_cons_of_mem d' he), .refl e⟩

theorem mem_mapping (h : Reordered (.mapping es) w) :
    ∃ es', w = .mapping es' ∧ ∀ e ∈ es, ∃ e' ∈ es', Entry e e' := by
  generalize hv : Value.mapping es = v at h
  induction h generalizing es with
  | refl v => exact ⟨es, hv.symm, fun e he => ⟨e, he, .refl e⟩⟩
  | trans _ _ ih ih' =>
    obtain ⟨es₁, rfl, hmem⟩ := ih hv
    obtain ⟨es₂, rfl, hmem'⟩ := ih' rfl
    refine ⟨es₂, rfl, fun e he => ?_⟩
    obtain ⟨e₁, he₁, hkey, hvalue⟩ := hmem e he
    obtain ⟨e₂, he₂, hkey', hvalue'⟩ := hmem' e₁ he₁
    exact ⟨e₂, he₂, hkey.trans hkey', hvalue.trans hvalue'⟩
  | perm h =>
    obtain rfl := mapping.inj hv
    exact ⟨_, rfl, fun e he => ⟨e, h.mem_iff.mp he, .refl e⟩⟩
  | item before after _ _ => exact nomatch hv
  | key v before after h _ =>
    obtain rfl := mapping.inj hv
    exact ⟨_, rfl, exists_mem_replace before after ⟨h, .refl v⟩⟩
  | value k before after h _ =>
    obtain rfl := mapping.inj hv
    exact ⟨_, rfl, exists_mem_replace before after ⟨.refl k, h⟩⟩

theorem sequence_items (h : Reordered (.sequence items) w) :
    ∃ items', w = .sequence items' ∧ List.Forall₂ Reordered items items' := by
  have hrefl (items : List Value) : List.Forall₂ Reordered items items :=
    List.forall₂_same.mpr fun v _ => .refl v
  generalize hv : Value.sequence items = v at h
  induction h generalizing items with
  | refl v => exact ⟨items, hv.symm, hrefl items⟩
  | trans _ _ ih ih' =>
    obtain ⟨items₁, rfl, hitems⟩ := ih hv
    obtain ⟨items₂, rfl, hitems'⟩ := ih' rfl
    refine ⟨items₂, rfl, ?_⟩
    rw [List.forall₂_iff_get] at hitems hitems' ⊢
    refine ⟨hitems.1.trans hitems'.1, fun i hi hi' => ?_⟩
    exact (hitems.2 i hi (hitems.1 ▸ hi)).trans (hitems'.2 i _ hi')
  | item before after h _ =>
    obtain rfl := sequence.inj hv
    exact ⟨_, rfl, List.rel_append (hrefl before) (.cons h (hrefl after))⟩
  | perm h => exact nomatch hv
  | key v before after h _ => exact nomatch hv
  | value k before after h _ => exact nomatch hv

/-- What is neither a mapping nor a sequence stays as it is. -/
theorem eq_of_scalar (h : Reordered v w) (hmapping : ∀ es, v ≠ .mapping es)
    (hsequence : ∀ items, v ≠ .sequence items) : w = v := by
  induction h with
  | refl v => rfl
  | trans _ _ ih ih' =>
    obtain rfl := ih hmapping hsequence
    exact ih' hmapping hsequence
  | item before after _ _ => exact absurd rfl (hsequence _)
  | perm _ => exact absurd rfl (hmapping _)
  | key v before after _ _ => exact absurd rfl (hmapping _)
  | value k before after _ _ => exact absurd rfl (hmapping _)

theorem eq_of_null (h : Reordered .null w) : w = .null := h.eq_of_scalar nofun nofun

theorem eq_of_string {s : Text} (h : Reordered (.string s) w) : w = .string s :=
  h.eq_of_scalar nofun nofun

theorem asText?_eq (h : Reordered v w) : v.asText? = w.asText? := by
  cases v with
  | mapping es =>
    obtain ⟨es', rfl, -⟩ := h.mem_mapping
    rfl
  | sequence items =>
    obtain ⟨items', rfl, -⟩ := h.sequence_items
    rfl
  | _ => rw [h.eq_of_scalar nofun nofun]

end Reordered

/-! ## Under a name -/

structure ReorderedPlain (v w : Value) : Prop where
  left : v.IsPlain
  right : w.IsPlain
  reordered : Reordered v w

namespace ReorderedPlain

variable {u v w : Value} {name : Text}

theorem symm (h : ReorderedPlain v w) : ReorderedPlain w v := ⟨h.right, h.left, h.reordered.symm⟩

theorem get?_of_get? (h : ReorderedPlain v w) (hget : v.get? name = some u) :
    ∃ u', w.get? name = some u' ∧ ReorderedPlain u u' := by
  obtain ⟨es, rfl, hmem⟩ := (get?_eq_some_iff h.left).mp hget
  obtain ⟨es', rfl, hall⟩ := h.reordered.mem_mapping
  obtain ⟨⟨k, u'⟩, hmem', hkey, hvalue⟩ := hall _ hmem
  obtain rfl : k = .string name := hkey.eq_of_string
  have hget' : get? (.mapping es') name = some u' :=
    (get?_eq_some_iff h.right).mpr ⟨es', rfl, hmem'⟩
  exact ⟨u', hget', isPlain_of_get? h.left hget, isPlain_of_get? h.right hget', hvalue⟩

theorem rel_get? (h : ReorderedPlain v w) (name : Text) :
    Option.Rel ReorderedPlain (v.get? name) (w.get? name) := by
  cases hget : v.get? name with
  | some u =>
    obtain ⟨u', hget', hu⟩ := h.get?_of_get? hget
    rw [hget']
    exact .some hu
  | none =>
    cases hget' : w.get? name with
    | none => exact .none
    | some u' =>
      obtain ⟨u, hu, -⟩ := h.symm.get?_of_get? hget'
      exact nomatch hget.symm.trans hu

theorem entry (h : ReorderedPlain v w) (name : Text) :
    ReorderedPlain (v.entry name) (w.entry name) := by
  have hget := h.rel_get? name
  rw [Value.entry, Value.entry]
  generalize v.get? name = o at hget
  generalize w.get? name = o' at hget
  cases hget with
  | some hu => exact hu
  | none => exact ⟨⟨rfl, rfl⟩, ⟨rfl, rfl⟩, .refl .null⟩

end ReorderedPlain
end Value
end Yaml
end ModuleBoundary
