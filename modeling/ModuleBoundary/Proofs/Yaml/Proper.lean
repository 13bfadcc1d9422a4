/-
Values in which no key comes twice, and values without tags.

A document is loaded entry by entry, and a key that is there already is refused, so every
loaded value is proper (`isProper_of_ofText?`).  A proper value without tags is plain
(`Value.IsPlain`): it has nothing to lose when it is copied (`IsPlain.copy?`), and a text is
the key of one entry at most (`IsPlain.eq_of_mem`).
-/
import ModuleBoundary.Yaml.Value.Copy

namespace ModuleBoundary
namespace Yaml
namespace Value

variable {test : Value → Bool} {v : Value} {items : List Value} {entries : List (Value × Value)}
  {tag s : Text}

/-! ## Tests that all values in a value pass -/

theorem allItems_iff : allItems test items = true ↔ ∀ v ∈ items, v.all test = true := by
  induction items with
  | nil => simp [allItems]
  | cons v rest ih => simp [allItems, ih]

theorem allEntries_iff :
    allEntries test entries = true ↔ ∀ e ∈ entries, e.1.all test = true ∧ e.2.all test = true := by
  induction entries with
  | nil => simp [allEntries]
  | cons e rest ih => simp [allEntries, ih]

theorem all_sequence_iff :
    all test (.sequence items) = true ↔
      test (.sequence items) = true ∧ ∀ v ∈ items, v.all test = true := by
  rw [all, Bool.and_eq_true, allItems_iff]

theorem all_mapping_iff :
    all test (.mapping entries) = true ↔
      test (.mapping entries) = true ∧
        ∀ e ∈ entries, e.1.all test = true ∧ e.2.all test = true := by
  rw [all, Bool.and_eq_true, allEntries_iff]

/-! ## Proper values -/

theorem isProper_sequence_iff :
    isProper (.sequence items) = true ↔ ∀ v ∈ items, v.isProper = true :=
  all_sequence_iff.trans (and_iff_right rfl)

theorem isProper_mapping_iff :
    isProper (.mapping entries) = true ↔
      (entries.Pairwise fun d e => same d.1 e.1 = false) ∧
        ∀ e ∈ entries, e.1.isProper = true ∧ e.2.isProper = true :=
  all_mapping_iff.trans (and_congr_left fun _ => decide_eq_true_iff)

theorem isProper_tagged : isProper (.tagged tag v) = v.isProper := Bool.true_and _

/-! ## Values without tags -/

def isUntagged (v : Value) : Bool :=
  v.all fun
    | .tagged _ _ => false
    | _ => true

theorem isUntagged_sequence_iff :
    isUntagged (.sequence items) = true ↔ ∀ v ∈ items, v.isUntagged = true :=
  all_sequence_iff.trans (and_iff_right rfl)

theorem isUntagged_mapping_iff :
    isUntagged (.mapping entries) = true ↔
      ∀ e ∈ entries, e.1.isUntagged = true ∧ e.2.isUntagged = true :=
  all_mapping_iff.trans (and_iff_right rfl)

theorem not_isUntagged_tagged : ¬isUntagged (.tagged tag v) = true := nofun

theorem untag_of_isUntagged (h : v.isUntagged = true) : v.untag = v := by
  cases v with
  | tagged tag v => exact absurd h not_isUntagged_tagged
  | _ => rfl

mutual

theorem unmark_of_isUntagged : (v : Value) → v.isUntagged = true → v.unmark = v
  | .null, _ => rfl
  | .bool _, _ => rfl
  | .int _, _ => rfl
  | .float _, _ => rfl
  | .string _, _ => rfl
  | .tagged _ _, h => absurd h not_isUntagged_tagged
  | .sequence items, h =>
    congrArg sequence (unmarkItems_of_isUntagged items (isUntagged_sequence_iff.mp h))
  | .mapping entries, h =>
    congrArg mapping (unmarkEntries_of_isUntagged entries (isUntagged_mapping_iff.mp h))

theorem unmarkItems_of_isUntagged :
    (items : List Value) → (∀ v ∈ items, v.isUntagged = true) → unmarkItems items = items
  | [], _ => rfl
  | v :: rest, h => by
    rw [unmarkItems, unmark_of_isUntagged v (h v List.mem_cons_self),
      unmarkItems_of_isUntagged rest fun u hu => h u (List.mem_cons_of_mem v hu)]

theorem unmarkEntries_of_isUntagged :
    (entries : List (Value × Value)) →
      (∀ e ∈ entries, e.1.isUntagged = true ∧ e.2.isUntagged = true) →
        unmarkEntries entries = entries
  | [], _ => rfl
  | (k, v) :: rest, h => by
    obtain ⟨hk, hv⟩ := h (k, v) List.mem_cons_self
    rw [unmarkEntries, unmark_of_isUntagged k hk, unmark_of_isUntagged v hv,
      unmarkEntries_of_isUntagged rest fun e he => h e (List.mem_cons_of_mem _ he)]

end

/-! ## Plain values -/

/-- No tags, and no mapping has a key twice. -/
structure IsPlain (v : Value) : Prop where
  isUntagged : v.isUntagged = true
  isProper : v.isProper = true

theorem isPlain_sequence_iff : IsPlain (.sequence items) ↔ ∀ v ∈ items, v.IsPlain := by
  constructor
  · intro h v hv
    exact ⟨isUntagged_sequence_iff.mp h.1 v hv, isProper_sequence_iff.mp h.2 v hv⟩
  · intro h
    exact ⟨isUntagged_sequence_iff.mpr fun v hv => (h v hv).1,
      isProper_sequence_iff.mpr fun v hv => (h v hv).2⟩

theorem isPlain_mapping_iff :
    IsPlain (.mapping entries) ↔ (entries.Pairwise fun d e => same d.1 e.1 = false) ∧
      ∀ e ∈ entries, e.1.IsPlain ∧ e.2.IsPlain := by
  constructor
  · rintro ⟨htags, hproper⟩
    obtain ⟨hdistinct, hall⟩ := isProper_mapping_iff.mp hproper
    refine ⟨hdistinct, fun e he => ?_⟩
    obtain ⟨hk, hv⟩ := isUntagged_mapping_iff.mp htags e he
    exact ⟨⟨hk, (hall e he).1⟩, ⟨hv, (hall e he).2⟩⟩
  · rintro ⟨hdistinct, hall⟩
    exact ⟨isUntagged_mapping_iff.mpr fun e he => ⟨(hall e he).1.1, (hall e he).2.1⟩,
      isProper_mapping_iff.mpr ⟨hdistinct, fun e he => ⟨(hall e he).1.2, (hall e he).2.2⟩⟩⟩

theorem isPlain_mapping_cons_iff {k v : Value} {rest : List (Value × Value)} :
    IsPlain (.mapping ((k, v) :: rest)) ↔ (∀ e ∈ rest, same k e.1 = false) ∧ k.IsPlain ∧
      v.IsPlain ∧ IsPlain (.mapping rest) := by
  rw [isPlain_mapping_iff, isPlain_mapping_iff, List.pairwise_cons, List.forall_mem_cons]
  exact ⟨fun ⟨⟨hk, hpair⟩, ⟨hkp, hvp⟩, hall⟩ => ⟨hk, hkp, hvp, hpair, hall⟩,
    fun ⟨hk, hkp, hvp, hpair, hall⟩ => ⟨⟨hk, hpair⟩, ⟨hkp, hvp⟩, hall⟩⟩

namespace IsPlain

theorem untag (h : v.IsPlain) : v.untag = v := untag_of_isUntagged h.isUntagged

theorem copy? (h : v.IsPlain) : v.copy? = some v := by
  rw [Value.copy?, unmark_of_isUntagged v h.isUntagged, if_pos h.isProper]

/-- One entry at most has a text as its key. -/
theorem eq_of_mem {name : Text} {u w : Value} (h : IsPlain (.mapping entries))
    (hu : (.string name, u) ∈ entries) (hw : (.string name, w) ∈ entries) : u = w := by
  have hsame : same (.string name) (.string name) = true := same_string.mpr rfl
  obtain ⟨before, behind, rfl⟩ := List.append_of_mem hu
  obtain ⟨-, hbehind, hbetween⟩ := List.pairwise_append.mp (isPlain_mapping_iff.mp h).1
  rcases List.mem_append.mp hw with hw | hw
  · exact nomatch hsame.symm.trans (hbetween _ hw _ List.mem_cons_self)
  · rcases List.mem_cons.mp hw with hw | hw
    · exact (Prod.mk.inj hw).2.symm
    · exact nomatch hsame.symm.trans ((List.pairwise_cons.mp hbehind).1 _ hw)

end IsPlain

end Value

/-! ## Loading -/

/-- Whatever the count of aliases is, the results have the property. -/
def Yields {α : Type} (x : StateT Nat Option α) (P : α → Prop) : Prop :=
  ∀ left a left', x left = some (a, left') → P a

namespace Yields

variable {α β : Type} {x : StateT Nat Option α} {f : α → StateT Nat Option β} {P : α → Prop}
  {Q : β → Prop}

theorem pure {a : α} (h : P a) : Yields (Pure.pure a : StateT Nat Option α) P := by
  intro left b left' hb
  obtain rfl := (Prod.mk.inj (Option.some.inj hb)).1
  exact h

theorem any (x : StateT Nat Option α) : Yields x fun _ => True := fun _ _ _ _ => trivial

theorem failure : Yields (Alternative.failure : StateT Nat Option α) P := nofun

theorem bind (hx : Yields x P) (hf : ∀ a, P a → Yields (f a) Q) : Yields (x >>= f) Q := by
  intro left b left' hb
  obtain ⟨⟨a, between⟩, ha, hb⟩ := Option.bind_eq_some_iff.mp hb
  exact hf a (hx left a between ha) between b left' hb

theorem lift {o : Option α} (h : ∀ a, o = some a → P a) : Yields (StateT.lift o) P := by
  intro left a left' ha
  obtain ⟨b, hb, heq⟩ := Option.bind_eq_some_iff.mp ha
  obtain rfl := (Prod.mk.inj (Option.some.inj heq)).1
  exact h b hb

theorem mapM {l : List α} (hf : ∀ a, Yields (f a) Q) :
    Yields (l.mapM f) fun bs => ∀ b ∈ bs, Q b := by
  induction l with
  | nil => exact pure (by simp)
  | cons a rest ih =>
    rw [List.mapM_cons]
    refine (hf a).bind fun b hb => ih.bind fun bs hbs => pure fun c hc => ?_
    rcases List.mem_cons.mp hc with rfl | hc
    · exact hb
    · exact hbs c hc

theorem foldlM {l : List β} {step : α → β → StateT Nat Option α} {a : α}
    (hstep : ∀ a b, P a → Yields (step a b) P) (ha : P a) : Yields (l.foldlM step a) P := by
  induction l generalizing a with
  | nil => exact pure ha
  | cons b rest ih =>
    rw [List.foldlM_cons]
    exact (hstep a b ha).bind fun a' ha' => ih ha'

end Yields

namespace Linked

open Value

variable {tag : Option Bytes} {text : Text} {plain : Bool} {v : Value}

theorem isProper_withTag (tag : Option Bytes) (v : Value) :
    (withTag tag v).isProper = v.isProper := by
  rw [withTag]
  split
  · exact isProper_tagged
  · rfl

theorem isProper_plain {s : Text} (h : Plain.value? s = some v) : v.isProper = true := by
  rw [Plain.value?] at h
  split at h
  · cases h
    rfl
  · split at h
    · cases h
      rfl
    · split at h
      · cases h
        rfl
      · exact nomatch h
      · split at h <;> cases h <;> rfl

theorem isProper_forced {kind s : Text} (h : Plain.forced? kind s = some v) :
    v.isProper = true := by
  rw [Plain.forced?] at h
  split at h
  · obtain ⟨b, -, rfl⟩ := Option.map_eq_some_iff.mp h
    rfl
  · split at h
    · split at h
      · cases h
        rfl
      · exact nomatch h
    · split at h
      · obtain ⟨x, -, rfl⟩ := Option.map_eq_some_iff.mp h
        rfl
      · split at h
        · split at h
          · cases h
            rfl
          · exact nomatch h
        · cases h
          rfl

theorem isProper_scalarValue (h : scalarValue? tag text plain = some v) : v.isProper = true := by
  have huntagged : ∀ u, (if plain then Plain.value? text else some (.string text)) = some u →
      u.isProper = true := by
    intro u hu
    split at hu
    · exact isProper_plain hu
    · cases hu
      rfl
  unfold scalarValue? at h
  dsimp only at h
  split at h
  · exact huntagged v h
  · split at h
    · obtain ⟨u, hu, rfl⟩ := Option.map_eq_some_iff.mp h
      rw [isProper_withTag]
      exact huntagged u hu
    · exact isProper_forced h

theorem isProper_addEntry {entries entries' : List (Value × Value)} {k v : Value}
    (h : addEntry entries k v = some entries') (hentries : isProper (.mapping entries) = true)
    (hk : k.isProper = true) (hv : v.isProper = true) : isProper (.mapping entries') = true := by
  rw [addEntry] at h
  split at h
  · exact nomatch h
  · next hnew =>
    obtain rfl := Option.some.inj h
    obtain ⟨hdistinct, hall⟩ := isProper_mapping_iff.mp hentries
    rw [isProper_mapping_iff, List.pairwise_append]
    refine ⟨⟨hdistinct, List.pairwise_singleton _ _, fun d hd e he => ?_⟩, fun e he => ?_⟩
    · obtain rfl := List.mem_singleton.mp he
      simp only [List.any_eq_true, not_exists, not_and, Bool.not_eq_true] at hnew
      exact hnew d hd
    · rcases List.mem_append.mp he with he | he
      · exact hall e he
      · obtain rfl := List.mem_singleton.mp he
        exact ⟨hk, hv⟩

/-- One step of loading, where the readings of what is inside are given. -/
theorem isProper_loadStep {inside : Linked → StateT Nat Option Value}
    (hinside : ∀ n, Yields (inside n) fun v => v.isProper = true) :
    (∀ items : List Linked, Yields (items.mapM inside) fun vs => ∀ v ∈ vs, v.isProper = true) ∧
    ∀ entries : List (Linked × Linked), Yields (entries.foldlM (fun done e => do
        let k ← inside e.1
        let v ← inside e.2
        StateT.lift (addEntry done k v)) []) fun es => isProper (.mapping es) = true := by
  refine ⟨fun items => Yields.mapM hinside, fun entries => Yields.foldlM ?_ rfl⟩
  intro done e hdone
  refine (hinside e.1).bind fun k hk => (hinside e.2).bind fun v hv => Yields.lift ?_
  exact fun es hes => isProper_addEntry hes hdone hk hv

/-- By induction on how deep collections may still nest. -/
theorem isProper_load (anchored : Anchored) (depth : Nat) (n : Linked) :
    Yields (load anchored depth n) fun v => v.isProper = true := by
  induction depth generalizing n with
  | zero =>
    unfold load
    refine (Yields.any (follow anchored n)).bind fun m _ => ?_
    cases m with
    | scalar tag text plain => exact .lift fun v hv => isProper_scalarValue hv
    | _ => exact .failure
  | succ depth ih =>
    obtain ⟨hitems, hentries⟩ := isProper_loadStep ih
    unfold load
    refine (Yields.any (follow anchored n)).bind fun m _ => ?_
    cases m with
    | scalar tag text plain => exact .lift fun v hv => isProper_scalarValue hv
    | sequence tag items =>
      refine (hitems items).bind fun vs hvs => .pure ?_
      rw [isProper_withTag, isProper_sequence_iff]
      exact hvs
    | mapping tag entries =>
      refine (hentries entries).bind fun es hes => .pure ?_
      rw [isProper_withTag]
      exact hes
    | _ => exact .failure

end Linked

/-- What is loaded is proper. -/
theorem Value.isProper_of_ofText? {s : Text} {v : Value} (h : Value.ofText? s = some v) :
    v.isProper = true := by
  obtain ⟨node, -, h⟩ := Option.bind_eq_some_iff.mp h
  obtain ⟨⟨⟨linked, anchored⟩, names⟩, -, h⟩ := Option.bind_eq_some_iff.mp h
  obtain ⟨⟨u, left⟩, hload, h⟩ := Option.bind_eq_some_iff.mp h
  obtain rfl := Option.some.inj h
  exact Linked.isProper_load anchored _ linked _ u left hload

end Yaml
end ModuleBoundary
