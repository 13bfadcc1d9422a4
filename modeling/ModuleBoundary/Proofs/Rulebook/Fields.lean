/-
Reading mappings: those with named fields, and those whose keys are names of their own.

The entries are read in their order, but in a plain mapping a field is there once at most, so
the order decides on nothing but the error.  The reading goes through if every key is a name
and every field can be read (`exists_fields_iff`), and then each slot of the result is what
stands under the name of its field (`HasSlot`, `hasSlot_fields`).  A map of readings has under
each key the reading of what stands there (`find?_textEntries`).
-/
import ModuleBoundary.Proofs.Outcome
import ModuleBoundary.Proofs.Rulebook.Entries
import ModuleBoundary.Proofs.Yaml.Paths
import ModuleBoundary.Rulebook.Draft

namespace ModuleBoundary
namespace Reading

open Yaml (Value)
open Yaml.Value (same isPlain_mapping_iff isPlain_mapping_cons_iff)

/-! ## Shapes -/

def IsMapping (fits : Text → Value → Prop) (v : Value) : Prop :=
  ∃ es, v = .mapping es ∧ ∀ e ∈ es, ∃ name, e.1 = .string name ∧ fits name e.2

def IsOptional (fits : Value → Prop) (v : Value) : Prop := v = .null ∨ fits v

def IsText (v : Value) : Prop := ∃ s, v = .string s

variable {α β σ : Type} {v k : Value} {name : Text}

/-! ## Readings -/

theorem text_eq_ok_iff {wanted : Wanted} {s : Text} :
    text wanted v = .ok s ↔ v.untag = .string s := by
  rw [text]
  split
  · next h => rw [h, Except.ok.injEq, Value.string.injEq]
  · next hne => exact iff_of_false nofun fun h => hne s h

theorem exists_text_iff {wanted : Wanted} (h : v.IsPlain) :
    (∃ s, text wanted v = .ok s) ↔ IsText v := by
  simp only [text_eq_ok_iff, h.untag, IsText]

theorem optional_of_ne_null {read : Reading α} (h : v ≠ .null) :
    optional read v = (read v).map some := by
  rw [optional]
  exact h

theorem optional_eq_ok_iff {read : Reading α} {r : Option α} :
    optional read v = .ok r ↔
      (v = .null ∧ r = none) ∨ (v ≠ .null ∧ ∃ a, read v = .ok a ∧ r = some a) := by
  by_cases h : v = .null
  · subst h
    simp [optional, eq_comm]
  · rw [optional_of_ne_null h]
    cases read v <;> simp [Except.map, h, eq_comm]

theorem exists_optional_iff {read : Reading α} :
    (∃ r, optional read v = .ok r) ↔ IsOptional (fun v => ∃ a, read v = .ok a) v := by
  simp only [optional_eq_ok_iff, IsOptional]
  by_cases h : v = .null
  · simp [h]
  · simp only [h, false_and, false_or]
    exact ⟨fun ⟨_, _, a, ha, _⟩ => ⟨a, ha⟩, fun ⟨a, ha⟩ => ⟨some a, h, a, ha, rfl⟩⟩

/-! ## Entries, one after the other -/

variable {names seen : List Text} {step : Text → Value → σ → Except ShapeError σ} {s s' : σ}
  {rest entries : List (Value × Value)}

theorem readFields_of_not_text (h : ∀ name, k.untag ≠ .string name) :
    readFields names step seen s ((k, v) :: rest) = .error (.mismatch k.untag .fieldName) := by
  rw [readFields, text]
  split
  · next h' => exact absurd h' (h _)
  · rfl

theorem readFields_of_field (hk : k.untag = .string name) (hname : name ∈ names)
    (hseen : name ∉ seen) :
    readFields names step seen s ((k, v) :: rest) =
      (step name v s).bind fun s' => readFields names step (name :: seen) s' rest := by
  rw [readFields, text_eq_ok_iff.mpr hk]
  show (if name ∈ names then _ else _) = _
  rw [if_pos hname, if_neg hseen]
  rfl

theorem readFields_of_seen (hk : k.untag = .string name) (hname : name ∈ names)
    (hseen : name ∈ seen) :
    readFields names step seen s ((k, v) :: rest) = .error (.duplicateField name) := by
  rw [readFields, text_eq_ok_iff.mpr hk]
  show (if name ∈ names then _ else _) = _
  rw [if_pos hname, if_pos hseen]
  rfl

theorem readFields_of_other (hk : k.untag = .string name) (hname : name ∉ names) :
    readFields names step seen s ((k, v) :: rest) = readFields names step seen s rest := by
  rw [readFields, text_eq_ok_iff.mpr hk]
  show (if name ∈ names then _ else _) = _
  rw [if_neg hname]

/-- What a key can be when the fields in `seen` were read already. -/
inductive KeyCases (names seen : List Text) (k : Value) : Prop
  | noText (h : ∀ name, k.untag ≠ .string name)
  | other (name : Text) (hk : k.untag = .string name) (h : name ∉ names)
  | again (name : Text) (hk : k.untag = .string name) (hname : name ∈ names) (h : name ∈ seen)
  | field (name : Text) (hk : k.untag = .string name) (hname : name ∈ names) (h : name ∉ seen)

theorem keyCases (names seen : List Text) (k : Value) : KeyCases names seen k := by
  by_cases htext : ∃ name, k.untag = .string name
  · obtain ⟨name, hk⟩ := htext
    by_cases hname : name ∈ names
    · by_cases hseen : name ∈ seen
      · exact .again name hk hname hseen
      · exact .field name hk hname hseen
    · exact .other name hk hname
  · exact .noText fun name hk => htext ⟨name, hk⟩

theorem readFields_cons_eq_ok
    (h : readFields names step seen s ((k, v) :: rest) = .ok s') : ∃ name, k.untag = .string name ∧
      ((name ∉ names ∧ readFields names step seen s rest = .ok s') ∨
        (name ∈ names ∧ ∃ s₁, step name v s = .ok s₁ ∧
          readFields names step (name :: seen) s₁ rest = .ok s')) := by
  cases keyCases names seen k with
  | noText hk =>
    rw [readFields_of_not_text hk] at h
    exact nomatch h
  | other name hk hname => exact ⟨name, hk, .inl ⟨hname, readFields_of_other hk hname ▸ h⟩⟩
  | again name hk hname hseen =>
    rw [readFields_of_seen hk hname hseen] at h
    exact nomatch h
  | field name hk hname hseen =>
    rw [readFields_of_field hk hname hseen] at h
    cases hread : step name v s with
    | error e => exact nomatch hread ▸ h
    | ok s₁ => exact ⟨name, hk, .inr ⟨hname, s₁, hread, by rwa [hread] at h⟩⟩

/-- A name that does not come again may count as seen. -/
theorem forall_unseen_cons_iff {fits : Text → Value → Prop}
    (hnew : ∀ e ∈ rest, ∀ other, e.1 = .string other → other ≠ name) :
    (∀ e ∈ rest, ∃ other, e.1 = .string other ∧
        (other ∈ names → other ∉ name :: seen ∧ fits other e.2)) ↔
      ∀ e ∈ rest, ∃ other, e.1 = .string other ∧
        (other ∈ names → other ∉ seen ∧ fits other e.2) := by
  refine forall₂_congr fun e he => exists_congr fun other => and_congr_right fun heq => ?_
  rw [List.mem_cons, not_or, and_iff_right (hnew e he other heq)]

/-- Whether all entries can be read is seen from each of them alone. -/
theorem exists_readFields_iff {fits : Text → Value → Prop}
    (hplain : Value.IsPlain (.mapping entries))
    (hstep : ∀ e ∈ entries, ∀ name ∈ names, ∀ s,
      (∃ s', step name e.2 s = .ok s') ↔ fits name e.2) :
    (∃ s', readFields names step seen s entries = .ok s') ↔ ∀ e ∈ entries, ∃ name,
      e.1 = .string name ∧ (name ∈ names → name ∉ seen ∧ fits name e.2) := by
  induction entries generalizing seen s with
  | nil => exact iff_of_true ⟨s, rfl⟩ nofun
  | cons e rest ih =>
    obtain ⟨k, v⟩ := e
    obtain ⟨hdistinct, hplaink, -, hrest⟩ := isPlain_mapping_cons_iff.mp hplain
    have hih {seen s} := @ih seen s hrest fun e he => hstep e (List.mem_cons_of_mem _ he)
    rw [List.forall_mem_cons]
    cases keyCases names seen k with
    | noText hk =>
      rw [readFields_of_not_text hk]
      refine iff_of_false nofun fun h => ?_
      obtain ⟨name, hname, -⟩ := h.1
      exact hk name (hplaink.untag.trans hname)
    | other name hk hname =>
      obtain rfl := hplaink.untag.symm.trans hk
      rw [readFields_of_other hk hname, hih]
      exact (and_iff_right ⟨name, rfl, fun h => absurd h hname⟩).symm
    | again name hk hname hseen =>
      obtain rfl := hplaink.untag.symm.trans hk
      rw [readFields_of_seen hk hname hseen]
      refine iff_of_false nofun fun h => ?_
      obtain ⟨_, heq, hfits⟩ := h.1
      obtain rfl := Value.string.inj heq
      exact (hfits hname).1 hseen
    | field name hk hname hseen =>
      obtain rfl := hplaink.untag.symm.trans hk
      -- The keys of a plain mapping are distinct, so the rest does not notice what was seen here.
      have hnew : ∀ e ∈ rest, ∀ other, e.1 = .string other → other ≠ name := by
        rintro e he other heq rfl
        have hsame : same (.string other) e.1 = true := heq ▸ Value.same_string.mpr rfl
        exact nomatch hsame.symm.trans (hdistinct e he)
      have hhead := hstep _ List.mem_cons_self name hname s
      simp only [Value.string.injEq, exists_eq_left']
      rw [readFields_of_field hk hname hseen]
      cases hread : step name v s with
      | error e =>
        refine iff_of_false nofun fun h => ?_
        obtain ⟨s', hs'⟩ := hhead.mpr (h.1 hname).2
        exact nomatch hread.symm.trans hs'
      | ok s₁ =>
        refine hih.trans ((forall_unseen_cons_iff hnew).trans (and_iff_right ?_).symm)
        exact fun _ => ⟨hseen, hhead.mp ⟨s₁, hread⟩⟩

/-- A field that was read already does not come again. -/
theorem not_named_of_seen (hname : name ∈ names) (hseen : name ∈ seen)
    (hs : readFields names step seen s entries = .ok s') :
    ∀ e ∈ entries, e.1.untag ≠ .string name := by
  induction entries generalizing seen s with
  | nil => exact nofun
  | cons e rest ih =>
    refine List.forall_mem_cons.mpr ⟨fun hk => ?_, ?_⟩
    · rw [readFields_of_seen hk hname hseen] at hs
      exact nomatch hs
    · obtain ⟨other, -, ⟨-, hs⟩ | ⟨-, s₁, -, hs⟩⟩ := readFields_cons_eq_ok hs
      · exact ih hseen hs
      · exact ih (List.mem_cons_of_mem other hseen) hs

/-- A slot holds what was read from the one entry with its name, if there is one. -/
theorem slot_readFields {τ : Type} {slot : σ → τ} {read : Reading τ} (hname : name ∈ names)
    (hown : ∀ w s s', step name w s = .ok s' → read w = .ok (slot s'))
    (hother : ∀ other ∈ names, other ≠ name → ∀ w s s', step other w s = .ok s' →
      slot s' = slot s)
    (hs : readFields names step seen s entries = .ok s') :
    (∀ e ∈ entries, e.1.untag = .string name → read e.2 = .ok (slot s')) ∧
      ((∀ e ∈ entries, e.1.untag ≠ .string name) → slot s' = slot s) := by
  induction entries generalizing seen s with
  | nil =>
    obtain rfl := Except.ok.inj hs
    exact ⟨nofun, fun _ => rfl⟩
  | cons e rest ih =>
    obtain ⟨k, v⟩ := e
    obtain ⟨other, hk, hrun⟩ := readFields_cons_eq_ok hs
    simp only [List.forall_mem_cons, hk]
    by_cases heq : other = name
    · subst heq
      obtain ⟨hno, -⟩ | ⟨-, s₁, hread, hrun⟩ := hrun
      · exact absurd hname hno
      · -- No later entry has the name, so the slot stays what this one made it.
        have hrest := not_named_of_seen hname List.mem_cons_self hrun
        refine ⟨⟨fun _ => ?_, fun e he hk => absurd hk (hrest e he)⟩, fun h => absurd rfl h.1⟩
        rw [(ih hrun).2 hrest]
        exact hown v s s₁ hread
    · have hne : ¬Value.string other = .string name := fun h => heq (Value.string.inj h)
      simp only [hne, false_implies, ne_eq, not_false_eq_true, true_and]
      obtain ⟨-, hrun⟩ | ⟨hmem, s₁, hread, hrun⟩ := hrun
      · exact ih hrun
      · rw [← hother other hmem heq v s s₁ hread]
        exact ih hrun

/-! ## Values with named fields -/

variable {wanted : Wanted} {start : σ}

theorem entries_of_mapping (h : v.untag = .mapping entries) :
    Reading.entries wanted v = .ok entries := by
  rw [Reading.entries, h]

theorem fields_of_mapping (h : v.untag = .mapping entries) :
    fields wanted names step start v = readFields names step [] start entries := by
  rw [fields, entries_of_mapping h]
  rfl

theorem entries_eq_ok_iff {es : List (Value × Value)} (h : v.IsPlain) :
    Reading.entries wanted v = .ok es ↔ (v = .null ∧ es = []) ∨ v = .mapping es := by
  rw [Reading.entries, h.untag]
  cases v <;> simp [eq_comm]

theorem fields_eq_ok_iff (h : v.IsPlain) :
    fields wanted names step start v = .ok s ↔
      (v = .null ∧ s = start) ∨
        ∃ es, v = .mapping es ∧ readFields names step [] start es = .ok s := by
  rw [fields, bind_eq_ok_iff]
  simp only [entries_eq_ok_iff h]
  constructor
  · rintro ⟨es, ⟨hnull, rfl⟩ | hv, hs⟩
    · exact .inl ⟨hnull, (Except.ok.inj hs).symm⟩
    · exact .inr ⟨es, hv, hs⟩
  · rintro (⟨hnull, rfl⟩ | ⟨es, hv, hs⟩)
    · exact ⟨[], .inl ⟨hnull, rfl⟩, rfl⟩
    · exact ⟨es, .inr hv, hs⟩

/-- The keys must be names, and what stands under them must fit: under the name of a field what
can be read, under every other name anything. -/
theorem exists_fields_iff {fits : Text → Value → Prop} (h : v.IsPlain)
    (hother : ∀ name, name ∉ names → ∀ w, fits name w)
    (hstep : ∀ name ∈ names, ∀ w : Value, w.IsPlain → ∀ s,
      (∃ s', step name w s = .ok s') ↔ fits name w) :
    (∃ s, fields wanted names step start v = .ok s) ↔ IsOptional (IsMapping fits) v := by
  have hfits : ∀ name w, (name ∈ names → fits name w) ↔ fits name w := fun name w =>
    ⟨fun h => if hname : name ∈ names then h hname else hother name hname w, fun h _ => h⟩
  simp only [fields_eq_ok_iff h, IsOptional, IsMapping]
  cases v with
  | mapping es =>
    have hall : (∃ s, readFields names step [] start es = .ok s) ↔ _ :=
      exists_readFields_iff h fun e he name hname s =>
        hstep name hname e.2 ((isPlain_mapping_iff.mp h).2 e he).2 s
    simpa [hfits] using hall
  | _ => simp

/-- A slot of the whole is the reading of a part: of an entry with the name of the field, and so of
what stands under this name in a plain value. -/
structure HasSlot {τ : Type} (whole : Reading σ) (name : Text) (slot : σ → Option τ)
    (part : Reading τ) : Prop where
  of_mem : ∀ {v es k w s}, v.untag = .mapping es → (k, w) ∈ es → k.untag = .string name →
    whole v = .ok s → optional part w = .ok (slot s)
  of_entry : ∀ {v s}, v.IsPlain → whole v = .ok s → optional part (v.entry name) = .ok (slot s)

/-- A field whose name alone decides on the slot, which is empty at the start. -/
theorem hasSlot_fields {τ : Type} {slot : σ → Option τ} {part : Reading τ} (hname : name ∈ names)
    (hown : ∀ w s s', step name w s = .ok s' → optional part w = .ok (slot s'))
    (hother : ∀ other ∈ names, other ≠ name → ∀ w s s', step other w s = .ok s' →
      slot s' = slot s)
    (hstart : slot start = none) : HasSlot (fields wanted names step start) name slot part where
  of_mem := by
    intro v es k w s hv he hk hs
    rw [fields_of_mapping hv] at hs
    exact (slot_readFields hname hown hother hs).1 _ he hk
  of_entry := by
    intro v s h hs
    obtain ⟨rfl, rfl⟩ | ⟨es, rfl, hs⟩ := (fields_eq_ok_iff h).mp hs
    · rw [hstart]
      rfl
    · obtain ⟨hthere, hnot⟩ := slot_readFields hname hown hother hs
      by_cases hmem : ∃ w, (.string name, w) ∈ es
      · obtain ⟨w, hw⟩ := hmem
        rw [Value.entry_of_mem h hw]
        exact hthere _ hw rfl
      · have hnone : ∀ w, (.string name, w) ∉ es := fun w hw => hmem ⟨w, hw⟩
        have hkeys : ∀ e ∈ es, e.1.untag ≠ .string name := by
          intro e he hk
          rw [((isPlain_mapping_iff.mp h).2 e he).1.untag] at hk
          exact hnone e.2 (hk ▸ he)
        rw [Value.entry_of_not_mem h hnone, hnot hkeys, hstart]
        rfl

/-- Something with one field. -/
theorem hasSlot_only {τ : Type} {part : Reading τ} {put : Option τ → σ} {slot : σ → Option τ}
    (hput : ∀ r, slot (put r) = r) (hstart : slot start = none) :
    HasSlot (fields wanted [name] (fun _ v _ => (optional part v).map put) start) name slot
      part := by
  refine hasSlot_fields List.mem_cons_self (fun w s s' h => ?_) (fun other hother hne => ?_) hstart
  · obtain ⟨r, hr, rfl⟩ := map_eq_ok_iff.mp h
    rw [hput, hr]
  · exact absurd (List.mem_singleton.mp hother) hne

section

variable {τ υ : Type} {part : Reading τ} {part' : Reading υ} {put : σ → Option τ → σ}
  {put' : σ → Option υ → σ} {slot : σ → Option τ} {slot' : σ → Option υ} {other : Text}

/-- The first one of two fields. -/
theorem hasSlot_first (hput : ∀ s r, slot (put s r) = r) (hput' : ∀ s r, slot (put' s r) = slot s)
    (hstart : slot start = none) :
    HasSlot (fields wanted [name, other] (fun field v s =>
      if field = name then (optional part v).map (put s)
      else (optional part' v).map (put' s)) start) name slot part := by
  refine hasSlot_fields List.mem_cons_self (fun w s s' h => ?_)
    (fun field _ hne w s s' h => ?_) hstart
  · rw [if_pos rfl] at h
    obtain ⟨r, hr, rfl⟩ := map_eq_ok_iff.mp h
    rw [hput, hr]
  · rw [if_neg hne] at h
    obtain ⟨r, -, rfl⟩ := map_eq_ok_iff.mp h
    exact hput' s r

/-- The second one of two fields. -/
theorem hasSlot_second (hother : other ≠ name) (hput : ∀ s r, slot' (put s r) = slot' s)
    (hput' : ∀ s r, slot' (put' s r) = r) (hstart : slot' start = none) :
    HasSlot (fields wanted [name, other] (fun field v s =>
      if field = name then (optional part v).map (put s)
      else (optional part' v).map (put' s)) start) other slot' part' := by
  refine hasSlot_fields (List.mem_cons_of_mem _ List.mem_cons_self) (fun w s s' h => ?_)
    (fun field hfield hne w s s' h => ?_) hstart
  · rw [if_neg hother] at h
    obtain ⟨r, hr, rfl⟩ := map_eq_ok_iff.mp h
    rw [hput', hr]
  · have hname : field = name :=
      (List.mem_cons.mp hfield).resolve_right fun h => hne (List.mem_singleton.mp h)
    rw [if_pos hname] at h
    obtain ⟨r, -, rfl⟩ := map_eq_ok_iff.mp h
    exact hput s r

end

theorem hasSlot_moduleRoot :
    HasSlot roots "module_root".toList RootsDraft.moduleRoot (text .text) :=
  hasSlot_first (fun _ _ => rfl) (fun _ _ => rfl) rfl

theorem hasSlot_sharedRoot :
    HasSlot roots "shared_contracts_root".toList RootsDraft.sharedRoot (text .text) :=
  hasSlot_second (by decide) (fun _ _ => rfl) (fun _ _ => rfl) rfl

theorem hasSlot_roots : HasSlot profile "roots".toList ProfileDraft.roots roots :=
  hasSlot_only (fun _ => rfl) rfl

theorem hasSlot_profiles : HasSlot body "profiles".toList BodyDraft.profiles profiles :=
  hasSlot_first (fun _ _ => rfl) (fun _ _ => rfl) rfl

theorem hasSlot_routing : HasSlot body "routing".toList BodyDraft.routing raw :=
  hasSlot_second (by decide) (fun _ _ => rfl) (fun _ _ => rfl) rfl

theorem hasSlot_body : HasSlot Draft.ofValue "clean_plus".toList Draft.body body :=
  hasSlot_only (fun _ => rfl) rfl

/-! ## Values under keys of their own -/

def textEntries (read? : Value → Option α) (entries : List (Value × Value)) : List (Text × α) :=
  entries.filterMap fun e => e.1.asText?.bind fun key => (read? e.2).map fun a => (key, a)

theorem asText?_eq_some_iff {s : Text} : v.asText? = some s ↔ v.untag = .string s := by
  rw [Value.asText?]
  split
  · next h => rw [h, Option.some.injEq, Value.string.injEq]
  · next hne => exact iff_of_false nofun fun h => hne s h

theorem mem_textEntries_iff {read? : Value → Option α} (h : Value.IsPlain (.mapping entries))
    {key : Text} {a : α} : (key, a) ∈ textEntries read? entries ↔
      ∃ w, (.string key, w) ∈ entries ∧ read? w = some a := by
  simp only [textEntries, List.mem_filterMap, Option.bind_eq_some_iff, Option.map_eq_some_iff,
    Prod.mk.injEq, asText?_eq_some_iff]
  constructor
  · rintro ⟨⟨k, w⟩, he, _, hkey, a, ha, rfl, rfl⟩
    rw [((isPlain_mapping_iff.mp h).2 _ he).1.untag] at hkey
    exact ⟨w, hkey ▸ he, ha⟩
  · rintro ⟨w, he, ha⟩
    exact ⟨(.string key, w), he, key, rfl, a, ha, rfl, rfl⟩

theorem nodup_textEntries {read? : Value → Option α} (h : Value.IsPlain (.mapping entries)) :
    ((textEntries read? entries).map Prod.fst).Nodup := by
  obtain ⟨hdistinct, hall⟩ := isPlain_mapping_iff.mp h
  rw [List.Nodup, List.pairwise_map, textEntries, List.pairwise_filterMap]
  refine hdistinct.imp_of_mem fun {d e} hd he hsame p hp q hq heq => ?_
  simp only [Option.bind_eq_some_iff, Option.map_eq_some_iff, asText?_eq_some_iff,
    (hall d hd).1.untag, (hall e he).1.untag] at hp hq
  obtain ⟨key, hkey, _, -, rfl⟩ := hp
  obtain ⟨key', hkey', _, -, rfl⟩ := hq
  rw [hkey, hkey', Value.same_string.mpr (congrArg Value.string heq)] at hsame
  exact nomatch hsame

/-- What a map of entries has under a key is the reading of what stands there. -/
theorem find?_textEntries {read? : Value → Option α} (h : Value.IsPlain (.mapping entries))
    (key : Text) :
    (Keyed.ofList (textEntries read? entries)).find? key =
      (Value.get? (.mapping entries) key).bind read? := by
  refine Option.ext fun a => ?_
  rw [Keyed.find?_ofList_of_nodup (nodup_textEntries h), mem_textEntries_iff h,
    Option.bind_eq_some_iff]
  simp only [Value.get?_eq_some_iff h, Value.mapping.injEq, exists_eq_left']

/-- Reads entries into a map; every key must be a text. -/
theorem foldlM_insert_eq_ok_iff {read : Reading α} {m m' : Keyed α} :
    (entries.foldlM (fun m e => do
        let key ← text .text e.1
        return m.insert key (← read e.2)) m) = .ok m' ↔
      (∀ e ∈ entries, ∃ key, e.1.untag = .string key ∧ ∃ a, read e.2 = .ok a) ∧
        m' = (textEntries (fun w => (read w).toOption) entries).foldl
          (fun m p => m.insert p.1 p.2) m := by
  induction entries generalizing m with
  | nil => simp [textEntries, pure, Except.pure, eq_comm]
  | cons e rest ih =>
    rw [List.foldlM_cons, List.forall_mem_cons]
    by_cases htext : ∃ key, e.1.untag = .string key
    · obtain ⟨key, hkey⟩ := htext
      rw [text_eq_ok_iff.mpr hkey]
      cases hread : read e.2 with
      | error error => exact iff_of_false nofun fun ⟨⟨⟨_, _, _, h⟩, _⟩, _⟩ => nomatch h
      | ok a =>
        have hhead : textEntries (fun w => (read w).toOption) (e :: rest) =
            (key, a) :: textEntries (fun w => (read w).toOption) rest := by
          simp only [textEntries, List.filterMap_cons, asText?_eq_some_iff.mpr hkey, hread]
          rfl
        rw [hhead, List.foldl_cons, and_assoc, and_iff_right ⟨key, hkey, a, rfl⟩]
        exact ih
    · cases hkey : text .text e.1 with
      | error error => exact iff_of_false nofun fun h => htext (h.1.1.imp fun _ => And.left)
      | ok key => exact absurd ⟨key, text_eq_ok_iff.mp hkey⟩ htext

theorem profiles_eq_ok_iff (h : v.IsPlain) {m : Keyed (Option ProfileDraft)} :
    profiles v = .ok m ↔ (v = .null ∧ m = .empty) ∨
      ∃ es, v = .mapping es ∧
        (∀ e ∈ es, ∃ key, e.1 = .string key ∧ ∃ d, optional profile e.2 = .ok d) ∧
        m = .ofList (textEntries (fun w => (optional profile w).toOption) es) := by
  rw [profiles, bind_eq_ok_iff]
  simp only [entries_eq_ok_iff h, foldlM_insert_eq_ok_iff]
  constructor
  · rintro ⟨es, ⟨hnull, rfl⟩ | rfl, hall, hm⟩
    · exact .inl ⟨hnull, hm⟩
    · refine .inr ⟨es, rfl, fun e he => ?_, hm⟩
      rw [← ((isPlain_mapping_iff.mp h).2 e he).1.untag]
      exact hall e he
  · rintro (⟨hnull, rfl⟩ | ⟨es, rfl, hall, hm⟩)
    · exact ⟨[], .inl ⟨hnull, rfl⟩, nofun, rfl⟩
    · refine ⟨es, .inr rfl, fun e he => ?_, hm⟩
      rw [((isPlain_mapping_iff.mp h).2 e he).1.untag]
      exact hall e he

theorem exists_profiles_iff {fits : Value → Prop} (h : v.IsPlain)
    (hread : ∀ w : Value, w.IsPlain → ((∃ d, optional profile w = .ok d) ↔ fits w)) :
    (∃ m, profiles v = .ok m) ↔ IsOptional (IsMapping fun _ => fits) v := by
  have hall : ∀ es, v = .mapping es → ((∀ e ∈ es, ∃ key, e.1 = .string key ∧
      ∃ d, optional profile e.2 = .ok d) ↔ ∀ e ∈ es, ∃ key, e.1 = .string key ∧ fits e.2) := by
    rintro es rfl
    refine forall₂_congr fun e he => ?_
    rw [hread e.2 ((isPlain_mapping_iff.mp h).2 e he).2]
  simp only [profiles_eq_ok_iff h, IsOptional, IsMapping]
  constructor
  · rintro ⟨m, ⟨hnull, -⟩ | ⟨es, hv, hes, -⟩⟩
    · exact .inl hnull
    · exact .inr ⟨es, hv, (hall es hv).mp hes⟩
  · rintro (hnull | ⟨es, hv, hes⟩)
    · exact ⟨.empty, .inl ⟨hnull, rfl⟩⟩
    · exact ⟨_, .inr ⟨es, hv, (hall es hv).mpr hes, rfl⟩⟩

theorem find?_profiles (h : v.IsPlain) {m : Keyed (Option ProfileDraft)}
    (hm : profiles v = .ok m) (key : Text) :
    m.find? key = (v.get? key).bind fun w => (optional profile w).toOption := by
  obtain ⟨rfl, rfl⟩ | ⟨es, rfl, -, rfl⟩ := (profiles_eq_ok_iff h).mp hm
  · rfl
  · exact find?_textEntries h key

end Reading
end ModuleBoundary
