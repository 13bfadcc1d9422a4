/-
Documents that agree in everything a rulebook is made of.

What is read from a mapping is decided by its keys and by what stands under the names of the
fields.  So two mappings with the same keys, whose values under those names are read alike, are
read alike (`matches_readFields`): with the same error, or with results that go together.  From
level to level this says of two documents that agree in the roots of every profile that they
are the same rulebook apart from routing (`Rulebook.matches_ofValue`).
-/
import Mathlib.Data.List.Forall2
import ModuleBoundary.Proofs.Rulebook.Fields
import ModuleBoundary.Proofs.Rulebook.Loading

namespace ModuleBoundary

open Yaml (Value)
open Yaml.Value (isPlain_mapping_iff)

/-! ## Two results -/

inductive Matches {ε α β : Type} (S : α → β → Prop) : Except ε α → Except ε β → Prop
  | error (e : ε) : Matches S (.error e) (.error e)
  | ok {a : α} {b : β} (h : S a b) : Matches S (.ok a) (.ok b)

namespace Matches

variable {ε δ α β γ τ : Type} {S : α → β → Prop} {T : γ → τ → Prop} {x : Except ε α}
  {y : Except ε β}

theorem refl {S : α → α → Prop} (h : ∀ a, S a a) : (x : Except ε α) → Matches S x x
  | .error e => .error e
  | .ok a => .ok (h a)

theorem symm {S : α → α → Prop} (hS : ∀ a b, S a b → S b a) {x y : Except ε α}
    (h : Matches S x y) : Matches S y x := by
  cases h with
  | error e => exact .error e
  | ok h => exact .ok (hS _ _ h)

theorem of_eq {x y : Except ε α} (h : x = y) : Matches Eq x y := h ▸ refl (fun _ => rfl) x

theorem eq {x y : Except ε α} (h : Matches Eq x y) : x = y := by
  cases h with
  | error e => rfl
  | ok h => rw [h]

theorem isOk_eq (h : Matches S x y) : x.isOk = y.isOk := by
  cases h with
  | error e => rfl
  | ok h => rfl

theorem map (h : Matches S x y) {f : α → γ} {g : β → τ} (hfg : ∀ a b, S a b → T (f a) (g b)) :
    Matches T (x.map f) (y.map g) := by
  cases h with
  | error e => exact .error e
  | ok h => exact .ok (hfg _ _ h)

theorem bind (h : Matches S x y) {f : α → Except ε γ} {g : β → Except ε τ}
    (hfg : ∀ a b, S a b → Matches T (f a) (g b)) : Matches T (x >>= f) (y >>= g) := by
  cases h with
  | error e => exact .error e
  | ok h => exact hfg _ _ h

theorem mapError (h : Matches S x y) (f : ε → δ) : Matches S (x.mapError f) (y.mapError f) := by
  cases h with
  | error e => exact .error (f e)
  | ok h => exact .ok h

end Matches

namespace Reading

variable {α β σ : Type} {v w : Value} {names seen seen' : List Text}
  {step : Text → Value → σ → Except ShapeError σ} {s s' : σ} {S : σ → σ → Prop}
  {es es' : List (Value × Value)} {agree : Text → Value → Value → Prop}

/-! ## Entries -/

/-- The same keys in the same order, and values that agree under names. -/
def EntriesAgree (agree : Text → Value → Value → Prop) :
    List (Value × Value) → List (Value × Value) → Prop :=
  List.Forall₂ fun e e' => e.1 = e'.1 ∧ ∀ name, e.1.untag = .string name → agree name e.2 e'.2

theorem EntriesAgree.refl (h : ∀ name v, agree name v v) (es : List (Value × Value)) :
    EntriesAgree agree es es :=
  List.forall₂_same.mpr fun e _ => ⟨rfl, fun name _ => h name e.2⟩

/-- One value is replaced by one that agrees with it. -/
theorem EntriesAgree.replace {k : Value} (hrefl : ∀ name v, agree name v v)
    (h : ∀ name, k.untag = .string name → agree name v w) (before after : List (Value × Value)) :
    EntriesAgree agree (before ++ (k, v) :: after) (before ++ (k, w) :: after) :=
  List.rel_append (EntriesAgree.refl hrefl before) (.cons ⟨rfl, h⟩ (EntriesAgree.refl hrefl after))

/-- In the two runs the same names must have been seen, as far as they come again. -/
theorem matches_readFields (hes : EntriesAgree agree es es')
    (hstep : ∀ name ∈ names, ∀ v w, agree name v w → ∀ s s', S s s' →
      Matches S (step name v s) (step name w s'))
    (hseen : ∀ e ∈ es, ∀ name, e.1.untag = .string name → (name ∈ seen ↔ name ∈ seen'))
    (hs : S s s') :
    Matches S (readFields names step seen s es) (readFields names step seen' s' es') := by
  induction hes generalizing seen seen' s s' with
  | nil => exact .ok hs
  | @cons e e' rest rest' hhead htail ih =>
    obtain ⟨k, v⟩ := e
    obtain ⟨_, w⟩ := e'
    obtain ⟨rfl, hagree⟩ := hhead
    obtain ⟨hseenk, hseen⟩ := List.forall_mem_cons.mp hseen
    cases keyCases names seen k with
    | noText hk =>
      rw [readFields_of_not_text hk, readFields_of_not_text hk]
      exact .error _
    | other name hk hname =>
      rw [readFields_of_other hk hname, readFields_of_other hk hname]
      exact ih hseen hs
    | again name hk hname hmem =>
      rw [readFields_of_seen hk hname hmem, readFields_of_seen hk hname ((hseenk name hk).mp hmem)]
      exact .error _
    | field name hk hname hmem =>
      rw [readFields_of_field hk hname hmem,
        readFields_of_field hk hname fun h => hmem ((hseenk name hk).mpr h)]
      refine (hstep name hname v w (hagree name hk) s s' hs).bind fun a b hab => ih ?_ hab
      intro e he other hother
      rw [List.mem_cons, List.mem_cons, hseen e he other hother]

/-- An entry more makes no difference if its reading goes through, and no other entry has its
name. -/
theorem matches_readFields_insert {name : Text} {k : Value} {before after : List (Value × Value)}
    (hk : k.untag = .string name) (hname : name ∈ names) (hseen : name ∉ seen)
    (hothers : ∀ e ∈ before ++ after, e.1.untag ≠ .string name)
    (hread : ∀ s, ∃ s', step name w s = .ok s' ∧ S s s')
    (hstep : ∀ other ∈ names, ∀ v s s', S s s' → Matches S (step other v s) (step other v s')) :
    Matches S (readFields names step seen s (before ++ after))
      (readFields names step seen s (before ++ (k, w) :: after)) := by
  induction before generalizing seen s with
  | nil =>
    -- From here on the two runs differ in what was seen and in the result, but in no entry.
    obtain ⟨s', hs', hS⟩ := hread s
    rw [List.nil_append, List.nil_append, readFields_of_field hk hname hseen, hs']
    have hsame : EntriesAgree (fun _ v w => v = w) after after := .refl (fun _ _ => rfl) after
    refine matches_readFields hsame (fun other hother v w heq => heq ▸ hstep other hother v)
      (fun e he other hother => ?_) hS
    rw [List.mem_cons, or_iff_right]
    rintro rfl
    exact hothers e he hother
  | cons e before ih =>
    obtain ⟨key, v⟩ := e
    obtain ⟨hkey, hothers⟩ := List.forall_mem_cons.mp hothers
    rw [List.cons_append, List.cons_append]
    cases keyCases names seen key with
    | noText hk =>
      rw [readFields_of_not_text hk, readFields_of_not_text hk]
      exact .error _
    | other name hk hname =>
      rw [readFields_of_other hk hname, readFields_of_other hk hname]
      exact ih hseen hothers
    | again name hk hname hmem =>
      rw [readFields_of_seen hk hname hmem, readFields_of_seen hk hname hmem]
      exact .error _
    | field other hother hname hmem =>
      rw [readFields_of_field hother hname hmem, readFields_of_field hother hname hmem]
      cases step other v s with
      | error e => exact .error e
      | ok s₁ =>
        refine ih ?_ hothers
        rw [List.mem_cons, not_or]
        refine ⟨fun heq => hkey ?_, hseen⟩
        rw [hother, heq]

/-! ## Values -/

/-- The same value twice, or two mappings whose entries agree. -/
def AgreeIn (agree : Text → Value → Value → Prop) (v w : Value) : Prop :=
  v = w ∨ ∃ es es', v.untag = .mapping es ∧ w.untag = .mapping es' ∧ EntriesAgree agree es es'

theorem matches_fields {wanted : Wanted} (h : AgreeIn agree v w)
    (hagree : ∀ name v, agree name v v)
    (hstep : ∀ name ∈ names, ∀ v w, agree name v w → ∀ s s', S s s' →
      Matches S (step name v s) (step name w s')) (hs : S s s) :
    Matches S (fields wanted names step s v) (fields wanted names step s w) := by
  obtain rfl | ⟨es, es', hv, hw, hes⟩ := h
  · rw [fields]
    refine (Matches.refl (fun _ => rfl) (Reading.entries wanted v)).bind fun es es' hes => ?_
    subst hes
    exact matches_readFields (.refl hagree es) hstep (fun _ _ _ _ => Iff.rfl) hs
  · rw [fields_of_mapping hv, fields_of_mapping hw]
    exact matches_readFields hes hstep (fun _ _ _ _ => Iff.rfl) hs

theorem fields_congr {wanted : Wanted} (h : AgreeIn agree v w) (hagree : ∀ name v, agree name v v)
    (hstep : ∀ name ∈ names, ∀ v w, agree name v w → ∀ s, step name v s = step name w s) :
    fields wanted names step s v = fields wanted names step s w := by
  refine (matches_fields h hagree (fun name hname v w hvw s s' hs => ?_) rfl).eq
  subst hs
  exact .of_eq (hstep name hname v w hvw s)

theorem AgreeIn.mono {agree' : Text → Value → Value → Prop}
    (himp : ∀ name a b, agree name a b → agree' name a b) (h : AgreeIn agree v w) :
    AgreeIn agree' v w := by
  obtain rfl | ⟨es, es', hv, hw, hes⟩ := h
  · exact .inl rfl
  · exact .inr ⟨es, es', hv, hw, hes.imp fun e e' he => ⟨he.1, fun name hname =>
      himp name _ _ (he.2 name hname)⟩⟩

/-- Of plain values only plain values are compared. -/
theorem AgreeIn.imp {agree' : Text → Value → Value → Prop} (hv : v.IsPlain) (hw : w.IsPlain)
    (himp : ∀ name a b, Value.IsPlain a → Value.IsPlain b → agree name a b → agree' name a b)
    (h : AgreeIn agree v w) : AgreeIn agree' v w := by
  obtain rfl | ⟨es, es', hes, hes', hagree⟩ := h
  · exact .inl rfl
  · refine .inr ⟨es, es', hes, hes', ?_⟩
    obtain rfl : v = .mapping es := hv.untag.symm.trans hes
    obtain rfl : w = .mapping es' := hw.untag.symm.trans hes'
    rw [EntriesAgree, List.forall₂_iff_zip] at hagree ⊢
    refine ⟨hagree.1, fun {e e'} hmem => ?_⟩
    obtain ⟨he, he'⟩ := List.of_mem_zip hmem
    obtain ⟨hkey, hvalue⟩ := hagree.2 hmem
    exact ⟨hkey, fun name hname => himp name _ _ ((isPlain_mapping_iff.mp hv).2 e he).2
      ((isPlain_mapping_iff.mp hw).2 e' he').2 (hvalue name hname)⟩

theorem AgreeIn.null_or (h : AgreeIn agree v w) :
    (v = .null ∧ w = .null) ∨ (v ≠ .null ∧ w ≠ .null) := by
  obtain rfl | ⟨es, es', hv, hw, -⟩ := h
  · by_cases hnull : v = .null
    · exact .inl ⟨hnull, hnull⟩
    · exact .inr ⟨hnull, hnull⟩
  · refine .inr ⟨?_, ?_⟩
    · rintro rfl
      exact nomatch hv
    · rintro rfl
      exact nomatch hw

theorem matches_optional {read : Reading α} {S : α → α → Prop} (h : AgreeIn agree v w)
    (hread : Matches S (read v) (read w)) :
    Matches (Option.Rel S) (optional read v) (optional read w) := by
  obtain ⟨rfl, rfl⟩ | ⟨hv, hw⟩ := h.null_or
  · exact .ok .none
  · rw [optional_of_ne_null hv, optional_of_ne_null hw]
    exact hread.map fun _ _ => .some

theorem optional_congr {read : Reading α} (h : AgreeIn agree v w) (hread : read v = read w) :
    optional read v = optional read w := by
  obtain ⟨rfl, rfl⟩ | ⟨hv, hw⟩ := h.null_or
  · rfl
  · rw [optional_of_ne_null hv, optional_of_ne_null hw, hread]

/-! ## Documents -/

def AgreeInRoots : Value → Value → Prop :=
  AgreeIn fun name v w => name ∈ ["module_root".toList, "shared_contracts_root".toList] → v = w

def AgreeInProfile : Value → Value → Prop :=
  AgreeIn fun name v w => name = "roots".toList → AgreeInRoots v w

def AgreeInProfiles : Value → Value → Prop := AgreeIn fun _ => AgreeInProfile

/-- What stands under `routing` is related in a way of its own. -/
def AgreeInBody (routing : Value → Value → Prop) : Value → Value → Prop :=
  AgreeIn fun name v w =>
    (name = "profiles".toList → AgreeInProfiles v w) ∧ (name = "routing".toList → routing v w)

def AgreeInDocument (routing : Value → Value → Prop) : Value → Value → Prop :=
  AgreeIn fun name v w => name = "clean_plus".toList → AgreeInBody routing v w

theorem AgreeIn.refl (v : Value) : AgreeIn agree v v := .inl rfl

theorem roots_congr (h : AgreeInRoots v w) : roots v = roots w := by
  refine fields_congr h (fun _ _ _ => rfl) fun name hname v w hvw s => ?_
  rw [hvw hname]

theorem profile_congr (h : AgreeInProfile v w) : profile v = profile w := by
  refine fields_congr h (fun _ v _ => .refl v) fun name hname v w hvw s => ?_
  have hroots : AgreeInRoots v w := hvw (List.mem_singleton.mp hname)
  rw [optional_congr hroots (roots_congr hroots)]

theorem profiles_congr (h : AgreeInProfiles v w) : profiles v = profiles w := by
  obtain rfl | ⟨es, es', hv, hw, hes⟩ := h
  · rfl
  · rw [profiles, profiles, entries_of_mapping hv, entries_of_mapping hw]
    show List.foldlM _ _ es = List.foldlM _ _ es'
    clear hv hw
    generalize Keyed.empty = m
    induction hes generalizing m with
    | nil => rfl
    | @cons e e' rest rest' hhead htail ih =>
      obtain ⟨k, v⟩ := e
      obtain ⟨_, w⟩ := e'
      obtain ⟨rfl, hagree⟩ := hhead
      rw [List.foldlM_cons, List.foldlM_cons]
      cases htext : text .text k with
      | error e => rfl
      | ok key =>
        have hvw : AgreeInProfile v w := hagree key (text_eq_ok_iff.mp htext)
        rw [optional_congr hvw (profile_congr hvw)]
        exact congrArg _ (funext ih)

/-! ## Rulebooks -/

def CopiedAlike (v w : Value) : Prop := v.unmark.isProper = w.unmark.isProper

/-- Nothing is lost when a plain value is copied. -/
theorem copiedAlike_of_isPlain (hv : v.IsPlain) (hw : w.IsPlain) : CopiedAlike v w := by
  rw [CopiedAlike, Value.unmark_of_isUntagged v hv.isUntagged,
    Value.unmark_of_isUntagged w hw.isUntagged]
  exact hv.isProper.trans hw.isProper.symm

theorem AgreeInDocument.of_isPlain {routing : Value → Value → Prop} (hv : v.IsPlain)
    (hw : w.IsPlain) (h : AgreeInDocument routing v w) : AgreeInDocument CopiedAlike v w :=
  AgreeIn.imp hv hw (fun _ _ _ ha hb hbody hname => AgreeIn.imp ha hb (fun _ _ _ ha hb hagree =>
    ⟨hagree.1, fun _ => copiedAlike_of_isPlain ha hb⟩) (hbody hname)) h

theorem exists_raw (h : v.unmark.isProper = true) : ∃ r, optional raw v = .ok r := by
  by_cases hnull : v = .null
  · exact ⟨none, hnull ▸ rfl⟩
  · refine ⟨some v.unmark, ?_⟩
    rw [optional_of_ne_null hnull, raw, Value.copy?, if_pos h]
    rfl

theorem raw_of_no_copy (h : v.unmark.isProper = false) :
    optional raw v = .error .duplicateKey := by
  have hnull : v ≠ .null := by
    rintro rfl
    exact nomatch h
  rw [optional_of_ne_null hnull, raw, Value.copy?, if_neg (Bool.eq_false_iff.mp h)]
  rfl

/-- The two bodies differ in their routing at most. -/
def SameProfiles (b b' : BodyDraft) : Prop := b.profiles = b'.profiles

theorem SameProfiles.refl (b : BodyDraft) : SameProfiles b b := rfl

theorem matches_body (h : AgreeInBody CopiedAlike v w) :
    Matches SameProfiles (body v) (body w) := by
  refine matches_fields h (fun _ v => ⟨fun _ => .refl v, fun _ => rfl⟩) ?_ rfl
  intro name hname v w hvw b b' hb
  by_cases hprofiles : name = "profiles".toList
  · rw [if_pos hprofiles, if_pos hprofiles,
      optional_congr (hvw.1 hprofiles) (profiles_congr (hvw.1 hprofiles))]
    exact (Matches.refl (fun _ => rfl) _).map fun _ _ => id
  · rw [if_neg hprofiles, if_neg hprofiles]
    have hrouting : name = "routing".toList :=
      List.mem_singleton.mp ((List.mem_cons.mp hname).resolve_left hprofiles)
    have hcopied : v.unmark.isProper = w.unmark.isProper := hvw.2 hrouting
    cases hv : v.unmark.isProper with
    | true =>
      obtain ⟨r, hr⟩ := exists_raw hv
      obtain ⟨r', hr'⟩ := exists_raw (hcopied ▸ hv)
      rw [hr, hr']
      exact .ok hb
    | false =>
      rw [raw_of_no_copy hv, raw_of_no_copy (hcopied ▸ hv)]
      exact .error _

def MatchInBody (v w : Value) : Prop :=
  Matches (Option.Rel SameProfiles) (optional body v) (optional body w)

theorem MatchInBody.refl (v : Value) : MatchInBody v v := by
  refine Matches.refl (fun b => ?_) _
  cases b with
  | none => exact .none
  | some b => exact .some (SameProfiles.refl b)

theorem matches_draft
    (h : AgreeIn (fun name v w => name = "clean_plus".toList → MatchInBody v w) v w) :
    Matches (fun d d' => Option.Rel SameProfiles d.body d'.body) (Draft.ofValue v)
      (Draft.ofValue w) := by
  refine matches_fields h (fun _ v _ => .refl v) ?_ .none
  intro name hname v w hvw _ _ _
  exact (hvw (List.mem_singleton.mp hname)).map fun _ _ => id

end Reading

namespace Draft

open Reading (SameProfiles)

theorem matches_load {d d' : Draft} (h : Option.Rel SameProfiles d.body d'.body) :
    Matches (fun b b' => b.profiles = b'.profiles) d.load d'.load := by
  obtain ⟨body⟩ := d
  obtain ⟨body'⟩ := d'
  cases h with
  | none => exact .error _
  | @some b b' hb =>
    cases hprofiles : b.profiles with
    | none =>
      have hprofiles' : b'.profiles = none := hb ▸ hprofiles
      simp only [load, hprofiles, hprofiles']
      exact .error _
    | some drafts =>
      rw [load_of_profiles hprofiles, load_of_profiles (hb ▸ hprofiles)]
      exact (Matches.refl (fun _ => rfl) _).map fun _ _ hp => hp ▸ rfl

end Draft

namespace Rulebook

open Reading (AgreeIn AgreeInDocument CopiedAlike MatchInBody)

variable {v w : Value}

theorem ofValue_of_draft {d : Draft} (h : Draft.ofValue v = .ok d) :
    ofValue v = d.load.mapError .invalid := by
  rw [ofValue, h]
  rfl

theorem ofValue_of_no_draft {e : ShapeError} (h : Draft.ofValue v = .error e) :
    ofValue v = .error (.shape e) := by
  rw [ofValue, h]
  rfl

theorem ofValue_eq_ok_iff {book : Rulebook} :
    ofValue v = .ok book ↔ ∃ d, Draft.ofValue v = .ok d ∧ d.load = .ok book := by
  cases h : Draft.ofValue v with
  | error e =>
    rw [ofValue_of_no_draft h]
    exact iff_of_false nofun fun ⟨_, h, _⟩ => nomatch h
  | ok d =>
    rw [ofValue_of_draft h]
    simp only [Except.ok.injEq, exists_eq_left']
    cases d.load <;> simp [Except.mapError]

theorem matches_ofValue_of_bodies
    (h : AgreeIn (fun name v w => name = "clean_plus".toList → MatchInBody v w) v w) :
    Matches (fun b b' => b.profiles = b'.profiles) (ofValue v) (ofValue w) :=
  ((Reading.matches_draft h).mapError _).bind fun _ _ hd => (Draft.matches_load hd).mapError _

/-- Documents that agree in the roots of every profile have the same error, or rulebooks with the
same profiles. -/
theorem matches_ofValue (h : AgreeInDocument CopiedAlike v w) :
    Matches (fun b b' => b.profiles = b'.profiles) (ofValue v) (ofValue w) :=
  matches_ofValue_of_bodies <| h.mono fun _ _ _ hbody hname =>
    Reading.matches_optional (hbody hname) (Reading.matches_body (hbody hname))

end Rulebook
end ModuleBoundary
