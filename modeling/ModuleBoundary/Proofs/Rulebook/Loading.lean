/-
Which drafts are rulebooks, and what is reported of the others.

A profile of a draft either gives roots (`ProfileDraft.Gives`) or has problems
(`ProfileDraft.HasProblem`), and checking it finds out which (`ProfileDraft.checked_check`).
The problems of one profile stay together, and the keys of the profiles ascend, so the list
of all problems is in the order of `Problem.Precedes`.  A list in this order is decided by
its members, which is how `load_exact` can say what exactly is reported.
-/
import ModuleBoundary.Proofs.Path.Texts
import ModuleBoundary.Proofs.Rulebook.Choosing

namespace ModuleBoundary

/-! ## The order of problems -/

namespace DraftPlace

def key? : DraftPlace → Option Text
  | .body => none
  | .profiles => none
  | .roots key => some key
  | .moduleRoot key => some key
  | .sharedRoot key => some key

end DraftPlace

namespace Problem

/-- Problems come in the order of the keys, and of one profile the module root comes first. -/
inductive Precedes : Problem → Problem → Prop
  | ofKeys {p q : Problem} {k l : Text} (hp : p.place.key? = some k) (hq : q.place.key? = some l)
    (hlt : k < l) : Precedes p q
  | ofRoots (key : Text) (f g : Fault) : Precedes ⟨.moduleRoot key, f⟩ ⟨.sharedRoot key, g⟩

theorem Precedes.asymm {p q : Problem} (h : Precedes p q) : ¬Precedes q p := by
  intro h'
  cases h with
  | ofKeys hp hq hlt =>
    cases h' with
    | ofKeys hq' hp' hlt' =>
      obtain rfl := Option.some.inj (hp.symm.trans hp')
      obtain rfl := Option.some.inj (hq.symm.trans hq')
      exact List.lt_asymm hlt hlt'
    | ofRoots key f g =>
      obtain rfl := Option.some.inj hp
      obtain rfl := Option.some.inj hq
      exact List.lt_irrefl _ hlt
  | ofRoots key f g =>
    cases h' with
    | ofKeys hq hp hlt =>
      obtain rfl := Option.some.inj hp
      obtain rfl := Option.some.inj hq
      exact List.lt_irrefl _ hlt

theorem Precedes.ne {p q : Problem} (h : Precedes p q) : p ≠ q := by
  rintro rfl
  exact h.asymm h

/-- Problems in order are decided by which problems there are. -/
theorem eq_of_precedes {ps qs : List Problem} (hp : ps.Pairwise Precedes)
    (hq : qs.Pairwise Precedes) (hmem : ∀ p, p ∈ ps ↔ p ∈ qs) : ps = qs := by
  have : Std.Irrefl Precedes := ⟨fun _ h => h.asymm h⟩
  have : Std.Antisymm Precedes := ⟨fun _ _ h h' => absurd h' h.asymm⟩
  exact hp.eq_of_mem_iff hq hmem

/-- How the words for a place end.  That much is enough to know the kind of place. -/
def ending : DraftPlace → Text
  | .body => "n_plus".toList
  | .profiles => "ofiles".toList
  | .roots _ => ".roots".toList
  | .moduleRoot _ => "e_root".toList
  | .sharedRoot _ => "s_root".toList

theorem take_reverse_append {n : Nat} (s : Text) {t : Text} (h : n ≤ t.length) :
    (s ++ t).reverse.take n = t.reverse.take n := by
  rw [List.reverse_append, List.take_append_of_le_length (by rwa [List.length_reverse])]

theorem take_reverse_describe (place : DraftPlace) :
    place.describe.reverse.take 6 = (ending place).reverse := by
  cases place with
  | body => decide
  | profiles => decide
  | roots key => exact take_reverse_append _ (by decide)
  | moduleRoot key => exact (take_reverse_append _ (by decide)).trans rfl
  | sharedRoot key => exact (take_reverse_append _ (by decide)).trans rfl

theorem place_injective {place place' : DraftPlace} (h : place.describe = place'.describe) :
    place = place' := by
  have hends : (ending place).reverse = (ending place').reverse := by
    rw [← take_reverse_describe, ← take_reverse_describe, h]
  have hkey {head tail key key' : Text} (h : head ++ key ++ tail = head ++ key' ++ tail) :
      key = key' := List.append_cancel_left (List.append_cancel_right h)
  cases place <;> cases place' <;>
    first
    | rfl
    | unfold ending at hends; dsimp only at hends; exact absurd hends (by decide)
    | rw [hkey h]

/-- The words for a problem say which one it is. -/
theorem describe_injective {p q : Problem} (h : p.describe = q.describe) : p = q := by
  obtain ⟨place, fault⟩ := p
  obtain ⟨place', fault'⟩ := q
  have hlong (f : Fault) : 2 ≤ f.describe.length := by cases f <;> decide
  have hends : fault.describe.reverse.take 2 = fault'.describe.reverse.take 2 := by
    rw [← take_reverse_append (place.describe ++ ": ".toList) (hlong fault),
      ← take_reverse_append (place'.describe ++ ": ".toList) (hlong fault')]
    exact congrArg (fun t => t.reverse.take 2) h
  obtain rfl : fault = fault' := by
    cases fault <;> cases fault' <;> first | rfl | exact absurd hends (by decide)
  have hplace : place.describe = place'.describe :=
    List.append_cancel_right (List.append_cancel_right h)
  exact congrArg (Problem.mk · fault) (place_injective hplace)

end Problem

/-! ## One profile -/

namespace ProfileDraft

/-- The roots of a profile: the module root is there, and no root is blank. -/
def Gives (draft : Option ProfileDraft) (roots : Roots) : Prop :=
  ∃ root shared, draft = some ⟨some ⟨some root, shared⟩⟩ ∧ Text.trim root ≠ [] ∧
    (∀ s, shared = some s → Text.trim s ≠ []) ∧
    roots = ⟨.ofText (Text.trim root), shared.map fun s => .ofText (Text.trim s)⟩

inductive HasProblem (key : Text) : Option ProfileDraft → Problem → Prop
  | noProfile : HasProblem key none ⟨.roots key, .missing⟩
  | noRoots : HasProblem key (some ⟨none⟩) ⟨.roots key, .missing⟩
  | noModuleRoot (shared : Option Text) :
    HasProblem key (some ⟨some ⟨none, shared⟩⟩) ⟨.moduleRoot key, .missing⟩
  | blankModuleRoot {root : Text} (shared : Option Text) (h : Text.trim root = []) :
    HasProblem key (some ⟨some ⟨some root, shared⟩⟩) ⟨.moduleRoot key, .empty⟩
  | blankSharedRoot (root : Option Text) {shared : Text} (h : Text.trim shared = []) :
    HasProblem key (some ⟨some ⟨root, some shared⟩⟩) ⟨.sharedRoot key, .empty⟩

variable {key : Text} {draft : Option ProfileDraft} {root shared : Option Text} {roots : Roots}
  {p : Problem} {ps : List Problem}

theorem HasProblem.key_eq (h : HasProblem key draft p) : p.place.key? = some key := by
  cases h <;> rfl

def rootProblems (key : Text) (root shared : Option Text) : List Problem :=
  moduleRootProblems key root ++ sharedRootProblems key shared

theorem moduleRootProblems_cases (key : Text) (root : Option Text) :
    (∃ f, moduleRootProblems key root = [⟨.moduleRoot key, f⟩]) ∨
      (∃ t, root = some t ∧ Text.trim t ≠ []) ∧ moduleRootProblems key root = [] := by
  cases root with
  | none => exact .inl ⟨_, rfl⟩
  | some t =>
    rw [moduleRootProblems]
    split
    · exact .inl ⟨_, rfl⟩
    · next h => exact .inr ⟨⟨t, rfl, h⟩, rfl⟩

theorem sharedRootProblems_cases (key : Text) (shared : Option Text) :
    sharedRootProblems key shared = [⟨.sharedRoot key, .empty⟩] ∨
      (∀ t, shared = some t → Text.trim t ≠ []) ∧ sharedRootProblems key shared = [] := by
  cases shared with
  | none => exact .inr ⟨nofun, rfl⟩
  | some t =>
    rw [sharedRootProblems]
    split
    · exact .inl rfl
    · next h => exact .inr ⟨fun _ ht => Option.some.inj ht ▸ h, rfl⟩

theorem mem_rootProblems :
    p ∈ rootProblems key root shared ↔ HasProblem key (some ⟨some ⟨root, shared⟩⟩) p := by
  rw [rootProblems, List.mem_append]
  constructor
  · rintro (h | h)
    · cases root with
      | none =>
        obtain rfl := List.mem_singleton.mp h
        exact .noModuleRoot shared
      | some t =>
        rw [moduleRootProblems] at h
        split at h
        · next hblank =>
          obtain rfl := List.mem_singleton.mp h
          exact .blankModuleRoot shared hblank
        · exact absurd h List.not_mem_nil
    · cases shared with
      | none => exact absurd h List.not_mem_nil
      | some t =>
        rw [sharedRootProblems] at h
        split at h
        · next hblank =>
          obtain rfl := List.mem_singleton.mp h
          exact .blankSharedRoot root hblank
        · exact absurd h List.not_mem_nil
  · intro h
    cases h with
    | noModuleRoot => exact .inl List.mem_cons_self
    | blankModuleRoot _ h => simp [moduleRootProblems, h]
    | blankSharedRoot _ h => simp [sharedRootProblems, h]

theorem precedes_rootProblems (key : Text) (root shared : Option Text) :
    (rootProblems key root shared).Pairwise Problem.Precedes := by
  rw [rootProblems]
  rcases moduleRootProblems_cases key root with ⟨f, hroot⟩ | ⟨_, hroot⟩ <;>
    rcases sharedRootProblems_cases key shared with hshared | ⟨_, hshared⟩ <;>
    rw [hroot, hshared]
  · refine List.pairwise_cons.mpr ⟨fun q hq => ?_, List.pairwise_singleton _ _⟩
    obtain rfl := List.mem_singleton.mp hq
    exact .ofRoots key f .empty
  · exact List.pairwise_singleton _ _
  · exact List.pairwise_singleton _ _
  · exact List.Pairwise.nil

theorem Gives.not_hasProblem (h : Gives draft roots) : ¬HasProblem key draft p := by
  obtain ⟨root, shared, rfl, hroot, hshared, -⟩ := h
  intro hp
  cases hp with
  | blankModuleRoot _ hblank => exact hroot hblank
  | blankSharedRoot _ hblank => exact hshared _ rfl hblank

inductive Checked (key : Text) (draft : Option ProfileDraft) : Except (List Problem) Profile → Prop
  | profile {roots : Roots} (h : Gives draft roots) : Checked key draft (.ok ⟨key, roots⟩)
  | problems {ps : List Problem} (hne : ps ≠ []) (horder : ps.Pairwise Problem.Precedes)
    (hmem : ∀ p, p ∈ ps ↔ HasProblem key draft p) : Checked key draft (.error ps)

/-- Without roots there is one problem, and it is a problem of the profile. -/
theorem checked_noRoots (hroots : ∀ p, p = ⟨.roots key, .missing⟩ ↔ HasProblem key draft p) :
    Checked key draft (.error [⟨.roots key, .missing⟩]) :=
  .problems (List.cons_ne_nil _ _) (List.pairwise_singleton _ _)
    fun p => List.mem_singleton.trans (hroots p)

theorem checked_check (key : Text) (draft : Option ProfileDraft) :
    Checked key draft (check key draft) := by
  match draft with
  | none =>
    refine checked_noRoots fun p => ⟨fun h => h ▸ .noProfile, fun h => ?_⟩
    cases h
    rfl
  | some ⟨none⟩ =>
    refine checked_noRoots fun p => ⟨fun h => h ▸ .noRoots, fun h => ?_⟩
    cases h
    rfl
  | some ⟨some ⟨root, shared⟩⟩ =>
    rw [check]
    simp only [Option.bind_some]
    rw [← rootProblems]
    by_cases hnil : rootProblems key root shared = []
    · obtain ⟨hroot, hshared⟩ := List.append_eq_nil_iff.mp hnil
      obtain ⟨t, rfl, ht⟩ : ∃ t, root = some t ∧ Text.trim t ≠ [] := by
        rcases moduleRootProblems_cases key root with ⟨f, h⟩ | ⟨h, -⟩
        · exact absurd (h.symm.trans hroot) (List.cons_ne_nil _ _)
        · exact h
      have hs : ∀ s, shared = some s → Text.trim s ≠ [] := by
        rcases sharedRootProblems_cases key shared with h | ⟨h, -⟩
        · exact absurd (h.symm.trans hshared) (List.cons_ne_nil _ _)
        · exact h
      rw [hnil]
      exact .profile ⟨t, shared, rfl, ht, hs, rfl⟩
    · split
      · next h => exact absurd h hnil
      · exact .problems hnil (precedes_rootProblems _ _ _) fun p => mem_rootProblems

theorem check_eq_ok_iff {profile : Profile} :
    check key draft = .ok profile ↔ profile.key = key ∧ Gives draft profile.roots := by
  constructor
  · intro h
    have hchecked := checked_check key draft
    rw [h] at hchecked
    cases hchecked with
    | profile hgives => exact ⟨rfl, hgives⟩
  · rintro ⟨rfl, hgives⟩
    have hchecked := checked_check profile.key draft
    cases hcheck : check profile.key draft with
    | ok other =>
      rw [hcheck] at hchecked
      cases hchecked with
      | profile hother =>
        -- A draft gives roots in one way only.
        obtain ⟨root, shared, rfl, -, -, hroots⟩ := hgives
        obtain ⟨root', shared', hdraft, -, -, rfl⟩ := hother
        simp only [Option.some.injEq, ProfileDraft.mk.injEq, RootsDraft.mk.injEq] at hdraft
        obtain ⟨rfl, rfl⟩ := hdraft
        rw [← hroots]
    | error ps =>
      rw [hcheck] at hchecked
      cases hchecked with
      | problems hne _ hmem =>
        obtain ⟨p, hp⟩ := List.exists_mem_of_ne_nil _ hne
        exact absurd ((hmem p).mp hp) hgives.not_hasProblem

def profile? (key : Text) (draft : Option ProfileDraft) : Option Profile :=
  match check key draft with
  | .ok profile => some profile
  | .error _ => none

theorem profile?_eq_some_iff {profile : Profile} :
    profile? key draft = some profile ↔ profile.key = key ∧ Gives draft profile.roots := by
  rw [← check_eq_ok_iff, profile?]
  cases check key draft <;> simp

def problems (key : Text) (draft : Option ProfileDraft) : List Problem :=
  match check key draft with
  | .error ps => ps
  | .ok _ => []

theorem mem_problems : p ∈ problems key draft ↔ HasProblem key draft p := by
  have hchecked := checked_check key draft
  rw [problems]
  cases hcheck : check key draft with
  | ok profile =>
    obtain ⟨-, hgives⟩ := check_eq_ok_iff.mp hcheck
    exact iff_of_false List.not_mem_nil hgives.not_hasProblem
  | error ps =>
    rw [hcheck] at hchecked
    cases hchecked with
    | problems _ _ hmem => exact hmem p

theorem precedes_problems (key : Text) (draft : Option ProfileDraft) :
    (problems key draft).Pairwise Problem.Precedes := by
  have hchecked := checked_check key draft
  rw [problems]
  cases hcheck : check key draft with
  | ok profile => exact List.Pairwise.nil
  | error ps =>
    rw [hcheck] at hchecked
    cases hchecked with
    | problems _ horder _ => exact horder

theorem problems_eq_nil_iff : problems key draft = [] ↔ ∃ roots, Gives draft roots := by
  have hchecked := checked_check key draft
  rw [problems]
  cases hcheck : check key draft with
  | ok profile => exact iff_of_true rfl ⟨_, (check_eq_ok_iff.mp hcheck).2⟩
  | error ps =>
    rw [hcheck] at hchecked
    cases hchecked with
    | problems hne _ hmem =>
      refine iff_of_false hne ?_
      rintro ⟨roots, hgives⟩
      obtain ⟨p, hp⟩ := List.exists_mem_of_ne_nil _ hne
      exact hgives.not_hasProblem ((hmem p).mp hp)

end ProfileDraft

/-! ## All profiles -/

namespace Draft

open ProfileDraft
open Yaml (Value)

def HasProfiles (draft : Draft) (drafts : Keyed (Option ProfileDraft)) : Prop :=
  ∃ body, draft.body = some body ∧ body.profiles = some drafts

@[simp]
theorem not_hasProfiles_none {drafts : Keyed (Option ProfileDraft)} :
    ¬HasProfiles ⟨none⟩ drafts := by
  simp [HasProfiles]

@[simp]
theorem not_hasProfiles_body {routing : Option Value} {drafts : Keyed (Option ProfileDraft)} :
    ¬HasProfiles ⟨some ⟨none, routing⟩⟩ drafts := by
  simp [HasProfiles]

@[simp]
theorem hasProfiles_iff {routing : Option Value} {drafts drafts' : Keyed (Option ProfileDraft)} :
    HasProfiles ⟨some ⟨some drafts, routing⟩⟩ drafts' ↔ drafts = drafts' := by
  simp [HasProfiles]

variable {draft : Draft} {body : BodyDraft} {drafts : Keyed (Option ProfileDraft)}
  {entries : List (Text × Option ProfileDraft)} {profiles : List Profile} {ps : List Problem}
  {book : Rulebook}

def allProblems (entries : List (Text × Option ProfileDraft)) : List Problem :=
  entries.flatMap fun d => problems d.1 d.2

theorem checkProfiles_eq (entries : List (Text × Option ProfileDraft)) :
    checkProfiles entries =
      if allProblems entries = [] then
        .ok (entries.filterMap fun d => profile? d.1 d.2)
      else .error (allProblems entries) := by
  rw [checkProfiles, allProblems]
  simp only [List.flatMap_map, List.filterMap_map]
  rfl

theorem mem_allProblems {p : Problem} :
    p ∈ allProblems drafts.entries ↔ ∃ key d, drafts.find? key = some d ∧ HasProblem key d p := by
  rw [allProblems, List.mem_flatMap]
  constructor
  · rintro ⟨⟨key, d⟩, hmem, hp⟩
    exact ⟨key, d, Keyed.mem_entries_iff.mp hmem, mem_problems.mp hp⟩
  · rintro ⟨key, d, hfind, hp⟩
    exact ⟨(key, d), Keyed.mem_entries_iff.mpr hfind, mem_problems.mpr hp⟩

/-- The keys ascend, so the problems of all profiles are in order if those of each one are. -/
theorem precedes_allProblems (drafts : Keyed (Option ProfileDraft)) :
    (allProblems drafts.entries).Pairwise Problem.Precedes := by
  rw [allProblems, List.pairwise_flatMap]
  refine ⟨fun d _ => precedes_problems d.1 d.2, drafts.ascending.imp fun hlt p hp q hq => ?_⟩
  exact .ofKeys (mem_problems.mp hp).key_eq (mem_problems.mp hq).key_eq hlt

theorem allProblems_eq_nil_iff :
    allProblems drafts.entries = [] ↔
      ∀ key d, drafts.find? key = some d → ∃ roots, Gives d roots := by
  rw [allProblems, List.flatMap_eq_nil_iff]
  constructor
  · intro h key d hfind
    exact problems_eq_nil_iff.mp (h (key, d) (Keyed.mem_entries_iff.mpr hfind))
  · rintro h ⟨key, d⟩ hmem
    exact problems_eq_nil_iff.mpr (h key d (Keyed.mem_entries_iff.mp hmem))

theorem checkProfiles_eq_error_iff :
    checkProfiles drafts.entries = .error ps ↔ ps ≠ [] ∧ ps.Pairwise Problem.Precedes ∧
      ∀ p, p ∈ ps ↔ ∃ key d, drafts.find? key = some d ∧ HasProblem key d p := by
  rw [checkProfiles_eq]
  split
  · next hnil =>
    refine ⟨nofun, fun ⟨hne, _, hps⟩ => ?_⟩
    obtain ⟨p, hp⟩ := List.exists_mem_of_ne_nil _ hne
    have hp' : p ∈ allProblems drafts.entries := mem_allProblems.mpr ((hps p).mp hp)
    exact absurd (hnil ▸ hp') List.not_mem_nil
  · next hne =>
    constructor
    · intro h
      obtain rfl := Except.error.inj h
      exact ⟨hne, precedes_allProblems drafts, fun p => mem_allProblems⟩
    · rintro ⟨-, horder, hps⟩
      refine congrArg Except.error (Problem.eq_of_precedes (precedes_allProblems drafts) horder ?_)
      exact fun p => mem_allProblems.trans (hps p).symm

theorem mem_of_checkProfiles (h : checkProfiles entries = .ok profiles) {p : Profile} :
    p ∈ profiles ↔ ∃ d ∈ entries, p.key = d.1 ∧ Gives d.2 p.roots := by
  rw [checkProfiles_eq] at h
  split at h
  · obtain rfl := Except.ok.inj h
    simp only [List.mem_filterMap, profile?_eq_some_iff]
  · exact absurd h nofun

/-- Every profile of the draft becomes a profile, in the same place. -/
theorem keys_of_checkProfiles (h : checkProfiles entries = .ok profiles) :
    profiles.map (·.key) = entries.map Prod.fst := by
  rw [checkProfiles_eq] at h
  split at h
  · next hnil =>
    obtain rfl := Except.ok.inj h
    clear h
    induction entries with
    | nil => rfl
    | cons d rest ih =>
      rw [allProblems, List.flatMap_cons, List.append_eq_nil_iff] at hnil
      obtain ⟨roots, hgives⟩ := problems_eq_nil_iff.mp hnil.1
      have hprofile : profile? d.1 d.2 = some ⟨d.1, roots⟩ := profile?_eq_some_iff.mpr ⟨rfl, hgives⟩
      simp only [List.filterMap_cons, hprofile, List.map_cons, ih hnil.2]
  · exact absurd h nofun

theorem profile?_of_checkProfiles (h : checkProfiles drafts.entries = .ok profiles)
    (routing : Keyed Routing) {key : Text} {p : Profile} :
    (Rulebook.new profiles routing).profile? key = some p ↔
      p.key = key ∧ ∃ d, drafts.find? key = some d ∧ Gives d p.roots := by
  have hkeys : (profiles.map fun p => (p.key, p)).map Prod.fst = drafts.keys := by
    rw [List.map_map]
    exact keys_of_checkProfiles h
  have hnodup : ((profiles.map fun p => (p.key, p)).map Prod.fst).Nodup := by
    rw [hkeys]
    exact Keyed.nodup_of_ascending (Keyed.keys_ascending drafts)
  rw [Rulebook.profile?, Rulebook.new, Keyed.find?_ofList_of_nodup hnodup, List.mem_map]
  constructor
  · rintro ⟨p, hp, heq⟩
    obtain ⟨rfl, rfl⟩ := Prod.mk.inj heq
    obtain ⟨d, hd, hkey, hgives⟩ := (mem_of_checkProfiles h).mp hp
    exact ⟨rfl, d.2, Keyed.mem_entries_iff.mp (hkey ▸ hd), hgives⟩
  · rintro ⟨rfl, d, hfind, hgives⟩
    refine ⟨p, (mem_of_checkProfiles h).mpr ⟨(p.key, d), ?_, rfl, hgives⟩, rfl⟩
    exact Keyed.mem_entries_iff.mpr hfind

theorem keys_new_of_checkProfiles (h : checkProfiles drafts.entries = .ok profiles)
    (routing : Keyed Routing) : (Rulebook.new profiles routing).keys = drafts.keys := by
  refine Keyed.eq_of_ascending (Keyed.keys_ascending _) (Keyed.keys_ascending _) fun key => ?_
  rw [Rulebook.lists_keys_new.2 key, Keyed.keys, ← keys_of_checkProfiles h, List.mem_map]

/-! ## Loading -/

theorem load_of_profiles (h : body.profiles = some drafts) :
    Draft.load ⟨some body⟩ = (checkProfiles drafts.entries).map fun profiles =>
      .new profiles ((body.routing.map Routing.allOf).getD .empty) := by
  rw [load]
  simp only [h]
  cases checkProfiles drafts.entries <;> rfl

def IsSound (draft : Draft) : Prop :=
  ∃ drafts, draft.HasProfiles drafts ∧ ∀ key d, drafts.find? key = some d → ∃ roots, Gives d roots

/-- The rulebook has the keys of the draft, and under each of them the roots that the draft
gives there. -/
def IsHeldBy (draft : Draft) (book : Rulebook) : Prop :=
  ∃ drafts, draft.HasProfiles drafts ∧ book.keys = drafts.keys ∧
    ∀ key p, book.profile? key = some p ↔
      p.key = key ∧ ∃ d, drafts.find? key = some d ∧ Gives d p.roots

/-- The one entry that is missing, or else every problem of the profiles, in order. -/
def Reports (draft : Draft) (ps : List Problem) : Prop :=
  (draft.body = none ∧ ps = [⟨.body, .missing⟩]) ∨
    ((∃ body, draft.body = some body ∧ body.profiles = none) ∧ ps = [⟨.profiles, .missing⟩]) ∨
    ∃ drafts, draft.HasProfiles drafts ∧ ps ≠ [] ∧ ps.Pairwise Problem.Precedes ∧
      ∀ p, p ∈ ps ↔ ∃ key d, drafts.find? key = some d ∧ HasProblem key d p

theorem exists_load_iff : (∃ book, draft.load = .ok book) ↔ draft.IsSound := by
  match draft with
  | ⟨none⟩ => exact iff_of_false (fun ⟨_, h⟩ => nomatch h) (by simp [IsSound])
  | ⟨some ⟨none, _⟩⟩ => exact iff_of_false (fun ⟨_, h⟩ => nomatch h) (by simp [IsSound])
  | ⟨some ⟨some drafts, _⟩⟩ =>
    simp only [IsSound, hasProfiles_iff, exists_eq_left', ← allProblems_eq_nil_iff]
    rw [load_of_profiles rfl, checkProfiles_eq]
    split
    · next hnil => exact iff_of_true ⟨_, rfl⟩ hnil
    · next hne => exact iff_of_false (fun ⟨_, h⟩ => nomatch h) hne

theorem isHeldBy_of_load (h : draft.load = .ok book) : draft.IsHeldBy book := by
  match draft with
  | ⟨none⟩ => exact nomatch h
  | ⟨some ⟨none, _⟩⟩ => exact nomatch h
  | ⟨some ⟨some drafts, _⟩⟩ =>
    rw [load_of_profiles rfl] at h
    cases hcheck : checkProfiles drafts.entries with
    | error ps =>
      rw [hcheck] at h
      exact nomatch h
    | ok profiles =>
      rw [hcheck] at h
      obtain rfl := Except.ok.inj h
      exact ⟨drafts, hasProfiles_iff.mpr rfl, keys_new_of_checkProfiles hcheck _,
        fun key p => profile?_of_checkProfiles hcheck _⟩

theorem load_eq_error_iff : draft.load = .error ps ↔ draft.Reports ps := by
  match draft with
  | ⟨none⟩ =>
    rw [load, Except.error.injEq, eq_comm]
    simp [Reports]
  | ⟨some ⟨none, _⟩⟩ =>
    rw [load, Except.error.injEq, eq_comm]
    simp [Reports]
  | ⟨some ⟨some drafts, routing⟩⟩ =>
    have herror : Draft.load ⟨some ⟨some drafts, routing⟩⟩ = .error ps ↔
        checkProfiles drafts.entries = .error ps := by
      rw [load_of_profiles rfl]
      cases checkProfiles drafts.entries <;> simp [Except.map]
    rw [herror, checkProfiles_eq_error_iff]
    simp [Reports]

/-- No two problems of a report read the same. -/
theorem Reports.nodup_describe (h : draft.Reports ps) : (ps.map Problem.describe).Nodup := by
  have horder : ps.Pairwise Problem.Precedes := by
    rcases h with ⟨-, rfl⟩ | ⟨-, rfl⟩ | ⟨_, -, -, horder, -⟩
    · exact List.pairwise_singleton _ _
    · exact List.pairwise_singleton _ _
    · exact horder
  exact List.pairwise_map.mpr (horder.imp fun hpq heq => hpq.ne (Problem.describe_injective heq))

/-- A draft is loaded if and only if it has profiles and each of them gives roots, and then the
rulebook holds these profiles under their keys and nothing else.  Every other draft is
reported: as the one entry that is missing, or with every problem of its profiles, in the order
of the keys and of one profile the module root first.  No two entries of a report read the
same. -/
theorem load_exact (draft : Draft) :
    ((∃ book, draft.load = .ok book) ↔ draft.IsSound) ∧
    (∀ book, draft.load = .ok book → draft.IsHeldBy book) ∧
    (∀ ps, draft.load = .error ps ↔ draft.Reports ps) ∧
    ∀ ps, draft.load = .error ps → (ps.map Problem.describe).Nodup :=
  ⟨exists_load_iff, fun _ => isHeldBy_of_load, fun _ => load_eq_error_iff,
    fun _ h => (load_eq_error_iff.mp h).nodup_describe⟩

theorem isText_moduleRoot_of_load (h : draft.load = .ok book) {key : Text} {p : Profile}
    (hp : book.profile? key = some p) : p.roots.moduleRoot.IsText := by
  obtain ⟨drafts, -, -, hprofiles⟩ := isHeldBy_of_load h
  obtain ⟨-, d, -, root, shared, -, -, -, hroots⟩ := (hprofiles key p).mp hp
  rw [hroots]
  exact Path.isText_ofText _

def twoProfiles (web app : Option ProfileDraft) : Draft :=
  ⟨some ⟨some (.ofList [("web".toList, web), ("app".toList, app)]), none⟩⟩

def tidyDraft : Draft :=
  twoProfiles (some ⟨some ⟨some " w ".toList, none⟩⟩)
    (some ⟨some ⟨some "a".toList, some "s".toList⟩⟩)

def faultyDraft : Draft := twoProfiles (some ⟨some ⟨some [], some "\t".toList⟩⟩) (some ⟨none⟩)

theorem load_exact_twoProfiles :
    (∃ book, tidyDraft.load = .ok book ∧ tidyDraft.IsHeldBy book) ∧
    ∃ ps, ps.length = 3 ∧ faultyDraft.load = .error ps ∧ (ps.map Problem.describe).Nodup := by
  constructor
  · have hok : tidyDraft.load.isOk = true := by decide +kernel
    cases hload : tidyDraft.load with
    | ok book => exact ⟨book, rfl, (load_exact _).2.1 book hload⟩
    | error ps => exact nomatch hload ▸ hok
  · have hload : faultyDraft.load = .error [⟨.roots "app".toList, .missing⟩,
        ⟨.moduleRoot "web".toList, .empty⟩, ⟨.sharedRoot "web".toList, .empty⟩] := by rfl
    exact ⟨_, rfl, hload, (load_exact _).2.2.2 _ hload⟩

end Draft

/-! ## Rulebooks in files -/

namespace Rulebook

variable {t : Tree} {path base : Path} {book : Rulebook} {key : Option Text} {p : Profile}

theorem exists_load_of_ofFile (h : ofFile t path = .ok book) :
    ∃ draft : Draft, draft.load = .ok book := by
  have hmap {ε ε' α : Type} {x : Except ε α} {f : ε → ε'} {a : α} (hx : x.mapError f = .ok a) :
      x = .ok a := by
    cases x with
    | error e => exact nomatch hx
    | ok b => exact congrArg Except.ok (Except.ok.inj hx)
  rw [ofFile, bind_eq_ok_iff] at h
  obtain ⟨bytes, -, h⟩ := h
  split at h
  · exact nomatch h
  · rw [ofText] at h
    split at h
    · exact nomatch h
    · rw [ofValue, bind_eq_ok_iff] at h
      obtain ⟨draft, -, h⟩ := h
      exact ⟨draft, hmap h⟩

theorem profile?_of_choose (h : book.choose t base key = .ok p) :
    ∃ key, book.profile? key = some p := by
  cases key with
  | some key =>
    rw [choose] at h
    split at h
    · next q hq => exact ⟨key, hq.trans (congrArg some (Except.ok.inj h))⟩
    · cases h
  | none =>
    have hmem : p ∈ book.candidates t base := by
      rw [choose_eq_ok_iff.mp h]
      exact List.mem_singleton_self p
    obtain ⟨e, he, rfl⟩ := List.mem_map.mp (List.mem_filter.mp hmem).1
    exact ⟨e.1, Keyed.mem_entries_iff.mp he⟩

/-- The roots of a profile are texts of the rulebook. -/
theorem isText_moduleRoot_of_choose (hbook : ofFile t path = .ok book)
    (h : book.choose t base key = .ok p) : p.roots.moduleRoot.IsText := by
  obtain ⟨draft, hload⟩ := exists_load_of_ofFile hbook
  obtain ⟨key, hkey⟩ := profile?_of_choose h
  exact Draft.isText_moduleRoot_of_load hload hkey

end Rulebook
end ModuleBoundary
