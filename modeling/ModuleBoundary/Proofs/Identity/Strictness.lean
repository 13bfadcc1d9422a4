/-
What a file may not import.

An import is reported or not, whatever else the file imports, and what decides is the identity of
the file and the reference that the target is classified as (`Identity.forbids`).  The theorem
this file exists for is `reported_monotone`: for one list of imports and any classifier, a module
reports no more than its contracts would, and these no more than shared contracts.

A module is compared with the module of a reference letter by letter.  So a file is free to import
what names its own module by the same letters, and a name in other letters is that of another
module (`ofImports_drop_iff`, `not_forall_sameModule`).
-/
import Mathlib.Data.List.Basic
import ModuleBoundary.Proofs.Identity.Breaches

namespace ModuleBoundary

namespace Identity

variable {r : Reference} {name : Text} {strict : Bool}

def forbids : Identity → Reference → Bool
  | .sharedContracts, _ => true
  | .inModule name strict, r => r.moduleName != name && (strict || r.layer == .internals)

theorem forbids_inModule_iff : (inModule name strict).forbids r = true ↔
    r.moduleName ≠ name ∧ (strict = true ∨ r.layer = .internals) := by
  rw [forbids, Bool.and_eq_true, Bool.or_eq_true, bne_iff_ne, beq_iff_eq]

theorem isSome_breach? (source : Identity) (r : Reference) :
    (source.breach? r).isSome = source.forbids r := by
  rw [Bool.eq_iff_iff, Option.isSome_iff_exists]
  constructor
  · intro h
    obtain ⟨breach, hbreach⟩ := h
    cases breach?_eq_some_iff.mp hbreach with
    | sharedContracts => rfl
    | moduleContracts hne => exact forbids_inModule_iff.mpr ⟨Ne.symm hne, Or.inl rfl⟩
    | acrossModules hne hlayer => exact forbids_inModule_iff.mpr ⟨Ne.symm hne, Or.inr hlayer⟩
  · intro h
    cases source with
    | sharedContracts => exact ⟨_, breach?_eq_some_iff.mpr (.sharedContracts r)⟩
    | inModule name strict =>
      obtain ⟨hne, hstrict⟩ := forbids_inModule_iff.mp h
      cases strict with
      | true => exact ⟨_, breach?_eq_some_iff.mpr (.moduleContracts (Ne.symm hne))⟩
      | false =>
        have hlayer : r.layer = .internals := hstrict.resolve_left Bool.false_ne_true
        exact ⟨_, breach?_eq_some_iff.mpr (.acrossModules (Ne.symm hne) hlayer)⟩

end Identity

def Import.site (i : Import) : Nat × Text := (i.line, i.target)

namespace Violation

variable {c : Classifier} {file : Path} {source : Identity} {i : Import} {r : Reference}

def reported (c : Classifier) (file : Path) (source : Identity) (imports : List Import) :
    List (Nat × Text) :=
  (ofImports c file source imports).map fun v => (v.line, v.target)

/-! ## One import -/

theorem isSome_ofImport? : (ofImport? c file source i).isSome =
    (c.classify i.target).any source.forbids := by
  rw [ofImport?]
  cases c.classify i.target with
  | none => rfl
  | some r =>
    rw [Option.any_some, ← Identity.isSome_breach?]
    cases hbreach : source.breach? r <;> simp [hbreach]

theorem site_of_ofImport? {v : Violation} (h : ofImport? c file source i = some v) :
    (v.line, v.target) = i.site := by
  simp only [ofImport?, Option.bind_eq_bind, Option.bind_eq_some_iff] at h
  obtain ⟨r, _, breach, _, hv⟩ := h
  rw [← Option.some.inj hv, Import.site]

/-! ## A list of imports -/

theorem reported_eq_filter (imports : List Import) : reported c file source imports =
    (imports.filter fun i => (c.classify i.target).any source.forbids).map Import.site := by
  rw [reported, ofImports]
  induction imports with
  | nil => rfl
  | cons i imports ih =>
    have hsome := @isSome_ofImport? c file source i
    rw [List.filterMap_cons, List.filter_cons, ← hsome]
    cases hi : ofImport? c file source i with
    | none => exact ih
    | some v =>
      rw [List.map_cons, ih, site_of_ofImport? hi]
      rfl

theorem reported_eq {kind : Reference → Bool} (imports : List Import)
    (h : ∀ r, source.forbids r = true ↔ kind r = true) : reported c file source imports =
      (imports.filter fun i => (c.classify i.target).any kind).map Import.site := by
  have hkind : source.forbids = kind := funext fun r => Bool.eq_iff_iff.mpr (h r)
  rw [reported_eq_filter, hkind]

/-- Who may import less is reported for more of the same imports. -/
theorem reported_sublist {source' : Identity} (imports : List Import)
    (h : ∀ r, source.forbids r = true → source'.forbids r = true) :
    (reported c file source imports).Sublist (reported c file source' imports) := by
  rw [reported_eq_filter, reported_eq_filter]
  refine (List.monotone_filter_right imports fun i hi => ?_).map Import.site
  obtain ⟨r, hr, hforbids⟩ := (Option.any_eq_true _ _).mp hi
  exact (Option.any_eq_true _ _).mpr ⟨r, hr, h r hforbids⟩

/-- Of one list of imports, in their order and each of them once, shared contracts are reported for
those that are classified at all, the contracts of a module for those of other modules, and the
rest of a module for those of the internals of other modules. -/
theorem reported_monotone (c : Classifier) (file : Path) (name : Text) (imports : List Import) :
    (reported c file .sharedContracts imports =
        (imports.filter fun i => (c.classify i.target).isSome).map Import.site ∧
      reported c file (.inModule name true) imports =
        (imports.filter fun i => (c.classify i.target).any fun r =>
          r.moduleName ≠ name).map Import.site ∧
      reported c file (.inModule name false) imports =
        (imports.filter fun i => (c.classify i.target).any fun r =>
          r.moduleName ≠ name ∧ r.layer = .internals).map Import.site) ∧
    (reported c file (.inModule name false) imports).Sublist
      (reported c file (.inModule name true) imports) ∧
    (reported c file (.inModule name true) imports).Sublist
      (reported c file .sharedContracts imports) ∧
    (reported c file .sharedContracts imports).Sublist (imports.map Import.site) := by
  refine ⟨⟨?_, ?_, ?_⟩, ?_, ?_, ?_⟩
  · have hsome : ∀ o : Option Reference, o.any (fun _ => true) = o.isSome := fun o => by
      cases o <;> rfl
    simp only [← hsome]
    exact reported_eq imports fun _ => Iff.rfl
  · refine reported_eq imports fun r => ?_
    rw [Identity.forbids_inModule_iff, decide_eq_true_iff]
    exact and_iff_left (Or.inl rfl)
  · refine reported_eq imports fun r => ?_
    rw [Identity.forbids_inModule_iff, decide_eq_true_iff]
    exact and_congr_right fun _ => or_iff_right Bool.false_ne_true
  · refine reported_sublist imports fun r h => ?_
    obtain ⟨hne, _⟩ := Identity.forbids_inModule_iff.mp h
    exact Identity.forbids_inModule_iff.mpr ⟨hne, Or.inl rfl⟩
  · exact reported_sublist imports fun _ _ => rfl
  · rw [reported_eq_filter]
    exact List.filter_sublist.map Import.site

/-! ## References to the own module -/

variable {name : Text} {strict : Bool} {before behind : List Import}

theorem ofImport?_eq_none_iff (h : c.classify i.target = some r) :
    ofImport? c file source i = none ↔ source.forbids r = false := by
  rw [← Option.isNone_iff_eq_none, ← Option.not_isSome, Bool.not_eq_true', isSome_ofImport?, h,
    Option.any_some]

/-- An import that breaks no rule can as well be left out. -/
theorem ofImports_insert_iff : ofImports c file source (before ++ i :: behind) =
    ofImports c file source (before ++ behind) ↔ ofImport? c file source i = none := by
  rw [ofImports_append, ofImports_append, List.append_cancel_left_eq]
  rw [ofImports, ofImports, List.filterMap_cons]
  cases ofImport? c file source i with
  | none => exact iff_of_true rfl rfl
  | some v => exact iff_of_false (List.cons_ne_self v _) (by simp)

/-- In whatever list it stands, an import that a file of a module makes is not reported if it names
the module as its directory is named, or if it points at contracts and the file is not strict.
Every other is, those whose module differs only in the case of its letters among them. -/
theorem ofImports_drop_iff (h : c.classify i.target = some r) :
    ofImports c file (.inModule name strict) (before ++ i :: behind) =
        ofImports c file (.inModule name strict) (before ++ behind) ↔
      r.moduleName = name ∨ (strict = false ∧ r.layer = .contracts) := by
  have hlayer : ¬ r.layer = .internals ↔ r.layer = .contracts := by
    cases r.layer <;> simp
  rw [ofImports_insert_iff, ofImport?_eq_none_iff h, ← Bool.not_eq_true,
    Identity.forbids_inModule_iff, not_and_or, not_or, ne_eq, not_not, Bool.not_eq_true, hlayer]

/-- The directory of the module is `billing`, and its namespace is `Domains\Billing`. -/
def billingRoots : Roots := ⟨"src/modules", some "src/shared/contracts"⟩

def billingFile : Path := "src/modules/billing/application/actions/Foo.php"

def ownClass : Import := ⟨"Domains\\Billing\\Domain\\Invoice".toList, 5⟩

theorem ofImports_drop_ownClass :
    (Classifier.ofRoot billingRoots.sharedRoot).classify ownClass.target =
        some ⟨"Billing".toList, .internals, .qualified⟩ ∧
      (ofImports (.ofRoot billingRoots.sharedRoot) billingFile (.inModule "billing".toList false)
            ([] ++ ownClass :: []) =
          ofImports (.ofRoot billingRoots.sharedRoot) billingFile
            (.inModule "billing".toList false) ([] ++ []) ↔
        "Billing".toList = "billing".toList ∨
          (false = false ∧ Layer.internals = Layer.contracts)) := by
  have h : (Classifier.ofRoot billingRoots.sharedRoot).classify ownClass.target =
      some ⟨"Billing".toList, .internals, .qualified⟩ := by decide +kernel
  exact ⟨h, ofImports_drop_iff h⟩

/-- A module that is named in other letters than its directory is taken for another module, and a
file of it may not import it. -/
theorem not_forall_sameModule : ¬ ∀ (roots : Roots) (file : Path) (name : Text) (strict : Bool)
    (i : Import) (r : Reference), roots.identify file = some (.inModule name strict) →
      (Classifier.ofRoot roots.sharedRoot).classify i.target = some r →
      Text.sameIgnoringCase r.moduleName name = true →
      ofImports (.ofRoot roots.sharedRoot) file (.inModule name strict) [i] = [] := by
  intro h
  have hown := h billingRoots billingFile "billing".toList false ownClass
    ⟨"Billing".toList, .internals, .qualified⟩ (by decide +kernel) (by decide +kernel) (by decide)
  exact absurd hown (by decide +kernel)

end Violation
end ModuleBoundary
