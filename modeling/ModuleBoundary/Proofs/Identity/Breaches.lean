/-
The decision table, read backwards.

`Identity.breach?` decides row by row, and what it answers is proved about by its rows:
`breach?_eq_some_iff` has one constructor for each row that forbids something.
-/
import ModuleBoundary.Boundary

namespace ModuleBoundary
namespace Identity

/-- A row of the table forbids the reference.  Shared contracts have no name of a module, and
so no module of their own to refer to. -/
inductive Breaches : Identity → Reference → Breach → Prop
  | sharedContracts (r : Reference) :
      Breaches .sharedContracts r (.inSharedContracts r.moduleName)
  | moduleContracts {name : Text} {r : Reference} (hne : name ≠ r.moduleName) :
      Breaches (.inModule name true) r (.inModuleContracts r.moduleName)
  | acrossModules {name : Text} {r : Reference} (hne : name ≠ r.moduleName)
      (hlayer : r.layer = .internals) :
      Breaches (.inModule name false) r (.acrossModules name r.moduleName)

theorem breach?_eq_some_iff {source : Identity} {r : Reference} {breach : Breach} :
    source.breach? r = some breach ↔ source.Breaches r breach := by
  constructor
  · intro h
    unfold breach? at h
    split at h
    · exact nomatch h
    · next hother =>
      have hne : ∀ name, source.moduleName? = some name → name ≠ r.moduleName := by
        rintro name hname rfl
        exact hother hname
      split at h
      · obtain rfl := Option.some.inj h
        exact .sharedContracts r
      · next name =>
        obtain rfl := Option.some.inj h
        exact .moduleContracts (hne name rfl)
      · next name =>
        split at h
        · exact nomatch h
        · next hlayer =>
          obtain rfl := Option.some.inj h
          exact .acrossModules (hne name rfl) hlayer
  · intro h
    cases h with
    | sharedContracts => rfl
    | moduleContracts hne => simp [breach?, moduleName?, hne]
    | acrossModules hne hlayer => simp [breach?, moduleName?, hne, hlayer]

end Identity
end ModuleBoundary
