/-
Where a file is placed, and that its spelling takes no part in it.

The identity of a file is computed by cutting and filtering components.  `Roots.Places` says what
it means: shared contracts are what starts with their root, also inside the module root; behind
the module root the next name is the module, unless it is `shared`, and all else is nowhere.
`identify_exact` says that there is no other placing of a file that goes on by names alone below
the module root, as long as they are texts, and that the three paths can be spelled in any way that
leaves their components.
-/
import ModuleBoundary.Proofs.Identity.Places
import ModuleBoundary.Proofs.Path.Respelling
import ModuleBoundary.Proofs.Text.LetterCase

namespace ModuleBoundary

theorem isShared_iff_isCaseOf {name : Text} :
    isShared name = true ↔ Text.IsCaseOf "shared".toList name :=
  Text.sameIgnoringCase_iff (by decide)

namespace Roots

open Identity (InContracts)

variable {roots roots' : Roots} {file file' : Path} {name : Text} {names : List Text}
  {strict : Bool} {answer : Option Identity}

/-! ## Places -/

/-- The path of the file is that of the root of shared contracts, or goes on from there. -/
def IsShared (roots : Roots) (file : Path) : Prop :=
  ∃ root, roots.sharedRoot = some root ∧ root.components <+: file.components

/-- The path of the file is that of the module root with these names behind it. -/
def IsBelow (roots : Roots) (file : Path) (names : List Text) : Prop :=
  file.components = roots.moduleRoot.components ++ names.map fun n => .name (Utf8.encode n)

/-- If the path of the file goes on from the module root, it does so by names only, all of them
texts. -/
def GoesOnByNames (roots : Roots) (file : Path) : Prop :=
  ∀ rest, file.components = roots.moduleRoot.components ++ rest →
    ∀ c ∈ rest, ∃ n : Text, c = .name (Utf8.encode n)

inductive Places (roots : Roots) (file : Path) : Option Identity → Prop
  | sharedContracts (hshared : roots.IsShared file) : Places roots file (some .sharedContracts)
  | inModule {name : Text} {below : List Text} (hshared : ¬ roots.IsShared file)
      (hbelow : roots.IsBelow file (name :: below))
      (hname : ¬ Text.IsCaseOf "shared".toList name) :
      Places roots file (some (.inModule name (decide (InContracts below))))
  | nowhere (hshared : ¬ roots.IsShared file)
      (hbelow : ∀ name below, roots.IsBelow file (name :: below) →
        Text.IsCaseOf "shared".toList name) :
      Places roots file none

theorem isShared_iff : roots.IsShared file ↔ roots.identify file = some .sharedContracts := by
  rw [identify_eq_sharedContracts_iff, IsShared]
  simp only [Path.startsWith_iff]

theorem exists_map_name {cs : List Component}
    (h : ∀ c ∈ cs, ∃ n : Text, c = .name (Utf8.encode n)) :
    ∃ names : List Text, cs = names.map fun n => .name (Utf8.encode n) := by
  induction cs with
  | nil => exact ⟨[], rfl⟩
  | cons c cs ih =>
    obtain ⟨n, hn⟩ := h c List.mem_cons_self
    obtain ⟨names, hnames⟩ := ih fun d hd => h d (List.mem_cons_of_mem c hd)
    exact ⟨n :: names, by rw [hn, hnames, List.map_cons]⟩

theorem goesOnByNames_of_isBelow (h : roots.IsBelow file names) : roots.GoesOnByNames file := by
  intro rest hrest c hc
  have hnames : rest = names.map fun n => .name (Utf8.encode n) :=
    List.append_cancel_left (hrest.symm.trans h)
  rw [hnames] at hc
  obtain ⟨n, _, hn⟩ := List.mem_map.mp hc
  exact ⟨n, hn.symm⟩

theorem identify_eq_of_isBelow (hfile : roots.IsBelow file names) :
    roots.identify file = some (.inModule name strict) ↔
      roots.identify file ≠ some .sharedContracts ∧ ∃ below, names = name :: below ∧
        isShared name = false ∧ strict = decide (InContracts below) := by
  have hbytes : file.components =
      roots.moduleRoot.components ++ (names.map Utf8.encode).map .name := by
    rw [hfile, List.map_map]
    rfl
  rw [identify_eq_inModule_iff hbytes, Utf8.filterMap_decode?_encode]

theorem isBelow_of_identify (hnames : roots.GoesOnByNames file)
    (h : roots.identify file = some (.inModule name strict)) :
    ∃ below, roots.IsBelow file (name :: below) ∧ isShared name = false ∧
      strict = decide (InContracts below) := by
  obtain ⟨rest, _, hrest, _⟩ := exists_names_of_identify h
  obtain ⟨names, hmap⟩ := exists_map_name (hnames rest hrest)
  have hfile : roots.IsBelow file names := by
    rw [IsBelow, hrest, hmap]
  obtain ⟨_, below, hcons, hname, hstrict⟩ := (identify_eq_of_isBelow hfile).mp h
  rw [hcons] at hfile
  exact ⟨below, hfile, hname, hstrict⟩

theorem identify_of_isBelow {below : List Text} (hshared : ¬ roots.IsShared file)
    (hbelow : roots.IsBelow file (name :: below)) (hname : isShared name = false) :
    roots.identify file = some (.inModule name (decide (InContracts below))) := by
  have hne : roots.identify file ≠ some .sharedContracts := fun h => hshared (isShared_iff.mpr h)
  exact (identify_eq_of_isBelow hbelow).mpr ⟨hne, below, rfl, hname, rfl⟩

theorem places_identify (hnames : roots.GoesOnByNames file) :
    roots.Places file (roots.identify file) := by
  cases hidentity : roots.identify file with
  | none =>
    have hshared : ¬ roots.IsShared file := by
      rw [isShared_iff, hidentity]
      simp
    refine .nowhere hshared fun name below hbelow => ?_
    rw [← isShared_iff_isCaseOf, ← Bool.not_eq_false]
    intro hname
    rw [identify_of_isBelow hshared hbelow hname] at hidentity
    exact absurd hidentity (by simp)
  | some source =>
    cases source with
    | sharedContracts => exact .sharedContracts (isShared_iff.mpr hidentity)
    | inModule name strict =>
      obtain ⟨below, hbelow, hname, hstrict⟩ := isBelow_of_identify hnames hidentity
      rw [hstrict]
      refine .inModule ?_ hbelow ?_
      · rw [isShared_iff, hidentity]
        simp
      · rw [← isShared_iff_isCaseOf, hname]
        simp

theorem Places.eq_identify (hnames : roots.GoesOnByNames file) (h : roots.Places file answer) :
    roots.identify file = answer := by
  cases h with
  | sharedContracts hshared => exact isShared_iff.mp hshared
  | inModule hshared hbelow hname =>
    rw [← isShared_iff_isCaseOf, Bool.not_eq_true] at hname
    exact identify_of_isBelow hshared hbelow hname
  | nowhere hshared hbelow =>
    cases hidentity : roots.identify file with
    | none => rfl
    | some source =>
      cases source with
      | sharedContracts => exact absurd (isShared_iff.mpr hidentity) hshared
      | inModule name strict =>
        obtain ⟨below, hplace, hname, _⟩ := isBelow_of_identify hnames hidentity
        have hcase := hbelow name below hplace
        rw [← isShared_iff_isCaseOf, hname] at hcase
        exact absurd hcase (by simp)

/-! ## Spellings -/

structure Respelled (roots roots' : Roots) : Prop where
  moduleRoot : roots.moduleRoot.Respelled roots'.moduleRoot
  sharedRoot : Option.Rel Path.Respelled roots.sharedRoot roots'.sharedRoot

theorem startsWith_respelled {root root' : Path} (h : root.Respelled root') :
    file.startsWith root' = file.startsWith root := by
  rw [Path.startsWith, Path.startsWith, h.components_eq]

theorem any_startsWith_respelled {root root' : Option Path}
    (h : Option.Rel Path.Respelled root root') :
    root'.any file.startsWith = root.any file.startsWith := by
  cases h with
  | none => rfl
  | some h => exact startsWith_respelled h

theorem identify_respelled (hroots : roots.Respelled roots') (hfile : file.Respelled file') :
    roots'.identify file' = roots.identify file := by
  rw [identify_congr roots' hfile.components_eq, identify, identify,
    any_startsWith_respelled hroots.sharedRoot, startsWith_respelled hroots.moduleRoot,
    hroots.moduleRoot.components_eq]

/-- A file that goes on by names below the module root is placed as its components say, and no
file is placed otherwise when it or a root is spelled otherwise. -/
theorem identify_exact (roots : Roots) (file : Path) :
    (roots.GoesOnByNames file →
      ∀ answer, roots.identify file = answer ↔ roots.Places file answer) ∧
    ∀ roots' file', roots.Respelled roots' → file.Respelled file' →
      roots'.identify file' = roots.identify file := by
  refine ⟨fun hnames answer => ⟨?_, Places.eq_identify hnames⟩, fun _ _ => identify_respelled⟩
  intro h
  rw [← h]
  exact places_identify hnames

/-- The shared contracts lie in a module here. -/
def winding : Roots := ⟨"src//modules", some "src/modules/user/contracts/"⟩

def straight : Roots := ⟨"src/modules", some "src/modules/user/contracts"⟩

def windingFile : Path := "src/modules/billing/./contracts/Dto.php"

def straightFile : Path := "src/modules/billing/contracts/Dto.php"

theorem identify_exact_winding :
    winding.GoesOnByNames windingFile ∧ winding.Respelled straight ∧
      windingFile.Respelled straightFile ∧
      winding.identify windingFile = some (.inModule "billing".toList true) ∧
      winding.Places windingFile (some (.inModule "billing".toList true)) ∧
      straight.identify straightFile = winding.identify windingFile := by
  have hbelow : winding.IsBelow windingFile
      ["billing".toList, "contracts".toList, "Dto.php".toList] := by
    rw [IsBelow]
    decide +kernel
  have hnames := goesOnByNames_of_isBelow hbelow
  have hend : Utf8.encode "src/modules/user/contracts".toList ≠ [] := by decide
  have hroots : winding.Respelled straight :=
    ⟨.symm _ _ (.rel _ _ (.slash (Utf8.encode "src".toList) (Utf8.encode "modules".toList))),
      .some (.symm _ _ (.rel _ _ (.slashAtEnd hend)))⟩
  have hfile : windingFile.Respelled straightFile :=
    .symm _ _ (.rel _ _ (.here (Utf8.encode "src/modules/billing".toList)
      (Utf8.encode "contracts/Dto.php".toList)))
  have hidentity : winding.identify windingFile = some (.inModule "billing".toList true) := by
    decide +kernel
  obtain ⟨hplaces, hspelling⟩ := identify_exact winding windingFile
  exact ⟨hnames, hroots, hfile, hidentity, (hplaces hnames _).mp hidentity,
    hspelling straight straightFile hroots hfile⟩

/-- A sibling of the module root is no part of it. -/
example : (⟨"modules", none⟩ : Roots).identify "modules2/billing/Dto.php" = none := by decide

end Roots
end ModuleBoundary
