/-
How the two passes of a run share out the files.

The pass over the shared contracts and the pass over the module root may walk over the
same directories.  Nothing is checked twice then if both roots are plain
(`nodup_resolve_analysed`): the walks spell a file alike, and the pass over the module
root leaves out what starts with the root of shared contracts.  What it leaves out has
been checked if the other pass reaches it (`SharedPassReaches`), and otherwise is checked
in no pass.
-/
import ModuleBoundary.Proofs.Run.Analysis
import ModuleBoundary.Rulebook.Load

namespace ModuleBoundary

namespace Guard

variable {g : Guard} {t : Tree}

/-! ## Nothing twice -/

/-- With plain roots no two of the files that a run checks are one file of the tree. -/
theorem nodup_resolve_analysed (hmodule : g.profile.roots.moduleRoot.IsPlain)
    (hshared : ∀ root, g.profile.roots.sharedRoot = some root → root.IsPlain) :
    ((g.analysed t (Listing.scan t)).map t.resolve).Nodup := by
  have hplain : ∀ file ∈ g.analysed t (Listing.scan t), ∃ root : Path, root.IsPlain ∧
      file ∈ (Listing.scan t (g.base.join root)).files := by
    intro file hfile
    obtain ⟨root, hroot | hroot, h⟩ := mem_scan_of_mem_analysed hfile
    · exact ⟨root, hshared root hroot, h⟩
    · exact ⟨root, hroot ▸ hmodule, h⟩
  refine List.pairwise_map.mpr ((nodup_analysed_scan g t).imp_of_mem ?_)
  intro a b ha hb hne heq
  obtain ⟨root, hroot, ha⟩ := hplain a ha
  obtain ⟨root', hroot', hb⟩ := hplain b hb
  exact hne (Listing.eq_of_resolve_eq hroot hroot' ha hb heq)

/-! ## One import, one verdict -/

def numbered (g : Guard) (t : Tree) (file : Path) : List (Nat × Violation) :=
  match g.roots.identify file with
  | some source =>
    (t.imports file).zipIdx.filterMap fun i => (g.verdict? file source i.1).map (i.2, ·)
  | none => []

def Blames (g : Guard) (t : Tree) (file : Path) (k : Nat) (v : Violation) : Prop :=
  ∃ source i, g.roots.identify file = some source ∧ (t.imports file)[k]? = some i ∧
    g.verdict? file source i = some v

theorem map_snd_numbered (file : Path) :
    (g.numbered t file).map Prod.snd = g.verdicts t file := by
  rw [numbered, verdicts]
  cases g.roots.identify file with
  | none => rfl
  | some source =>
    have hfst : ((t.imports file).zipIdx.map Prod.fst).filterMap (g.verdict? file source) =
        (t.imports file).filterMap (g.verdict? file source) := by
      rw [List.zipIdx_map_fst]
    simp only [List.map_filterMap, Option.map_map, Function.comp_def, Option.map_id']
    rw [← hfst, List.filterMap_map]
    rfl

theorem nodup_fst_numbered (file : Path) : ((g.numbered t file).map Prod.fst).Nodup := by
  rw [numbered]
  cases g.roots.identify file with
  | none => exact List.nodup_nil
  | some source =>
    have hnumbers : (t.imports file).zipIdx.Pairwise fun i j => i.2 ≠ j.2 := by
      refine List.pairwise_map.mp ?_
      rw [List.zipIdx_map_snd]
      exact List.nodup_range'
    refine List.pairwise_map.mpr (hnumbers.filterMap _ ?_)
    intro i j hne v hv w hw heq
    obtain ⟨_, _, rfl⟩ := Option.map_eq_some_iff.mp hv
    obtain ⟨_, _, rfl⟩ := Option.map_eq_some_iff.mp hw
    exact hne heq

theorem blames_of_mem_numbered {file : Path} {k : Nat} {v : Violation}
    (h : (k, v) ∈ g.numbered t file) : g.Blames t file k v := by
  rw [numbered] at h
  split at h
  · next source hsource =>
    obtain ⟨⟨i, k'⟩, hi, hv⟩ := List.mem_filterMap.mp h
    obtain ⟨v', hverdict, heq⟩ := Option.map_eq_some_iff.mp hv
    obtain ⟨rfl, rfl⟩ := Prod.mk.inj heq
    exact ⟨source, i, hsource, List.mem_zipIdx_iff_getElem?.mp hi, hverdict⟩
  · exact absurd h List.not_mem_nil

def blamed (g : Guard) (t : Tree) (files : List Path) : List ((Path × Nat) × Violation) :=
  files.flatMap fun file => (g.numbered t file).map fun n => ((file, n.1), n.2)

theorem map_snd_blamed (files : List Path) :
    (g.blamed t files).map Prod.snd = files.flatMap (g.verdicts t) := by
  have hfile : ∀ file, ((g.numbered t file).map fun n => ((file, n.1), n.2)).map Prod.snd =
      g.verdicts t file := by
    intro file
    rw [← map_snd_numbered, List.map_map]
    rfl
  simp only [blamed, List.map_flatMap, hfile]

theorem blames_of_mem_blamed {files : List Path} {b : (Path × Nat) × Violation}
    (h : b ∈ g.blamed t files) : b.1.1 ∈ files ∧ g.Blames t b.1.1 b.1.2 b.2 := by
  obtain ⟨file, hfile, h⟩ := List.mem_flatMap.mp h
  obtain ⟨⟨k, v⟩, hn, rfl⟩ := List.mem_map.mp h
  exact ⟨hfile, blames_of_mem_numbered hn⟩

/-- If the files lead to different places, no import of any place has two verdicts. -/
theorem nodup_blamed {files : List Path} (h : (files.map t.resolve).Nodup) :
    ((g.blamed t files).map fun b => (t.resolve b.1.1, b.1.2)).Nodup := by
  refine List.pairwise_map.mpr (List.pairwise_flatMap.mpr ⟨?_, ?_⟩)
  · intro file _
    have hnumbers := List.pairwise_map.mp (nodup_fst_numbered (g := g) (t := t) file)
    exact List.pairwise_map.mpr (hnumbers.imp fun hne heq => hne (Prod.mk.inj heq).2)
  · refine (List.pairwise_map.mp h).imp fun hne b hb c hc heq => hne ?_
    obtain ⟨_, _, rfl⟩ := List.mem_map.mp hb
    obtain ⟨_, _, rfl⟩ := List.mem_map.mp hc
    exact (Prod.mk.inj heq).1

/-- What a run over scans of plain roots finds against the boundary rules is one verdict
at most on each import of each file of the tree, and each file adds one at most to the
files checked. -/
theorem run_scan_once (g : Guard) (t : Tree) (hmodule : g.profile.roots.moduleRoot.IsPlain)
    (hshared : ∀ root, g.profile.roots.sharedRoot = some root → root.IsPlain) :
    ((g.analysed t (Listing.scan t)).map t.resolve).Nodup ∧
    ∀ findings, (g.run t (Listing.scan t)).outcome = .checked findings →
      findings.filesChecked = (g.analysed t (Listing.scan t)).length ∧
      ∃ blamed : List ((Path × Nat) × Violation),
        (blamed.map fun b => (t.resolve b.1.1, b.1.2)).Nodup ∧
        (blamed.map Prod.snd).Perm (findings.violations.filter Violation.isImport) ∧
        ∀ b ∈ blamed, b.1.1 ∈ g.analysed t (Listing.scan t) ∧ g.Blames t b.1.1 b.1.2 b.2 := by
  have hplaces := nodup_resolve_analysed (t := t) hmodule hshared
  refine ⟨hplaces, fun findings hrun => ?_⟩
  have hdir : t.isDir g.roots.moduleRoot = true := by
    cases hdir : t.isDir g.roots.moduleRoot with
    | true => rfl
    | false =>
      rw [run_of_not_isDir hdir] at hrun
      exact absurd hrun (by simp)
  rw [outcome_of_isDir hdir] at hrun
  obtain rfl := Outcome.checked.inj hrun
  refine ⟨rfl, g.blamed t (g.analysed t (Listing.scan t)), nodup_blamed hplaces, ?_,
    fun b hb => blames_of_mem_blamed hb⟩
  rw [map_snd_blamed]
  exact (filter_isImport_perm g t _ _).symm

/-- The shared contracts of the small layout lie below the module root, and are checked
once all the same. -/
theorem nodup_nested :
    Path.IsPlain "modules" ∧ Path.IsPlain "modules/api" ∧
      (Layout.guard.analysed Layout.nested (Listing.scan Layout.nested)).length = 3 ∧
      ((Layout.guard.analysed Layout.nested (Listing.scan Layout.nested)).map
        Layout.nested.resolve).Nodup := by
  have hmodule : Path.IsPlain "modules" := ⟨["modules".toList], by decide, rfl⟩
  have hshared : Path.IsPlain "modules/api" :=
    ⟨["modules".toList, "api".toList], by decide, rfl⟩
  refine ⟨hmodule, hshared, by decide +kernel,
    (run_scan_once Layout.guard Layout.nested hmodule fun root hroot => ?_).1⟩
  obtain rfl : "modules/api" = root := Option.some.inj hroot
  exact hshared

/-! ## Nothing lost -/

/-- The pass over the shared contracts reaches the file that a path leads to: their root
is a directory, the file lies below it, and is not excluded as it is spelled from there. -/
def SharedPassReaches (g : Guard) (t : Tree) (file : Path) : Prop :=
  ∃ root l below, g.profile.roots.sharedRoot = some root ∧ t.isDir (g.base.join root) = true ∧
    t.resolve (g.base.join root) = .ok l ∧
    t.resolve file = .ok (l ++ below) ∧
    Listing.isExcluded (Tree.spell (g.base.join root) below) = false

/-- What the pass over the shared contracts reaches of the files below the module root,
it checks. -/
theorem exists_analysed_of_reaches {file : Path} (hdir : t.isDir g.roots.moduleRoot = true)
    (hfile : file ∈ (Listing.scan t g.roots.moduleRoot).files)
    (h : g.SharedPassReaches t file) :
    ∃ p ∈ g.analysed t (Listing.scan t), t.resolve p = t.resolve file := by
  obtain ⟨root, l, below, hroot, hsharedDir, hr, hplace, hkept⟩ := h
  obtain ⟨hscan, hsame⟩ := Listing.spell_mem_scan hsharedDir hdir hfile hr hplace hkept
  have hidentity : (g.roots.identify (Tree.spell (g.base.join root) below)).isSome = true := by
    rw [identify_of_mem_scan_shared hroot hscan]
    rfl
  exact ⟨_, (mem_analysed_scan hdir).mpr (Or.inl ⟨root, hroot, hsharedDir, hscan, hidentity⟩),
    hsame⟩

/-- A file of the shared contracts that is checked in some pass is reached by the pass
over the shared contracts: the other one has only one path for it, and leaves it out. -/
theorem reaches_of_analysed {file p : Path} (hdir : t.isDir g.roots.moduleRoot = true)
    (hfile : file ∈ (Listing.scan t g.roots.moduleRoot).files)
    (hshared : g.roots.identify file = some .sharedContracts)
    (hp : p ∈ g.analysed t (Listing.scan t)) (hsame : t.resolve p = t.resolve file) :
    g.SharedPassReaches t file := by
  rcases (mem_analysed_scan hdir).mp hp with
    ⟨root, hroot, hsharedDir, hscan, _⟩ | ⟨hscan, name, strict, hmodule⟩
  · obtain ⟨l, below, _, hr, rfl, hplace, _⟩ := Listing.resolve_of_mem_scan hscan
    have hsource := Listing.isSource_of_mem_scan hscan
    rw [Listing.isSource, Bool.and_eq_true, Bool.not_eq_true'] at hsource
    exact ⟨root, l, below, hroot, hsharedDir, hr, hsame.symm.trans hplace, hsource.2⟩
  · rw [Listing.eq_of_mem_scan hscan hfile hsame, hshared] at hmodule
    exact absurd hmodule (by simp)

/-- A file below the module root is checked in one of the passes unless it belongs to the
shared contracts and the pass over them does not reach it.  Then it is checked in none. -/
theorem exists_analysed_iff {file : Path} (hdir : t.isDir g.roots.moduleRoot = true)
    (hfile : file ∈ (Listing.scan t g.roots.moduleRoot).files)
    (hidentity : (g.roots.identify file).isSome = true) :
    (∃ p ∈ g.analysed t (Listing.scan t), t.resolve p = t.resolve file) ↔
      (g.roots.identify file = some .sharedContracts → g.SharedPassReaches t file) := by
  constructor
  · rintro ⟨p, hp, hsame⟩ hshared
    exact reaches_of_analysed hdir hfile hshared hp hsame
  · intro h
    obtain ⟨source, hsource⟩ := Option.isSome_iff_exists.mp hidentity
    cases source with
    | sharedContracts => exact exists_analysed_of_reaches hdir hfile (h hsource)
    | inModule name strict =>
      exact ⟨file, (mem_analysed_scan hdir).mpr (Or.inr ⟨hfile, name, strict, hsource⟩), rfl⟩

theorem exists_analysed_nested :
    Layout.nested.isDir Layout.guard.roots.moduleRoot = true ∧
      ("./modules/api/Bus.php" : Path) ∈
        (Listing.scan Layout.nested Layout.guard.roots.moduleRoot).files ∧
      (Layout.guard.roots.identify "./modules/api/Bus.php").isSome = true ∧
      ((∃ p ∈ Layout.guard.analysed Layout.nested (Listing.scan Layout.nested),
          Layout.nested.resolve p = Layout.nested.resolve "./modules/api/Bus.php") ↔
        (Layout.guard.roots.identify "./modules/api/Bus.php" = some .sharedContracts →
          Layout.guard.SharedPassReaches Layout.nested "./modules/api/Bus.php")) := by
  have hdir : Layout.nested.isDir Layout.guard.roots.moduleRoot = true := by decide +kernel
  have hfile : ("./modules/api/Bus.php" : Path) ∈
      (Listing.scan Layout.nested Layout.guard.roots.moduleRoot).files := by decide +kernel
  have hidentity : (Layout.guard.roots.identify "./modules/api/Bus.php").isSome = true := by
    decide +kernel
  exact ⟨hdir, hfile, hidentity, exists_analysed_iff hdir hfile hidentity⟩

def single : Tree where
  entries := [(["modules".toList], .dir),
    (["modules".toList, "Api.php".toList], Layout.php "use Domains\\User\\Mail;\n")]
  valid := ⟨by decide, by decide, by decide, by decide⟩

/-- A draft that names the file as the root of shared contracts. -/
def singleDraft : Draft :=
  ⟨some ⟨some (.ofList [("web".toList,
    some ⟨some ⟨some "modules".toList, some "modules/Api.php".toList⟩⟩)]), none⟩⟩

/-- The draft is loaded, and then nothing is checked in any pass, not even the file: as
the root of shared contracts it is no directory, and below the module root it is left
out. -/
theorem not_analysed_single : ∃ profile,
    singleDraft.load.toOption.bind (·.profile? "web".toList) = some profile ∧
    single.isDir (Path.join "." profile.roots.moduleRoot) = true ∧
    ("./modules/Api.php" : Path) ∈
      (Listing.scan single (Path.join "." profile.roots.moduleRoot)).files ∧
    ((Guard.mk "." profile .none).roots.identify "./modules/Api.php").isSome = true ∧
    (Guard.mk "." profile .none).analysed single (Listing.scan single) = [] :=
  ⟨⟨"web".toList, "modules", some "modules/Api.php"⟩, by decide +kernel⟩

/-- With plain roots the pass over the shared contracts reaches every file of theirs,
as soon as their root is a directory. -/
theorem reaches_iff_of_plain {file : Path} (hmodule : g.profile.roots.moduleRoot.IsPlain)
    (hplain : ∀ root, g.profile.roots.sharedRoot = some root → root.IsPlain)
    (hfile : file ∈ (Listing.scan t g.roots.moduleRoot).files)
    (hshared : g.roots.identify file = some .sharedContracts) :
    g.SharedPassReaches t file ↔
      ∃ root, g.profile.roots.sharedRoot = some root ∧ t.isDir (g.base.join root) = true := by
  constructor
  · rintro ⟨root, _, _, hroot, hdir, _⟩
    exact ⟨root, hroot, hdir⟩
  · rintro ⟨root, hroot, hdir⟩
    obtain ⟨_, hroot', hstarts⟩ := identify_eq_sharedContracts_iff.mp hshared
    obtain rfl := Option.some.inj (hroot.symm.trans hroot')
    obtain ⟨names, hnames, rfl⟩ := hplain root hroot
    obtain ⟨names', hnames', hmoduleRoot⟩ := hmodule
    have hfile' := hfile
    rw [roots, hmoduleRoot] at hfile'
    obtain ⟨k, below', hk, hall, hspelled, hplace⟩ := Listing.ofNames_of_mem_scan hnames' hfile'
    -- The names of the shared root lead those of the file.
    obtain ⟨below, hbelow⟩ : names <+: names' ++ below' := by
      rw [Path.startsWith_iff, hspelled, Path.components_join_ofNames _ hall,
        Path.components_join_ofNames _ hnames, List.prefix_append_right_inj] at hstarts
      exact (List.prefix_map_iff_of_injective fun _ _ h => Component.name.inj h).mp hstarts
    have hr : t.resolve (g.base.join (.ofNames names)) = .ok (k ++ names) := by
      obtain ⟨place, hr⟩ := Tree.resolve_of_isDir hdir
      obtain ⟨start, hstart, hplace⟩ := Tree.foldlM_of_resolve_join hnames hr
      rw [hk] at hstart
      obtain rfl := Except.ok.inj hstart
      rw [hr, Tree.eq_of_foldlM_enter hnames hplace]
    have hsource := Listing.isSource_of_mem_scan hfile
    rw [Listing.isSource, Bool.and_eq_true, Bool.not_eq_true'] at hsource
    refine ⟨_, k ++ names, below, hroot, hdir, hr, ?_, ?_⟩
    · rw [hplace, ← hbelow, List.append_assoc]
    · rw [Path.spell_join_ofNames g.base (hbelow ▸ hall), hbelow, ← hspelled]
      exact hsource.2

end Guard
end ModuleBoundary
