/-
What a scan gives.

The paths of a scan are the files at a root and below it, spelled from it, as far as
they are source files (`mem_scan`).  Each of them leads back to its file, so no two of
them lead to one file (`nodup_resolve_scan`), each can be read (`read_of_mem_scan`),
and each has a language (`isSome_ofPath?`): what a run leaves out of a scan, it leaves
out for the place where the file stands.  Scans of two plain roots with one base may
overlap, and then they spell the files alike (`eq_of_resolve_eq`).
-/
import ModuleBoundary.Language
import ModuleBoundary.Listing
import ModuleBoundary.Proofs.Tree.Walking

namespace ModuleBoundary

variable {t : Tree}

/-! ## Extensions -/

theorem Path.hasExtension_append (p : Path) (a b : List Text) :
    p.hasExtension (a ++ b) = (p.hasExtension a || p.hasExtension b) := by
  unfold Path.hasExtension
  cases p.extension?.bind Utf8.decode? with
  | none => rfl
  | some ext => simp [List.contains_eq_mem, Bool.decide_or]

theorem Path.hasExtension_congr {p q : Path} (h : p.fileName? = q.fileName?) (exts : List Text) :
    p.hasExtension exts = q.hasExtension exts := by
  rw [Path.hasExtension, Path.hasExtension, Path.extension?, Path.extension?, h]

/-- The extensions of source files are those of the languages. -/
theorem Language.isSome_ofPath? (p : Path) :
    (Language.ofPath? p).isSome = Listing.hasSourceExtension p := by
  have hexts : Listing.extensions = Language.extensions .php ++ Language.extensions .script := rfl
  rw [Listing.hasSourceExtension, hexts, Path.hasExtension_append, Bool.eq_iff_iff,
    Language.ofPath?, List.find?_isSome]
  simp [Language.all]

namespace Listing

/-- A scan gives the source files at its root and below it, spelled from the root. -/
theorem mem_scan {root p : Path} :
    p ∈ (scan t root).files ↔ isSource p = true ∧ ∃ l below bytes,
      t.resolve root = .ok l ∧ t.at? (l ++ below) = some (.file bytes) ∧
        p = Tree.spell root below := by
  rw [scan, Tree.walk?]
  cases hr : t.resolve root with
  | error e => simp
  | ok l =>
    simp only [List.mem_filter, List.mem_map, Tree.mem_filesBelow]
    constructor
    · rintro ⟨⟨below, ⟨bytes, ha⟩, rfl⟩, hsource⟩
      exact ⟨hsource, l, below, bytes, rfl, ha, rfl⟩
    · rintro ⟨hsource, l', below, bytes, hl, ha, rfl⟩
      cases hl
      exact ⟨⟨below, ⟨bytes, ha⟩, rfl⟩, hsource⟩

/-- Each path of a scan leads to a file that it was spelled for. -/
theorem resolve_of_mem_scan {root p : Path} (h : p ∈ (scan t root).files) :
    ∃ l below bytes, t.resolve root = .ok l ∧ p = Tree.spell root below ∧
      t.resolve p = .ok (l ++ below) ∧ t.at? (l ++ below) = some (.file bytes) := by
  obtain ⟨_, l, below, bytes, hr, ha, rfl⟩ := mem_scan.mp h
  exact ⟨l, below, bytes, hr, rfl, Tree.resolve_spell hr ha, ha⟩

theorem components_of_mem_scan {root p : Path} (h : p ∈ (scan t root).files) :
    ∃ below : Location, p.components = root.components ++ below.map .name := by
  obtain ⟨l, below, bytes, hr, rfl, _, ha⟩ := resolve_of_mem_scan h
  have hnames : ∀ n ∈ below, IsEntryName n :=
    fun n hn => Tree.isEntryName_of_at? ha n (List.mem_append_right l hn)
  exact ⟨below, Path.components_spell (Tree.bytes_ne_nil_of_resolve hr) hnames⟩

theorem startsWith_of_mem_scan {root p : Path} (h : p ∈ (scan t root).files) :
    p.startsWith root = true := by
  obtain ⟨below, hbelow⟩ := components_of_mem_scan h
  rw [Path.startsWith_iff, hbelow]
  exact List.prefix_append _ _

/-- A scan of a root that is seen from a base gives paths below the base, or absolute ones. -/
theorem startsWith_base_of_mem_scan {base root p : Path} (h : p ∈ (scan t (base.join root)).files) :
    p.startsWith base = true ∨ p.isAbsolute = true := by
  obtain ⟨below, hbelow⟩ := components_of_mem_scan h
  cases habs : root.isAbsolute with
  | true =>
    have hjoin : base.join root = root := by simp [Path.join, habs]
    have hroot : .root ∈ p.components := by
      rw [hbelow, hjoin]
      exact List.mem_append_left _ (Path.root_mem_components_iff.mpr habs)
    exact Or.inr (Path.root_mem_components_iff.mp hroot)
  | false =>
    refine Or.inl ?_
    rw [Path.startsWith_iff, hbelow]
    by_cases hbase : base.bytes = []
    · obtain ⟨bytes⟩ := base
      obtain rfl : bytes = [] := hbase
      exact List.nil_prefix
    · rw [Path.components_join hbase habs, List.append_assoc]
      exact List.prefix_append _ _

theorem read_of_mem_scan {root p : Path} (h : p ∈ (scan t root).files) :
    ∃ bytes, t.read p = .ok bytes := by
  obtain ⟨l, below, bytes, _, _, hp, ha⟩ := resolve_of_mem_scan h
  exact ⟨bytes, Tree.read_of_resolve hp ha⟩

/-- No two paths of a scan lead to one file. -/
theorem nodup_resolve_scan (t : Tree) (root : Path) :
    ((scan t root).files.map t.resolve).Nodup := by
  rw [scan, Tree.walk?]
  cases hr : t.resolve root with
  | error e => exact List.nodup_nil
  | ok l =>
    have hplaces : ((t.filesBelow l).map (Tree.spell root)).map t.resolve =
        (t.filesBelow l).map fun below => .ok (l ++ below) := by
      rw [List.map_map]
      refine List.map_congr_left fun below hb => ?_
      obtain ⟨bytes, ha⟩ := Tree.mem_filesBelow.mp hb
      exact Tree.resolve_spell hr ha
    have hnodup : (((t.filesBelow l).map (Tree.spell root)).map t.resolve).Nodup := by
      rw [hplaces]
      refine List.pairwise_map.mpr (List.Pairwise.imp ?_ (t.nodup_filesBelow l))
      intro a b hne h
      exact hne (by simpa using h)
    exact (List.filter_sublist.map t.resolve).nodup hnodup

theorem eq_of_mem_scan {root p q : Path} (hp : p ∈ (scan t root).files)
    (hq : q ∈ (scan t root).files) (h : t.resolve p = t.resolve q) : p = q := by
  obtain ⟨l, below, _, hr, rfl, hplace, _⟩ := resolve_of_mem_scan hp
  obtain ⟨l', below', _, hr', rfl, hplace', _⟩ := resolve_of_mem_scan hq
  have hl : l = l' := by
    rw [hr] at hr'
    simpa using hr'
  have hbelow : below = below' := by
    rw [hplace, hplace', hl] at h
    simpa using h
  rw [hbelow]

/-! ## Below directories -/

/-- A file that is spelled from a directory has the last name of its location as its
file name. -/
theorem fileName?_spell {root : Path} {l below : Location} {bytes : Bytes}
    (hdir : t.isDir root = true) (hr : t.resolve root = .ok l)
    (ha : t.at? (l ++ below) = some (.file bytes)) :
    (Tree.spell root below).fileName? = (l ++ below).getLast? := by
  have hnil : below ≠ [] := by
    rintro rfl
    rw [List.append_nil, (Tree.isDir_of_resolve hr).mp hdir] at ha
    exact absurd ha (by simp)
  have hsome : below.getLast?.isSome = true := by simpa using hnil
  rw [List.getLast?_append, Option.or_of_isSome hsome]
  refine Path.fileName?_spell (Tree.bytes_ne_nil_of_resolve hr) (fun n hn => ?_) hnil
  exact Tree.isEntryName_of_at? ha n (List.mem_append_right l hn)

/-- What the scan of one directory gives, the scan of another one gives too, if it lies
there and its spelling from there is not excluded. -/
theorem spell_mem_scan {root other p : Path} {l below : Location} (hdir : t.isDir root = true)
    (hother : t.isDir other = true) (hp : p ∈ (scan t other).files)
    (hr : t.resolve root = .ok l) (hplace : t.resolve p = .ok (l ++ below))
    (hkept : isExcluded (Tree.spell root below) = false) :
    Tree.spell root below ∈ (scan t root).files ∧
      t.resolve (Tree.spell root below) = t.resolve p := by
  have hsource := isSource_of_mem_scan hp
  rw [isSource, Bool.and_eq_true] at hsource
  obtain ⟨l', below', bytes, hr', rfl, hplace', ha⟩ := resolve_of_mem_scan hp
  have hlocation : l' ++ below' = l ++ below := by
    rw [hplace] at hplace'
    simpa using hplace'.symm
  have hname : (Tree.spell root below).fileName? = (Tree.spell other below').fileName? := by
    rw [fileName?_spell hother hr' ha, hlocation, fileName?_spell hdir hr (hlocation ▸ ha)]
  refine ⟨mem_scan.mpr ⟨?_, l, below, bytes, hr, hlocation ▸ ha, rfl⟩,
    (Tree.resolve_spell hr (hlocation ▸ ha)).trans hplace.symm⟩
  rw [isSource, hasSourceExtension, Path.hasExtension_congr hname, ← hasSourceExtension, hsource.1,
    hkept]
  rfl

/-! ## Below plain roots -/

/-- Below a plain root a scan spells a file as the base with one plain path behind it,
and where that leads is a matter of its names. -/
theorem ofNames_of_mem_scan {base q : Path} {names : List Bytes}
    (hn : ∀ n ∈ names, IsEntryName n)
    (h : q ∈ (scan t (base.join (.ofNames names))).files) :
    ∃ k below, t.origin base = .ok k ∧ (∀ n ∈ names ++ below, IsEntryName n) ∧
      q = base.join (.ofNames (names ++ below)) ∧
      t.resolve q = .ok (k ++ (names ++ below)) := by
  obtain ⟨l, below, bytes, hr, rfl, hq, ha⟩ := resolve_of_mem_scan h
  obtain ⟨k, hk, rfl⟩ := Tree.resolve_join_ofNames hn hr
  have hnames : ∀ n ∈ names ++ below, IsEntryName n := by
    intro n hmem
    rcases List.mem_append.mp hmem with hmem | hmem
    · exact hn n hmem
    · exact Tree.isEntryName_of_at? ha n (List.mem_append_right _ hmem)
  rw [List.append_assoc] at hq
  exact ⟨k, below, hk, hnames, Path.spell_join_ofNames base hnames, hq⟩

/-- Scans below plain roots give one file one spelling, however the roots lie. -/
theorem eq_of_resolve_eq {base a b p q : Path} (ha : a.IsPlain) (hb : b.IsPlain)
    (hp : p ∈ (scan t (base.join a)).files) (hq : q ∈ (scan t (base.join b)).files)
    (h : t.resolve p = t.resolve q) : p = q := by
  obtain ⟨names, hnames, rfl⟩ := ha
  obtain ⟨names', hnames', rfl⟩ := hb
  obtain ⟨k, below, hk, _, hspelled, hplace⟩ := ofNames_of_mem_scan hnames hp
  obtain ⟨k', below', hk', _, hspelled', hplace'⟩ := ofNames_of_mem_scan hnames' hq
  have horigin : k = k' := by
    rw [hk] at hk'
    simpa using hk'
  have hall : names ++ below = names' ++ below' := by
    rw [hplace, hplace', horigin] at h
    simpa using h
  rw [hspelled, hspelled', hall]

end Listing
end ModuleBoundary
