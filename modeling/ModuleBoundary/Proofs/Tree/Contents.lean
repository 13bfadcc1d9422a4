/-
A tree with other bytes in its files.

Where a path leads, what is listed, and what a pattern stands for are read off the
locations of a tree and off which of them are directories.  So none of it changes if the
bytes of files do (`Tree.mapFiles`), and reading a file gives the new bytes.
-/
import ModuleBoundary.Glob.Expand
import ModuleBoundary.Listing

namespace ModuleBoundary

def Entry.mapBytes (f : Bytes → Bytes) : Entry → Entry
  | .file bytes => .file (f bytes)
  | .dir => .dir

namespace Tree

variable {t : Tree} {f : Location → Bytes → Bytes}

/-- The tree with other bytes in its files; `f` gives the bytes of a location. -/
def mapFiles (t : Tree) (f : Location → Bytes → Bytes) : Tree where
  entries := t.entries.map fun e => (e.1, e.2.mapBytes (f e.1))
  here := t.here
  valid := by
    have hfst : (t.entries.map fun e => (e.1, e.2.mapBytes (f e.1))).map Prod.fst =
        t.entries.map Prod.fst := by
      rw [List.map_map]
      rfl
    refine ⟨by rw [hfst]; exact t.valid.nodup, ?_, ?_, ?_⟩
    · intro e he
      obtain ⟨d, hd, rfl⟩ := List.mem_map.mp he
      exact t.valid.names d hd
    · intro e he
      obtain ⟨d, hd, rfl⟩ := List.mem_map.mp he
      exact t.valid.notRoot d hd
    · intro e he
      obtain ⟨d, hd, rfl⟩ := List.mem_map.mp he
      exact (t.valid.parent d hd).imp_right fun hp => List.mem_map.mpr ⟨_, hp, rfl⟩

/-! ## Looking up -/

theorem at?_mapFiles (l : Location) :
    (t.mapFiles f).at? l = (t.at? l).map (Entry.mapBytes (f l)) := by
  by_cases hl : l = []
  · rw [at?, at?, if_pos hl, if_pos hl]
    rfl
  · have hfind : (t.mapFiles f).entries.find? (fun e => decide (e.1 = l)) =
        (t.entries.find? fun e => decide (e.1 = l)).map fun e => (e.1, e.2.mapBytes (f e.1)) :=
      List.find?_map
    rw [at?, at?, if_neg hl, if_neg hl, hfind]
    cases h : t.entries.find? (fun e => decide (e.1 = l)) with
    | none => rfl
    | some e =>
      have hel : e.1 = l := by simpa using List.find?_some h
      rw [← hel]
      rfl

theorem at?_mapFiles_eq_dir_iff {l : Location} :
    (t.mapFiles f).at? l = some .dir ↔ t.at? l = some .dir := by
  rw [at?_mapFiles]
  cases t.at? l with
  | none => simp
  | some e => cases e <;> simp [Entry.mapBytes]

theorem enter_mapFiles : (t.mapFiles f).enter = t.enter := by
  funext l s
  have hnext : ((t.mapFiles f).at? (l ++ [s])).isSome = (t.at? (l ++ [s])).isSome := by
    rw [at?_mapFiles, Option.isSome_map]
  rw [enter, enter, at?_mapFiles, hnext]
  cases t.at? l with
  | none => rfl
  | some e => cases e <;> rfl

theorem resolve_mapFiles (p : Path) : (t.mapFiles f).resolve p = t.resolve p := by
  rw [resolve, resolve, enter_mapFiles]
  rfl

theorem entry?_mapFiles (p : Path) :
    ∃ l, Tree.entry? (t.mapFiles f) p = (t.entry? p).map (Entry.mapBytes (f l)) := by
  unfold entry?
  rw [resolve_mapFiles]
  cases t.resolve p with
  | error e => exact ⟨[], rfl⟩
  | ok l => exact ⟨l, at?_mapFiles l⟩

theorem isDir_mapFiles (p : Path) : (t.mapFiles f).isDir p = t.isDir p := by
  obtain ⟨l, h⟩ := entry?_mapFiles (t := t) (f := f) p
  rw [isDir, isDir, h]
  cases t.entry? p with
  | none => rfl
  | some e => cases e <;> rfl

theorem isFile_mapFiles (p : Path) : (t.mapFiles f).isFile p = t.isFile p := by
  obtain ⟨l, h⟩ := entry?_mapFiles (t := t) (f := f) p
  rw [isFile, isFile, h]
  cases t.entry? p with
  | none => rfl
  | some e => cases e <;> rfl

theorem read_mapFiles (p : Path) :
    ∃ l, (t.mapFiles f).read p = (t.read p).map (f l) ∧
      ∀ bytes, t.read p = .ok bytes → t.at? l = some (.file bytes) := by
  have hp' : (t.mapFiles f).resolve p = t.resolve p := resolve_mapFiles p
  rw [read, read, hp']
  cases t.resolve p with
  | error e => exact ⟨[], rfl, fun bytes hbytes => nomatch hbytes⟩
  | ok l =>
    simp only [bind, Except.bind, at?_mapFiles]
    refine ⟨l, ?_, fun bytes hbytes => ?_⟩
    · cases t.at? l with
      | none => rfl
      | some e => cases e <;> rfl
    · cases hl : t.at? l with
      | none => rw [hl] at hbytes; exact nomatch hbytes
      | some e =>
        cases e with
        | dir => rw [hl] at hbytes; exact nomatch hbytes
        | file content => rw [hl] at hbytes; rw [Except.ok.inj hbytes]

/-! ## Going through -/

theorem filesBelow_mapFiles (l : Location) : (t.mapFiles f).filesBelow l = t.filesBelow l := by
  rw [filesBelow, filesBelow, mapFiles, List.filterMap_map]
  congr 1
  funext e
  obtain ⟨k, e⟩ := e
  cases e <;> rfl

theorem children_mapFiles (l : Location) : (t.mapFiles f).children l = t.children l := by
  rw [children, children, mapFiles, List.filterMap_map]
  rfl

theorem walk?_mapFiles (root : Path) : (t.mapFiles f).walk? root = t.walk? root := by
  rw [walk?, walk?, resolve_mapFiles]
  cases t.resolve root with
  | error e => rfl
  | ok l => simp only [filesBelow_mapFiles]

end Tree

theorem Listing.scan_mapFiles (t : Tree) (f : Location → Bytes → Bytes) :
    Listing.scan (t.mapFiles f) = Listing.scan t := by
  funext root
  rw [Listing.scan, Listing.scan, Tree.walk?_mapFiles]

/-! ## Patterns -/

namespace Glob

variable {t : Tree} {f : Location → Bytes → Bytes}

theorem namesIn_mapFiles (dir : Path) : namesIn (t.mapFiles f) dir = namesIn t dir := by
  rw [namesIn, namesIn, Tree.resolve_mapFiles]
  cases t.resolve dir with
  | error e => rfl
  | ok l => simp only [Tree.at?_mapFiles_eq_dir_iff, Tree.children_mapFiles]

theorem throughout_mapFiles (own : Path → Bytes → List Path) (fuel : Nat) (p : Path) (name : Bytes) :
    throughout (t.mapFiles f) own fuel p name = throughout t own fuel p name := by
  induction fuel generalizing p name with
  | zero => rfl
  | succ fuel ih => simp only [throughout, namesIn_mapFiles, ih]

theorem isSome_entry?_mapFiles (p : Path) :
    (Tree.entry? (t.mapFiles f) p).isSome = (t.entry? p).isSome := by
  obtain ⟨l, h⟩ := Tree.entry?_mapFiles (t := t) (f := f) p
  rw [h, Option.isSome_map]

theorem expandFrom_mapFiles (onlyDirs : Bool) : ∀ (parts : List Part) (p : Path),
    expandFrom (t.mapFiles f) onlyDirs parts p = expandFrom t onlyDirs parts p
  | [], p => by simp only [expandFrom, Tree.isDir_mapFiles]
  | .literal s :: rest, p => by
    simp only [expandFrom, Tree.isDir_mapFiles, isSome_entry?_mapFiles,
      expandFrom_mapFiles onlyDirs rest]
  | .dirs :: [], p => by
    have hlevels : (t.mapFiles f).entries.length = t.entries.length := List.length_map _
    simp only [expandFrom, Tree.isDir_mapFiles, namesIn_mapFiles, throughout_mapFiles, hlevels]
  | .dirs :: part :: rest, p => by
    have hlevels : (t.mapFiles f).entries.length = t.entries.length := List.length_map _
    simp only [expandFrom, namesIn_mapFiles, throughout_mapFiles, hlevels,
      expandFrom_mapFiles onlyDirs rest]
  | .wild tokens :: rest, p => by
    simp only [expandFrom, Tree.isDir_mapFiles, namesIn_mapFiles, expandFrom_mapFiles onlyDirs rest]

theorem expand_mapFiles (g : Glob) : g.expand (t.mapFiles f) = g.expand t := expandFrom_mapFiles ..

end Glob
end ModuleBoundary
