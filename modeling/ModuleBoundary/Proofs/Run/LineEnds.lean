/-
A run over files with other line ends.

Whatever a run makes of a file, it makes of the lines of its text: imports are read line by
line, and the routing checks choose among lines.  So other bytes with the same lines change
nothing (`run_mapFiles`), and carriage returns in front of line feeds are such bytes.
-/
import ModuleBoundary.Guard
import ModuleBoundary.Proofs.Text.LineEnds
import ModuleBoundary.Proofs.Tree.Contents

namespace ModuleBoundary

variable {t : Tree} {f : Location → Bytes → Bytes}

def Tree.KeepsLines (t : Tree) (f : Location → Bytes → Bytes) : Prop :=
  ∀ l bytes, t.at? l = some (.file bytes) →
    Text.lines (Utf8.decodeLossy (f l bytes)) = Text.lines (Utf8.decodeLossy bytes)

theorem Tree.readSource_mapFiles (h : t.KeepsLines f) (p : Path) :
    (∃ e, (t.mapFiles f).readSource p = .error e ∧ t.readSource p = .error e) ∨
      ∃ s' s, (t.mapFiles f).readSource p = .ok s' ∧ t.readSource p = .ok s ∧
        Text.lines s' = Text.lines s := by
  obtain ⟨l, hread, hfile⟩ := Tree.read_mapFiles (t := t) (f := f) p
  rw [readSource, readSource, hread]
  cases hbytes : t.read p with
  | error e => exact Or.inl ⟨e, rfl, rfl⟩
  | ok bytes => exact Or.inr ⟨_, _, rfl, rfl, h l bytes (hfile bytes hbytes)⟩

theorem Language.imports_congr (l : Language) {s s' : Text} (h : Text.lines s' = Text.lines s) :
    l.imports s' = l.imports s := by
  rw [imports, imports, Import.ofText, Import.ofText, h]

namespace Routing

theorem checkFile_mapFiles (h : t.KeepsLines f) (base : Path) (rule : Rule)
    (isBroken : Text → Bool) (file : Path) :
    checkFile (t.mapFiles f) base rule isBroken file = checkFile t base rule isBroken file := by
  rw [checkFile, checkFile]
  rcases Tree.readSource_mapFiles h file with ⟨e, he', he⟩ | ⟨s', s, hs', hs, hlines⟩
  · rw [he', he]
  · rw [hs', hs]
    simp only [hlines]

theorem check_mapFiles (h : t.KeepsLines f) (r : Routing) (base : Path) :
    r.check (t.mapFiles f) base = r.check t base := by
  have hfile : checkFile (t.mapFiles f) base = checkFile t base := by
    funext rule isBroken file
    exact checkFile_mapFiles h base rule isBroken file
  have hglob : checkGlob (t.mapFiles f) base = checkGlob t base := by
    funext glob
    rw [checkGlob, checkGlob]
    simp only [Glob.expand_mapFiles, Tree.isFile_mapFiles, hfile]
  rw [check, check, checkDefinitions, checkDefinitions, checkDiscovery, checkDiscovery, hglob]
  simp only [Tree.isFile_mapFiles, hfile]

end Routing

namespace Guard

theorem checkFile_mapFiles (h : t.KeepsLines f) (g : Guard) (sharedPass : Bool) (file : Path) :
    g.checkFile (t.mapFiles f) sharedPass file = g.checkFile t sharedPass file := by
  rw [checkFile, checkFile]
  rcases Tree.readSource_mapFiles h file with ⟨e, he', he⟩ | ⟨s', s, hs', hs, hlines⟩
  · rw [he', he]
  · rw [hs', hs]
    simp only [Language.imports_congr _ hlines]

/-- A run sees nothing of a file but its lines. -/
theorem run_mapFiles (h : t.KeepsLines f) (g : Guard) (source : FileSource) :
    g.run (t.mapFiles f) source = g.run t source := by
  have hdir : (t.mapFiles f).isDir = t.isDir := funext Tree.isDir_mapFiles
  have hpass : g.pass (t.mapFiles f) = g.pass t := by
    funext sharedPass files
    rw [pass, pass]
    exact List.map_congr_left fun file _ => checkFile_mapFiles h g sharedPass file
  rw [run, run]
  simp only [hdir, hpass, Routing.check_mapFiles h]

end Guard

/-! ## Carriage returns -/

/-- The tree with a carriage return in front of every line feed of the chosen files. -/
def Tree.withReturns (t : Tree) (chosen : Location → Bool) : Tree :=
  t.mapFiles fun l bytes => if chosen l then Utf8.withReturns bytes else bytes

theorem Tree.keepsLines_withReturns {chosen : Location → Bool}
    (h : ∀ l bytes, t.at? l = some (.file bytes) → chosen l = true → 0x0D ∉ bytes) :
    t.KeepsLines fun l bytes => if chosen l then Utf8.withReturns bytes else bytes := by
  intro l bytes hfile
  by_cases hl : chosen l = true
  · simp only [hl, if_true]
    exact Utf8.lines_decodeLossy_withReturns bytes (h l bytes hfile hl)
  · simp only [hl, Bool.false_eq_true, if_false]

namespace Guard

/-- Line ends do not matter.  Chosen files without a carriage return may get one in front
of each of their line feeds, and a run ends in the same way: over the files of a scan, and
over those of any other source. -/
theorem run_withReturns (g : Guard) (t : Tree) (chosen : Location → Bool)
    (h : ∀ l bytes, t.at? l = some (.file bytes) → chosen l = true → 0x0D ∉ bytes) :
    g.run (t.withReturns chosen) (Listing.scan (t.withReturns chosen)) =
        g.run t (Listing.scan t) ∧
      ∀ source, g.run (t.withReturns chosen) source = g.run t source := by
  have hkeeps := Tree.keepsLines_withReturns h
  refine ⟨?_, fun source => run_mapFiles hkeeps g source⟩
  rw [Tree.withReturns, Listing.scan_mapFiles]
  exact run_mapFiles hkeeps g _

/-- A source file that is no UTF-8 right in front of a line feed, and a registration file. -/
def latin : Tree where
  entries :=
    [(["modules".toList], .dir),
      (["modules".toList, "user".toList], .dir),
      (["modules".toList, "user".toList, "Mail.php".toList],
        .file (0xE9 :: 0x0A :: Utf8.encode "use Domains\\Order\\Total;".toList)),
      (["web.php".toList], .file (Utf8.encode "<?php\nglob('*.php');\n".toList))]
  valid := ⟨by decide, by decide, by decide, by decide⟩

def latinGuard : Guard := ⟨".", ⟨"web".toList, "modules", none⟩, ⟨[], some "web.php"⟩⟩

theorem run_withReturns_latin :
    (∀ l bytes, latin.at? l = some (.file bytes) → true = true → 0x0D ∉ bytes) ∧
      (latin.withReturns fun _ => true).at?
          ["modules".toList, "user".toList, "Mail.php".toList] =
        some (.file (0xE9 :: 0x0D :: 0x0A :: Utf8.encode "use Domains\\Order\\Total;".toList)) ∧
      (latinGuard.checkFile latin false "./modules/user/Mail.php").violations.length = 1 ∧
      (latinGuard.routing.check latin ".").violations.length = 1 ∧
      latinGuard.run (latin.withReturns fun _ => true)
          (Listing.scan (latin.withReturns fun _ => true)) =
        latinGuard.run latin (Listing.scan latin) := by
  have hclean : (latin.entries.map Prod.snd).all
      (fun e => e == Entry.mapBytes (List.filter (· != 0x0D)) e) = true := by decide +kernel
  have hfiles : ∀ l bytes, latin.at? l = some (.file bytes) → true = true → 0x0D ∉ bytes := by
    intro l bytes hfile _
    have hl : l ≠ [] := by
      rintro rfl
      exact absurd hfile (by simp [Tree.at?_nil])
    have hmem := List.mem_map_of_mem (f := Prod.snd) ((Tree.at?_eq_some_iff hl).mp hfile)
    have hsame := List.all_eq_true.mp hclean _ hmem
    simp only [Entry.mapBytes, beq_iff_eq, Entry.file.injEq] at hsame
    rw [hsame]
    simp
  exact ⟨hfiles, by decide +kernel, by decide +kernel, by decide +kernel,
    (run_withReturns latinGuard latin (fun _ => true) hfiles).1⟩

end Guard
end ModuleBoundary
