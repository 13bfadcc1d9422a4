/-
The base of a routing check as the working directory.

A check that is run from its base gives what it gives for the base from elsewhere
(`check_seenFrom`).  For the registration file that is so for every base.  A pattern is written
behind the base and read together with it, so for patterns it takes a base that is a text, without
characters that a pattern reads otherwise; and it takes one that does not start with a `.`, because
a pattern does not spell it in what it stands for, and then nothing is cut off in what is reported
(`not_forall_base`).
-/
import ModuleBoundary.Proofs.Glob.Moving
import ModuleBoundary.Routing.Check

namespace ModuleBoundary
namespace Routing

open Glob (IsBase Seen IsPlainText)

variable {t : Tree} {l : Location} {base start far near : Path}

/-! ## One file -/

theorem loud_of_seen (h : Seen t l start far near) : far.loud = start.loud ++ near.loud := by
  obtain ⟨behind, hfar, hsame⟩ := h.segments
  rw [← Path.filter_stem, hfar, List.filter_append, Path.filter_stem, ← Path.filter_stem near,
    ← Path.filter_dropWhile_isSilent behind, hsame, Path.filter_dropWhile_isSilent]

theorem isPhp_of_seen (h : Seen t l start far near) (hfile : (t.seenFrom l).isFile near = true) :
    isPhp far = isPhp near := by
  obtain ⟨front, last, hsegments, hlast⟩ := Tree.lastSegment_of_isFile hfile
  have hne : near.loud.map Component.ofSegment ≠ [] := by
    rw [Path.loud, hsegments, List.filter_append, List.filter_cons_of_pos (by simp [hlast])]
    simp
  have hname : far.fileName? = near.fileName? := by
    rw [Path.fileName?, Path.fileName?, Path.components_eq, Path.components_eq, loud_of_seen h,
      List.map_append, ← List.append_assoc, List.getLast?_append_of_ne_nil _ hne,
      List.getLast?_append_of_ne_nil _ hne]
  rw [isPhp, isPhp, Path.hasExtension, Path.hasExtension, Path.extension?, Path.extension?, hname]

/-- A file is reported alike in the two runs. -/
theorem relativeTo_of_seen (hb : IsBase t l base) (hstart : IsBase t l start)
    (hloud : start.loud = base.loud) (h : Seen t l start far near)
    (hfile : (t.seenFrom l).isFile near = true) : far.relativeTo base = near.relativeTo "." := by
  have hnear := Tree.segments_of_isFile hfile
  have habs : near.isAbsolute = false := by
    rw [Bool.eq_false_iff]
    intro habs
    obtain ⟨rest, hrest⟩ := Path.segments_of_isAbsolute habs
    exact h.near_ne (by rw [← hnear, hrest]; exact List.mem_cons_self)
  obtain ⟨front, last, hsegments, hlast⟩ := Tree.lastSegment_of_isFile hfile
  obtain ⟨behind, hstem, hsame⟩ := h.segments
  have hfar : far.segments = start.stem ++ behind := by
    rw [Tree.segments_of_isFile ((Tree.isFile_seenFrom h.resolve_eq).trans hfile), hstem]
  rw [Path.relativeTo_of_segments hfar (Path.stem_cases start).1
      ((h.far_lead hstart).1.trans hb.lead_eq.symm) ((Path.filter_stem start).trans hloud)
      (Path.components_ne_nil hb.bytes_ne_nil),
    Path.relativeTo_here h.near_bytes_ne_nil habs hsegments hlast, hnear, hsame]

theorem checkFile_of_seen (hb : IsBase t l base) (hstart : IsBase t l start)
    (hloud : start.loud = base.loud) (h : Seen t l start far near)
    (hfile : (t.seenFrom l).isFile near = true) (rule : Rule) (isBroken : Text → Bool) :
    checkFile t base rule isBroken far = checkFile (t.seenFrom l) "." rule isBroken near := by
  rw [checkFile, checkFile, Tree.readSource_seenFrom h.resolve_eq,
    relativeTo_of_seen hb hstart hloud h hfile]

/-! ## The patterns -/

theorem map_checkFile_of_seen (hb : IsBase t l base) (hstart : IsBase t l start)
    (hloud : start.loud = base.loud) {fars nears : List Path}
    (h : List.Forall₂ (Seen t l start) fars nears) (rule : Rule) (isBroken : Text → Bool) :
    (fars.filter fun p => t.isFile p && isPhp p).map (checkFile t base rule isBroken) =
      (nears.filter fun p => (t.seenFrom l).isFile p && isPhp p).map
        (checkFile (t.seenFrom l) "." rule isBroken) := by
  induction h with
  | nil => rfl
  | @cons far near fars nears h _ ih =>
    rw [List.filter_cons, List.filter_cons, Tree.isFile_seenFrom h.resolve_eq]
    by_cases hfile : (t.seenFrom l).isFile near = true
    · rw [isPhp_of_seen h hfile]
      split
      · rw [List.map_cons, List.map_cons, checkFile_of_seen hb hstart hloud h hfile, ih]
      · exact ih
    · rw [Bool.eq_false_iff.mpr hfile, Bool.false_and, Bool.false_and, if_neg Bool.false_ne_true,
        if_neg Bool.false_ne_true]
      exact ih

theorem checkGlob_seenFrom (hb : IsBase t l base) {s : Text} (hs : base.text? = some s)
    (hplain : IsPlainText s) {glob : Text} (habs : (Path.ofText glob).isAbsolute = false)
    (hslashes : ¬ ['/', '/'] <:+: glob) :
    checkGlob t base glob = checkGlob (t.seenFrom l) "." glob := by
  rw [checkGlob, checkGlob]
  rcases Glob.seen_expand hb hs hplain habs hslashes with
    ⟨hfar, hnear⟩ | ⟨far, near, start, hfar, hnear, hstart, hloud, hseen⟩
  · rw [hfar, hnear]
  · rw [hfar, hnear]
    exact congrArg Checked.concat (map_checkFile_of_seen hb hstart hloud hseen _ _)

theorem checkDefinitions_seenFrom {r : Routing} (hb : IsBase t l base) {s : Text}
    (hs : base.text? = some s) (hplain : IsPlainText s)
    (hglobs : ∀ glob ∈ r.globs, (Path.ofText glob).isAbsolute = false ∧ ¬ ['/', '/'] <:+: glob) :
    r.checkDefinitions t base = r.checkDefinitions (t.seenFrom l) "." := by
  have hsame : r.globs.map (checkGlob t base) = r.globs.map (checkGlob (t.seenFrom l) ".") :=
    List.map_congr_left fun glob hmem =>
      checkGlob_seenFrom hb hs hplain (hglobs glob hmem).1 (hglobs glob hmem).2
  rw [checkDefinitions, checkDefinitions, hsame]

/-! ## The registration file -/

theorem checkDiscovery_seenFrom {r : Routing} (hbase : t.resolve base = .ok l)
    (hdir : t.at? l = some .dir)
    (hregistration : ∀ location, r.registration = some location → location.isAbsolute = false) :
    r.checkDiscovery t base = r.checkDiscovery (t.seenFrom l) "." := by
  have hdot := Tree.resolve_seenFrom_here hdir
  rw [checkDiscovery, checkDiscovery]
  cases hlocation : r.registration with
  | none => rfl
  | some location =>
    have habs := hregistration location hlocation
    have hne := Tree.bytes_ne_nil_of_resolve hbase
    have hne' := Tree.bytes_ne_nil_of_resolve hdot
    have hresolve : t.resolve (base.join location) =
        (t.seenFrom l).resolve (Path.join "." location) := by
      rw [Tree.resolve_join hne habs, Tree.resolve_join hne' habs, hbase, hdot]
      rfl
    have hreported : (base.join location).relativeTo base =
        (Path.join "." location).relativeTo "." := by
      rw [Path.relativeTo_of_segments (Path.segments_join hne habs) (Path.stem_cases base).1
          (Path.lead_join hne habs) (Path.filter_stem base) (Path.components_ne_nil hne),
        Path.relativeTo_of_segments (Path.segments_join hne' habs) (Path.stem_cases _).1
          (Path.lead_join hne' habs) (Path.filter_stem _) (Path.components_ne_nil hne')]
    simp only [Tree.isFile_seenFrom hresolve, checkFile, Tree.readSource_seenFrom hresolve, hreported]

/-! ## Both checks -/

/-- A check for a base, and one that is run from it.  What is found in the registration file is the
same for every base.  All of it is the same for a base that is a text, does not start with a `.`
and is no pattern itself, if no pattern has an empty component. -/
theorem check_seenFrom {r : Routing} {t : Tree} {base : Path} {l : Location}
    (hbase : t.resolve base = .ok l) (hdir : t.at? l = some .dir)
    (hregistration : ∀ location, r.registration = some location → location.isAbsolute = false) :
    r.checkDiscovery t base = r.checkDiscovery (t.seenFrom l) "." ∧
      (base.lead = .none → ∀ s, base.text? = some s → IsPlainText s →
        (∀ glob ∈ r.globs, (Path.ofText glob).isAbsolute = false ∧ ¬ ['/', '/'] <:+: glob) →
          r.check t base = r.check (t.seenFrom l) ".") := by
  have hdiscovery := checkDiscovery_seenFrom hbase hdir hregistration
  refine ⟨hdiscovery, fun hlead s hs hplain hglobs => ?_⟩
  rw [check, check, checkDefinitions_seenFrom ⟨hbase, hdir, hlead⟩ hs hplain hglobs, hdiscovery]

def nested : Tree where
  entries := [(["app".toList], .dir), (["app".toList, "routes".toList], .dir),
    (["app".toList, "routes".toList, "web.php".toList],
      .file (Utf8.encode "<?php\nRoute::get('/x', 1);\nreturn glob($dir);\n".toList))]
  valid := ⟨by decide, by decide, by decide, by decide⟩

def nestedRouting : Routing := ⟨["routes/*.php".toList], some "routes/web.php"⟩

theorem check_seenFrom_nested :
    nested.resolve "app" = .ok ["app".toList] ∧ nested.at? ["app".toList] = some .dir ∧
    nestedRouting.checkDiscovery nested "app" =
      nestedRouting.checkDiscovery (nested.seenFrom ["app".toList]) "." ∧
    nestedRouting.check nested "app" = nestedRouting.check (nested.seenFrom ["app".toList]) "." := by
  have hbase : nested.resolve "app" = .ok ["app".toList] := by decide
  have hdir : nested.at? ["app".toList] = some .dir := by decide
  have hregistration : ∀ location, nestedRouting.registration = some location →
      location.isAbsolute = false := by
    rintro _ ⟨⟩
    decide
  have hglobs : ∀ glob ∈ nestedRouting.globs,
      (Path.ofText glob).isAbsolute = false ∧ ¬ ['/', '/'] <:+: glob := by decide
  have hsame := check_seenFrom hbase hdir hregistration
  exact ⟨hbase, hdir, hsame.1, hsame.2 (by decide) "app".toList (by decide) (by decide) hglobs⟩

/-- For a base that starts with a `.`, what is found in the files of a pattern is not reported as it
is from the base. -/
theorem not_forall_base : ¬ ∀ (r : Routing) (t : Tree) (base : Path) (l : Location),
    t.resolve base = .ok l → t.at? l = some .dir → base.isAbsolute = false →
    (∀ glob ∈ r.globs, (Path.ofText glob).isAbsolute = false) →
    (∀ location, r.registration = some location → location.isAbsolute = false) →
      (r.check t base).violations = (r.check (t.seenFrom l) ".").violations := by
  intro h
  have hbase : nested.resolve "./app" = .ok ["app".toList] := by decide
  have hregistration : ∀ location, nestedRouting.registration = some location →
      location.isAbsolute = false := by
    rintro _ ⟨⟩
    decide
  have hreported : (nestedRouting.check nested "./app").violations ≠
      (nestedRouting.check (nested.seenFrom ["app".toList]) ".").violations := by decide +kernel
  exact hreported (h nestedRouting nested "./app" ["app".toList] hbase (by decide) (by decide)
    (by decide) hregistration)

end Routing
end ModuleBoundary
