/-
The lines that break a routing rule, as they are written.

A route is defined by a call of a verb on the facade, where a word can start, or on the router
(`RouteLine.Defines`), and a discovery is a name that betrays it or a call where a word can start
(`RouteLine.Discovers`).  A line is searched from left to right, and at each place every verb is
tried, so a verb that another one begins with is not missed.  `exact_lines` says that the searches
find these lines and no others, and that a check flags each of them once.
-/
import Mathlib.Data.List.Forall2
import ModuleBoundary.Proofs.Routing.Blocks
import ModuleBoundary.Proofs.Text.Leftmost
import ModuleBoundary.Proofs.Text.Trimming
import ModuleBoundary.Proofs.Tree.Walking

namespace ModuleBoundary

namespace Text

/-! ## Calls -/

theorem isSome_afterCall?_iff {word s : Text} :
    (afterCall? word s).isSome = true ↔
      ∃ (gap : Gap) (rest : Text), s = word ++ (gap.text ++ '(' :: rest) := by
  simp only [Option.isSome_iff_exists, afterCall?, Option.bind_eq_bind, Option.bind_eq_some_iff,
    after?_eq_some]
  constructor
  · intro h
    obtain ⟨rest, called, hs, hcalled⟩ := h
    obtain ⟨gap, hgap⟩ := exists_gap called
    exact ⟨gap, rest, by rw [hs, hgap, hcalled]; rfl⟩
  · intro h
    obtain ⟨gap, rest, hs⟩ := h
    exact ⟨rest, _, hs, dropBlanks_gap gap (by decide) rest⟩

/-- The text starts with a call: one of the words, blanks, and a round bracket. -/
def StartsCall (words : List Text) (s : Text) : Prop :=
  ∃ word ∈ words, ∃ (gap : Gap) (rest : Text), s = word ++ (gap.text ++ '(' :: rest)

theorem isCallOf_iff {words : List Text} {s : Text} :
    isCallOf words s = true ↔ StartsCall words s := by
  rw [isCallOf, List.any_eq_true]
  simp only [isSome_afterCall?_iff, StartsCall]

theorem any_after?_iff {head s : Text} {test : Text → Bool} :
    (after? head s).any test = true ↔ ∃ rest, s = head ++ rest ∧ test rest = true := by
  constructor
  · intro h
    cases hrest : after? head s with
    | none =>
      rw [hrest] at h
      exact absurd h (by simp)
    | some rest =>
      rw [hrest] at h
      exact ⟨rest, after?_eq_some.mp hrest, h⟩
  · intro h
    obtain ⟨rest, hs, htest⟩ := h
    rw [after?_eq_some.mpr hs]
    exact htest

end Text

namespace RouteLine

open Text (Gap)

/-! ## The two grammars -/

/-- Between `pre` and `post` the line calls a verb, on the router or, where a word can start, on
the facade. -/
def Defines (line : Text) : Prop :=
  ∃ (pre head verb : Text) (gap : Gap) (post : Text),
    line = pre ++ (head ++ (verb ++ (gap.text ++ '(' :: post))) ∧ verb ∈ verbs ∧
      (head = "$router->".toList ∨
        head = "Route::".toList ∧ ∀ c, pre.getLast? = some c → Text.isWord c = false)

/-- The line has a name in it that betrays a discovery, or a call that discovers files stands in it
where a word can start. -/
def Discovers (line : Text) : Prop :=
  (∃ name ∈ discoveryNames, name <:+: line) ∨
    ∃ (pre call : Text) (gap : Gap) (post : Text),
      line = pre ++ (call ++ (gap.text ++ '(' :: post)) ∧ call ∈ discoveryCalls ∧
        ∀ c, pre.getLast? = some c → Text.isWord c = false

theorem isDefinition_iff {line : Text} : isDefinition line = true ↔ Defines line := by
  have hnil : ∀ wordStart, isDefinitionAt wordStart [] = false := by decide
  rw [isDefinition, Text.somewhere_iff hnil]
  simp only [isDefinitionAt, Bool.or_eq_true, Bool.and_eq_true, decide_eq_true_eq,
    Text.any_after?_iff, Text.isCallOf_iff, Text.startsWord_false]
  constructor
  · intro h
    obtain ⟨pre, rest, hline, ⟨hstart, s, hs, verb, hverb, gap, post, hcall⟩ |
      ⟨s, hs, verb, hverb, gap, post, hcall⟩⟩ := h
    · exact ⟨pre, _, verb, gap, post, by rw [hline, hs, hcall], hverb, Or.inr ⟨rfl, hstart⟩⟩
    · exact ⟨pre, _, verb, gap, post, by rw [hline, hs, hcall], hverb, Or.inl rfl⟩
  · intro h
    obtain ⟨pre, head, verb, gap, post, hline, hverb, hhead⟩ := h
    have hcall : Text.StartsCall verbs (verb ++ (gap.text ++ '(' :: post)) :=
      ⟨verb, hverb, gap, post, rfl⟩
    refine ⟨pre, _, hline, ?_⟩
    rcases hhead with rfl | ⟨rfl, hstart⟩
    · exact Or.inr ⟨_, rfl, hcall⟩
    · exact Or.inl ⟨hstart, _, rfl, hcall⟩

theorem isDiscovery_iff {line : Text} : isDiscovery line = true ↔ Discovers line := by
  have hnil : ∀ wordStart, (wordStart && Text.isCallOf discoveryCalls []) = false := by decide
  rw [isDiscovery, Bool.or_eq_true, List.any_eq_true, Text.somewhere_iff hnil]
  simp only [Text.hasPart_iff, Bool.and_eq_true, decide_eq_true_eq, Text.isCallOf_iff,
    Text.startsWord_false]
  refine or_congr_right ⟨?_, ?_⟩
  · intro h
    obtain ⟨pre, rest, hline, hstart, call, hmem, gap, post, hcall⟩ := h
    exact ⟨pre, call, gap, post, by rw [hline, hcall], hmem, hstart⟩
  · intro h
    obtain ⟨pre, call, gap, post, hline, hmem, hstart⟩ := h
    exact ⟨pre, _, hline, hstart, call, hmem, gap, post, rfl⟩

example : isDefinition "$x = Route::resources ( 'a' )".toList = true := by decide

end RouteLine

namespace Routing

open RouteLine

theorem violations_checkDiscovery {r : Routing} {t : Tree} {base location : Path} {bytes : Bytes}
    (hlocation : r.registration = some location) (hphp : isPhp location = true)
    (hread : t.read (base.join location) = .ok bytes) :
    (r.checkDiscovery t base).violations =
      (checkFile t base .routeAutoDiscovery isDiscovery (base.join location)).violations := by
  have hfile : t.isFile (base.join location) = true := Tree.isFile_of_read hread
  rw [checkDiscovery, hlocation]
  simp only [hphp, hfile, Bool.not_true, Bool.false_eq_true, if_false, if_true]

/-- The searches find the lines of the two grammars.  Each such line is flagged once, in the order
of the lines: in the registration file, in every file for each time that it is matched, and so in
what is reported of a file if no other file that is matched is reported as it. -/
theorem exact_lines :
    (∀ line, isDefinition line = true ↔ Defines line) ∧
    (∀ line, isDiscovery line = true ↔ Discovers line) ∧
    (∀ (r : Routing) (t : Tree) (base location : Path) (bytes : Bytes),
      r.registration = some location → isPhp location = true →
      t.read (base.join location) = .ok bytes →
        FlagsExactly t base .routeAutoDiscovery Discovers (base.join location)
          (r.checkDiscovery t base).violations) ∧
    (∀ (r : Routing) (t : Tree) (base : Path), ∃ blocks,
      (r.checkDefinitions t base).violations = blocks.flatten ∧
        List.Forall₂ (FlagsExactly t base .inlineRouteDefinition Defines) (r.matched t base)
          blocks) ∧
    ∀ (r : Routing) (t : Tree) (base file : Path),
      (r.matched t base).filter (fun p =>
        decide ((p.relativeTo base).components = (file.relativeTo base).components)) = [file] →
      FlagsExactly t base .inlineRouteDefinition Defines file
        ((r.checkDefinitions t base).violations.filter fun v =>
          decide (v.file.components = (file.relativeTo base).components)) := by
  have hdefinitions : ∀ (t : Tree) (base file : Path),
      FlagsExactly t base .inlineRouteDefinition Defines file (definitionsIn t base file) :=
    flagsExactly_checkFile fun _ => isDefinition_iff
  refine ⟨fun _ => isDefinition_iff, fun _ => isDiscovery_iff, ?_, ?_, ?_⟩
  · intro r t base location bytes hlocation hphp hread
    rw [violations_checkDiscovery hlocation hphp hread]
    exact flagsExactly_checkFile (fun _ => isDiscovery_iff) t base (base.join location)
  · intro r t base
    refine ⟨(r.matched t base).map (definitionsIn t base), violations_checkDefinitions r t base, ?_⟩
    exact List.forall₂_map_right_iff.mpr
      (List.forall₂_same.mpr fun file _ => hdefinitions t base file)
  · intro r t base file honce
    rw [filter_checkDefinitions, honce, List.flatMap_singleton]
    exact hdefinitions t base file

def web : Tree where
  entries := [(["routes".toList], .dir), (["routes".toList, "web.php".toList],
    .file (Utf8.encode "<?php\nRoute::resources ('x');\r\nreturn glob($dir);".toList))]
  valid := ⟨by decide, by decide, by decide, by decide⟩

def webRouting : Routing := ⟨["routes/*.php".toList], some "routes/web.php"⟩

theorem exact_lines_web :
    webRouting.registration = some "routes/web.php" ∧ isPhp "routes/web.php" = true ∧
    (∃ bytes, web.read (Path.join "." "routes/web.php") = .ok bytes) ∧
    FlagsExactly web "." .routeAutoDiscovery Discovers (Path.join "." "routes/web.php")
      (webRouting.checkDiscovery web ".").violations ∧
    (webRouting.matched web ".").filter (fun p => decide ((p.relativeTo ".").components =
      (Path.relativeTo "routes/web.php" ".").components)) = ["routes/web.php"] ∧
    FlagsExactly web "." .inlineRouteDefinition Defines "routes/web.php"
      ((webRouting.checkDefinitions web ".").violations.filter fun v =>
        decide (v.file.components = (Path.relativeTo "routes/web.php" ".").components)) := by
  have hphp : isPhp "routes/web.php" = true := by decide
  have hread : web.read (Path.join "." "routes/web.php") =
      .ok (Utf8.encode "<?php\nRoute::resources ('x');\r\nreturn glob($dir);".toList) := by
    decide +kernel
  have honce : (webRouting.matched web ".").filter (fun p => decide ((p.relativeTo ".").components =
      (Path.relativeTo "routes/web.php" ".").components)) = ["routes/web.php"] := by
    decide +kernel
  exact ⟨rfl, hphp, ⟨_, hread⟩, exact_lines.2.2.1 webRouting web "." "routes/web.php" _ rfl hphp hread,
    honce, exact_lines.2.2.2.2 webRouting web "." "routes/web.php" honce⟩

end Routing
end ModuleBoundary
