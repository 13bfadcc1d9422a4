/-
Where routing violations come from.

A routing rule is checked in certain files (`Routing.Checks`), and there every line that
breaks it is a violation of its own.  `mem_violations_check` says that nothing else is:
a violation of the routing checks names a line of a file in which its rule is checked.
-/
import ModuleBoundary.Routing.Check

namespace ModuleBoundary
namespace Routing

variable {r : Routing} {t : Tree} {base : Path} {v : Violation}

inductive Checks (r : Routing) (t : Tree) (base : Path) : Rule → (Text → Bool) → Path → Prop
  | definition {glob : Text} {g : Glob} {file : Path} (hglob : glob ∈ r.globs)
      (hread : Glob.ofText? (base.join (.ofText glob)).text = some g) (hfile : file ∈ g.expand t)
      (his : t.isFile file = true) (hphp : isPhp file = true) :
      Checks r t base .inlineRouteDefinition RouteLine.isDefinition file
  | discovery {location : Path} (hlocation : r.registration = some location)
      (hphp : isPhp location = true) (his : t.isFile (base.join location) = true) :
      Checks r t base .routeAutoDiscovery RouteLine.isDiscovery (base.join location)

theorem mem_checkDefinitions :
    v ∈ (r.checkDefinitions t base).violations ↔ ∃ glob ∈ r.globs, ∃ g,
      Glob.ofText? (base.join (.ofText glob)).text = some g ∧ ∃ file ∈ g.expand t,
        (t.isFile file = true ∧ isPhp file = true) ∧
        v ∈ (checkFile t base .inlineRouteDefinition RouteLine.isDefinition file).violations := by
  rw [checkDefinitions, Checked.violations_concat, List.flatMap_map, List.mem_flatMap]
  refine exists_congr fun glob => and_congr_right fun _ => ?_
  rw [checkGlob]
  cases Glob.ofText? (base.join (.ofText glob)).text with
  | none => simp
  | some g =>
    simp only [Checked.violations_concat, List.flatMap_map, List.mem_flatMap, List.mem_filter,
      Bool.and_eq_true, Option.some.injEq, exists_eq_left', and_assoc]

theorem mem_checkDiscovery :
    v ∈ (r.checkDiscovery t base).violations ↔ ∃ location, r.registration = some location ∧
      isPhp location = true ∧ t.isFile (base.join location) = true ∧
      v ∈ (checkFile t base .routeAutoDiscovery RouteLine.isDiscovery
        (base.join location)).violations := by
  rw [checkDiscovery]
  cases r.registration with
  | none => simp [Checked.none]
  | some location =>
    cases hphp : isPhp location with
    | false => simp [hphp]
    | true =>
      cases his : t.isFile (base.join location) <;> simp [hphp, his, Checked.none]

theorem mem_violations_check :
    v ∈ (r.check t base).violations ↔ ∃ rule isBroken file, Checks r t base rule isBroken file ∧
      v ∈ (checkFile t base rule isBroken file).violations := by
  rw [check, Checked.append, List.mem_append, mem_checkDefinitions, mem_checkDiscovery]
  constructor
  · rintro (⟨glob, hglob, g, hread, file, hfile, ⟨his, hphp⟩, hv⟩ | ⟨location, hl, hphp, his, hv⟩)
    · exact ⟨_, _, file, .definition hglob hread hfile his hphp, hv⟩
    · exact ⟨_, _, _, .discovery hl hphp his, hv⟩
  · rintro ⟨rule, isBroken, file, hchecks, hv⟩
    cases hchecks with
    | definition hglob hread hfile his hphp =>
      exact Or.inl ⟨_, hglob, _, hread, file, hfile, ⟨his, hphp⟩, hv⟩
    | discovery hl hphp his => exact Or.inr ⟨_, hl, hphp, his, hv⟩

/-- The violations of a rule in a file are its broken lines. -/
theorem mem_violations_checkFile {rule : Rule} {isBroken : Text → Bool} {file : Path} :
    v ∈ (checkFile t base rule isBroken file).violations ↔ ∃ bytes k line,
      t.read file = .ok bytes ∧ (Text.lines (Utf8.decodeLossy bytes))[k]? = some line ∧
        isBroken line = true ∧
        v = ⟨rule.code, rule.name, file.relativeTo base, k + 1, Text.trim line,
          rule.routeMessage⟩ := by
  rw [checkFile, Tree.readSource]
  cases hbytes : t.read file with
  | error e => simp [Except.map]
  | ok bytes =>
    simp only [Except.map, lineViolations, List.mem_map, List.mem_filter]
    constructor
    · rintro ⟨⟨line, n⟩, ⟨hmem, hbroken⟩, rfl⟩
      obtain ⟨hle, hline⟩ := List.mem_zipIdx_iff_le_and_getElem?_sub.mp hmem
      refine ⟨bytes, n - 1, line, rfl, hline, hbroken, ?_⟩
      rw [Nat.sub_add_cancel hle]
    · rintro ⟨bytes', k, line, heq, hline, hbroken, rfl⟩
      obtain rfl := Except.ok.inj heq
      refine ⟨(line, k + 1), ⟨?_, hbroken⟩, rfl⟩
      exact List.mem_zipIdx_iff_le_and_getElem?_sub.mpr ⟨Nat.le_add_left 1 k, by simpa using hline⟩

theorem code_of_mem_check (h : v ∈ (r.check t base).violations) :
    v.code = Rule.code .inlineRouteDefinition ∨ v.code = Rule.code .routeAutoDiscovery := by
  obtain ⟨rule, isBroken, file, hchecks, hv⟩ := mem_violations_check.mp h
  obtain ⟨_, _, _, _, _, _, rfl⟩ := mem_violations_checkFile.mp hv
  cases hchecks with
  | definition => exact Or.inl rfl
  | discovery => exact Or.inr rfl

end Routing
end ModuleBoundary
