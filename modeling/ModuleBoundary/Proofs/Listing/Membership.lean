/-
Which files a scan gives.

A scan goes through the files at a root and below it, and a file counts by the spelling of its
path alone: by its extension, in any letter case, and by the segments between the first and the
last.  The excluded parts are looked for in the text of the path, and `isExcluded_iff` says that
what is found there are whole segments.  So `scan_exact` can say which files a scan gives without
looking into texts.
-/
import ModuleBoundary.Proofs.Listing.Scan
import ModuleBoundary.Proofs.Reference.Markers
import ModuleBoundary.Proofs.Text.Cutting
import ModuleBoundary.Proofs.Text.Encoding
import ModuleBoundary.Proofs.Text.LetterCase

namespace ModuleBoundary

/-! ## Extensions -/

namespace Path

/-- The extension is what stands behind the last dot of the file name, and something stands in
front of that dot. -/
theorem extension?_eq_some_iff {p : Path} {ext : Bytes} :
    p.extension? = some ext ↔
      ∃ stem, p.fileName? = some (stem ++ dot :: ext) ∧ stem ≠ [] ∧ dot ∉ ext := by
  rw [extension?, Option.bind_eq_some_iff]
  constructor
  · intro h
    obtain ⟨name, hname, hcut⟩ := h
    split at hcut
    · next c stem ext' hlast =>
      obtain rfl := Option.some.inj hcut
      obtain ⟨htext, hdot⟩ := Text.cutLast?_eq_some hlast
      exact ⟨c :: stem, htext ▸ hname, List.cons_ne_nil c stem, hdot⟩
    · exact absurd hcut (by simp)
  · intro h
    obtain ⟨stem, hname, hne, hdot⟩ := h
    obtain ⟨c, stem, rfl⟩ := List.exists_cons_of_ne_nil hne
    refine ⟨_, hname, ?_⟩
    rw [Text.cutLast?_append_cons hdot]

end Path

namespace Listing

open Reference (segments)

/-- The file name of the path ends with a dot and one of the known extensions, in any letter
case, and does not start with that dot. -/
def HasSourceName (p : Path) : Prop :=
  ∃ stem ext, p.fileName? = some (stem ++ dot :: Utf8.encode ext) ∧ stem ≠ [] ∧
    ∃ word ∈ extensions, Text.IsCaseOf word ext

theorem isCaseOf_iff_lower {word ext : Text} (h : word ∈ extensions) :
    Text.IsCaseOf word ext ↔ Text.lower ext = word := by
  have hwords : ∀ word ∈ extensions, word.all Char.isLower = true ∧ Text.lower word = word := by
    decide
  obtain ⟨hlower, hself⟩ := hwords word h
  rw [← Text.sameIgnoringCase_iff hlower, Text.sameIgnoringCase, beq_iff_eq, hself]

theorem dot_not_mem_of_isCaseOf {word ext : Text} (h : word ∈ extensions)
    (hcase : Text.IsCaseOf word ext) : dot ∉ Utf8.encode ext := by
  have hwords : ∀ word ∈ extensions, '.' ∉ word := by decide
  intro hdot
  have hchar : '.' ∈ ext := (Utf8.mem_encode_iff (by decide)).mp hdot
  refine hwords word h ?_
  rw [← (isCaseOf_iff_lower h).mp hcase]
  exact List.mem_map_of_mem hchar

theorem hasSourceExtension_iff {p : Path} : hasSourceExtension p = true ↔ HasSourceName p := by
  rw [hasSourceExtension, Path.hasExtension]
  constructor
  · intro h
    split at h
    · next ext hext =>
      obtain ⟨bytes, hbytes, htext⟩ := Option.bind_eq_some_iff.mp hext
      obtain rfl := Utf8.decode?_eq_some_iff.mp htext
      obtain ⟨stem, hname, hne, _⟩ := Path.extension?_eq_some_iff.mp hbytes
      have hmem := List.contains_iff_mem.mp h
      exact ⟨stem, ext, hname, hne, _, hmem, (isCaseOf_iff_lower hmem).mpr rfl⟩
    · exact absurd h (by simp)
  · intro h
    obtain ⟨stem, ext, hname, hne, word, hword, hcase⟩ := h
    have hdot := dot_not_mem_of_isCaseOf hword hcase
    rw [Path.extension?_eq_some_iff.mpr ⟨stem, hname, hne, hdot⟩, Option.bind_some,
      Utf8.decode?_encode]
    show extensions.contains (Text.lower ext) = true
    rw [List.contains_iff_mem, (isCaseOf_iff_lower hword).mp hcase]
    exact hword

/-! ## Excluded parts -/

/-- The segments of a path as it is shown, with slashes or backslashes between them, but for the
first and the last. -/
def innerSegments (p : Path) : List Text := (segments p.text).tail.dropLast

def excludedSegments : List Text :=
  ["vendor".toList, "node_modules".toList, "storage".toList, "dist".toList, "build".toList,
    "coverage".toList, ".git".toList]

/-- The segments that exclude a path where they follow each other. -/
def excludedPair : List Text := ["bootstrap".toList, "cache".toList]

def excludedPart (parts : List Text) : Text := '/' :: (Text.join ['/'] parts ++ ['/'])

theorem mem_excludedParts_iff {part : Text} : part ∈ excludedParts ↔
    (∃ name ∈ excludedSegments, excludedPart [name] = part) ∨ excludedPart excludedPair = part := by
  have hperm : excludedParts.Perm
      ((excludedSegments.map fun name => excludedPart [name]) ++ [excludedPart excludedPair]) := by
    decide
  rw [hperm.mem_iff, List.mem_append, List.mem_map, List.mem_singleton, eq_comm (a := part)]

/-- An excluded part is found in the text of a path where its segments follow each other among
the inner ones. -/
theorem hasPart_excludedPart_iff {p : Path} {parts : List Text} (hne : parts ≠ [])
    (h : ∀ part ∈ parts, '/' ∉ part) :
    Text.hasPart (excludedPart parts) (Reference.withSlashes p.text) = true ↔
      parts <:+: innerSegments p := by
  rw [Text.hasPart_iff, excludedPart, Text.isInfix_joined_iff hne h, Reference.splitOn_withSlashes,
    innerSegments]

theorem isExcluded_iff {p : Path} : isExcluded p = true ↔
    (∃ name ∈ excludedSegments, name ∈ innerSegments p) ∨ excludedPair <:+: innerSegments p := by
  have hfree : ∀ name ∈ excludedSegments, '/' ∉ name := by decide
  have hone : ∀ name ∈ excludedSegments,
      Text.hasPart (excludedPart [name]) (Reference.withSlashes p.text) = true ↔
        name ∈ innerSegments p := by
    intro name hname
    rw [hasPart_excludedPart_iff (List.cons_ne_nil name [])
      (fun part hpart => List.mem_singleton.mp hpart ▸ hfree name hname), List.singleton_infix_iff]
  have hpair : Text.hasPart (excludedPart excludedPair) (Reference.withSlashes p.text) = true ↔
      excludedPair <:+: innerSegments p :=
    hasPart_excludedPart_iff (by decide) (by decide)
  have hany : isExcluded p = true ↔
      ∃ part ∈ excludedParts, Text.hasPart part (Reference.withSlashes p.text) = true :=
    List.any_eq_true
  rw [hany]
  constructor
  · intro h
    obtain ⟨part, hpart, hfound⟩ := h
    rcases mem_excludedParts_iff.mp hpart with ⟨name, hname, rfl⟩ | rfl
    · exact Or.inl ⟨name, hname, (hone name hname).mp hfound⟩
    · exact Or.inr (hpair.mp hfound)
  · intro h
    rcases h with ⟨name, hname, hinner⟩ | hinner
    · exact ⟨_, mem_excludedParts_iff.mpr (Or.inl ⟨name, hname, rfl⟩), (hone name hname).mpr hinner⟩
    · exact ⟨_, mem_excludedParts_iff.mpr (Or.inr rfl), hpair.mpr hinner⟩

/-! ## The files of a scan -/

/-- The path is spelled as that of a source file: by its extension, and by what its inner segments
are not. -/
structure IsSourceSpelling (p : Path) : Prop where
  name : HasSourceName p
  segment : ∀ name ∈ excludedSegments, name ∉ innerSegments p
  pair : ¬ excludedPair <:+: innerSegments p

theorem isSource_iff {p : Path} : isSource p = true ↔ IsSourceSpelling p := by
  rw [isSource, Bool.and_eq_true, hasSourceExtension_iff, Bool.not_eq_true', Bool.eq_false_iff,
    ne_eq, isExcluded_iff, not_or]
  constructor
  · intro h
    exact ⟨h.1, fun name hname hinner => h.2.1 ⟨name, hname, hinner⟩, h.2.2⟩
  · intro h
    refine ⟨h.name, fun hsegment => ?_, h.pair⟩
    obtain ⟨name, hname, hinner⟩ := hsegment
    exact h.segment name hname hinner

end Listing

/-- The path spells, from the root, a file of the tree that is at the root or below it. -/
def Tree.IsFileFrom (t : Tree) (root p : Path) : Prop :=
  ∃ l below bytes, t.resolve root = .ok l ∧ t.at? (l ++ below) = some (.file bytes) ∧
    p = Tree.spell root below

namespace Listing

/-- A scan gives the files at its root and below it that are spelled as source files, each of them
once, and the paths with a language are those with the extension of a source file. -/
theorem scan_exact (t : Tree) (root : Path) :
    (scan t root).files.Nodup ∧
    (∀ p, p ∈ (scan t root).files ↔ t.IsFileFrom root p ∧ IsSourceSpelling p) ∧
    (∀ p, (Language.ofPath? p).isSome = true ↔ HasSourceName p) ∧
    (scan t root).files.filter (fun p => (Language.ofPath? p).isSome) = (scan t root).files := by
  have hlanguage : ∀ p, (Language.ofPath? p).isSome = true ↔ HasSourceName p := by
    intro p
    rw [Language.isSome_ofPath?, hasSourceExtension_iff]
  have hmem : ∀ p, p ∈ (scan t root).files ↔ t.IsFileFrom root p ∧ IsSourceSpelling p := by
    intro p
    rw [mem_scan, isSource_iff, Tree.IsFileFrom, and_comm]
  have hnodup : (scan t root).files.Nodup :=
    (List.pairwise_map.mp (nodup_resolve_scan t root)).imp fun hne heq =>
      hne (congrArg t.resolve heq)
  refine ⟨hnodup, hmem, hlanguage, ?_⟩
  exact List.filter_eq_self.mpr fun p hp => (hlanguage p).mpr ((hmem p).mp hp).2.name

/-- A name with a dot in front only, one with nothing behind the dot, and backslashes around an
excluded name. -/
example : (["src/.php", "src/a.", "src/a\\vendor\\b.php", "src/B.PHP"].map fun p : String =>
    isSource p) = [false, false, false, true] := by decide

end Listing
end ModuleBoundary
