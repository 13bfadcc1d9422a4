/-
Where the module of a reference stands in its target.

The name of the module is a segment, and the marker is in the segment in front of it.  In a path
it is that segment (`Marked.path`).  In a qualified name the segment may be longer: it ends with
`Domains`, and is no more than that if the leftmost place is where a segment starts
(`Marked.qualified`).  The layer of a qualified name is read off the segments behind the module,
but that of a path also off the module and off those in front of the marker (`Layered`).
-/
import ModuleBoundary.Boundary
import ModuleBoundary.Proofs.Reference.Domains
import ModuleBoundary.Proofs.Reference.Markers

namespace ModuleBoundary

namespace Spelling

def segments : Spelling → Text → List Text
  | .path, target => Reference.segments target
  | .qualified, target => target.splitOn '\\'

def markers : Spelling → List Text
  | .path => Reference.defaultMarkers
  | .qualified => ["Domains".toList]

def contracts : Spelling → Text
  | .path => "contracts".toList
  | .qualified => "Contracts".toList

end Spelling

namespace Reference

variable {target name rest : Text} {i : Nat}

/-! ## Places -/

/-- Read as a path, the target has the marker and the module between `before` and `behind`, and
the marker is at the place that decides. -/
structure StandsInPath (target marker name : Text) (before behind : List Text) : Prop where
  decides : Decides Spelling.path.markers (Spelling.path.segments target) before.length
  marker_mem : marker ∈ Spelling.path.markers
  segments : Spelling.path.segments target = before ++ marker :: name :: behind

/-- Read as a qualified name, the target has the module between two segments where its leftmost
place is. -/
structure StandsInName (target marker name rest : Text) (i : Nat) (before : List Text) : Prop
    extends FirstDomainAt target i name rest where
  segments : Spelling.qualified.segments target = before ++ marker :: name :: rest.splitOn '\\'

theorem exists_standsInPath (hplace : Decides defaultMarkers (segments target) i)
    (hbehind : (segments target)[i + 1]? = some name) :
    ∃ before marker behind, StandsInPath target marker name before behind := by
  have ⟨_, marker, _, hmarkers, _, hmarker, _⟩ := hplace
  obtain ⟨hi, hmarker⟩ := List.getElem?_eq_some_iff.mp hmarker
  obtain ⟨hi', hname⟩ := List.getElem?_eq_some_iff.mp hbehind
  have hlength : ((segments target).take i).length = i := by
    rw [List.length_take]
    omega
  refine ⟨(segments target).take i, marker, (segments target).drop (i + 2), ?_, ?_, ?_⟩
  · rw [hlength]
    exact hplace
  · show marker ∈ defaultMarkers
    simp [hmarkers]
  · show segments target = _
    rw [← hmarker, ← hname, ← List.drop_eq_getElem_cons hi', ← List.drop_eq_getElem_cons hi,
      List.take_append_drop]

theorem exists_standsInName (h : FirstDomainAt target i name rest) :
    ∃ lead before, StandsInName target (lead ++ "Domains".toList) name rest i before ∧
      (lead = [] ↔ ∀ c, (target.take i).getLast? = some c → c = '\\') := by
  have hmarker : '\\' ∉ "Domains".toList := by decide
  obtain ⟨before, lead, hsplit, hlead⟩ := Text.exists_splitOn_append hmarker (target.take i)
  refine ⟨lead, before, ⟨h, ?_⟩, hlead⟩
  have htarget : target =
      (target.take i ++ "Domains".toList) ++ '\\' :: (name ++ '\\' :: rest) := by
    rw [List.append_assoc]
    exact (List.take_append_drop i target).symm.trans (congrArg _ h.reads)
  show target.splitOn '\\' = _
  rw [congrArg (List.splitOn '\\') htarget, List.splitOn_append_cons_self, hsplit,
    List.splitOn_append_cons_self_of_not_mem h.backslash_not_mem, List.append_assoc]
  rfl

/-! ## Markers and layers -/

inductive Marked (target : Text) : Reference → Prop
  | path {marker name : Text} {layer : Layer} {before behind : List Text}
      (h : StandsInPath target marker name before behind) : Marked target ⟨name, layer, .path⟩
  | qualified {lead name rest : Text} {layer : Layer} {i : Nat} {before : List Text}
      (h : StandsInName target (lead ++ "Domains".toList) name rest i before)
      (hlead : lead = [] ↔ ∀ c, (target.take i).getLast? = some c → c = '\\') :
      Marked target ⟨name, layer, .qualified⟩

inductive Layered (target : Text) : Reference → Prop
  | path {marker name : Text} {layer : Layer} {before behind : List Text}
      (h : StandsInPath target marker name before behind)
      (hlayer : layer = .contracts ↔ Spelling.path.contracts ∈ before.tail ∨
        (Spelling.path.contracts = name ∧ behind ≠ []) ∨
        Spelling.path.contracts ∈ behind.dropLast) :
      Layered target ⟨name, layer, .path⟩
  | qualified {marker name rest : Text} {layer : Layer} {i : Nat} {before : List Text}
      (h : StandsInName target marker name rest i before)
      (hlayer : layer = .contracts ↔
        Spelling.qualified.contracts ∈ (rest.splitOn '\\').dropLast) :
      Layered target ⟨name, layer, .qualified⟩

end Reference

/-! ## Classifiers -/

namespace Classifier

variable {root : Option Path} {target : Text} {r : Reference}

/-- What is classified was read in one of the two ways. -/
theorem reading_of_classify (h : (ofRoot root).classify target = some r) :
    Reference.PathReading Reference.defaultMarkers target (.found r) ∨
      Reference.QualifiedReading target (.found r) := by
  rw [classify] at h
  split at h
  · exact absurd h (by simp)
  · obtain ⟨strategy, hmem, hattempt⟩ := Strategy.exists_of_firstAnswer? h
    have hdefault : strategy = .markers Reference.defaultMarkers ∨
        strategy = .patterns Reference.defaultPatterns := by
      simpa [ofRoot, new, Strategy.defaults] using hmem
    rcases hdefault with hdefault | hdefault
    · left
      rw [hdefault] at hattempt
      rw [← hattempt]
      exact Reference.pathReading_ofMarkers _ _
    · right
      rw [hdefault] at hattempt
      rw [← hattempt]
      exact Reference.qualifiedReading_ofPatterns _

/-- A reference has its marker right in front of its module. -/
theorem marked_of_classify (h : (ofRoot root).classify target = some r) :
    Reference.Marked target r := by
  rcases reading_of_classify h with hpath | hqualified
  · cases hpath with
    | found _ hplace hbehind _ _ =>
      obtain ⟨_, _, _, hstands⟩ := Reference.exists_standsInPath hplace hbehind
      exact .path hstands
  · cases hqualified with
    | found hplace _ _ =>
      obtain ⟨_, _, hstands, hlead⟩ := Reference.exists_standsInName hplace
      exact .qualified hstands hlead

def longerName : Text := "Acme\\SubDomains\\Orders\\Repo".toList

theorem marked_longerName :
    (ofRoot none).classify longerName = some ⟨"Orders".toList, .internals, .qualified⟩ ∧
      Reference.Marked longerName ⟨"Orders".toList, .internals, .qualified⟩ := by
  have h : (ofRoot none).classify longerName =
      some ⟨"Orders".toList, .internals, .qualified⟩ := by decide +kernel
  exact ⟨h, marked_of_classify h⟩

/-- The segment in front of the module need not be a marker. -/
theorem not_forall_marker : ¬ ∀ (root : Option Path) (target : Text) (r : Reference),
    (ofRoot root).classify target = some r →
      ∃ marker ∈ r.spelling.markers, [marker, r.moduleName] <:+: r.spelling.segments target := by
  intro h
  have hlonger := h none longerName ⟨"Orders".toList, .internals, .qualified⟩ (by decide +kernel)
  exact absurd hlonger (by decide +kernel)

/-- A reference has its layer from the segments that `Layered` names. -/
theorem layered_of_classify (h : (ofRoot root).classify target = some r) :
    Reference.Layered target r := by
  rcases reading_of_classify h with hpath | hqualified
  · cases hpath with
    | found _ hplace hbehind _ hlayer =>
      obtain ⟨before, marker, behind, hstands⟩ := Reference.exists_standsInPath hplace hbehind
      have hne : Spelling.path.contracts ≠ marker := by
        intro heq
        have hmem := hstands.marker_mem
        rw [← heq] at hmem
        exact absurd hmem (by decide)
      refine .path hstands (hlayer.trans ?_)
      rw [← Text.mem_tail_dropLast_append_iff hne, ← hstands.segments]
      exact Iff.rfl
  · cases hqualified with
    | found hplace _ hlayer =>
      obtain ⟨_, _, hstands, _⟩ := Reference.exists_standsInName hplace
      exact .qualified hstands hlayer

/-- A `contracts` directory stands in front of the module, and none in it. -/
def strayContracts : Text := "../contracts/modules/billing/domain/invoice".toList

theorem layered_strayContracts :
    (ofRoot none).classify strayContracts = some ⟨"billing".toList, .contracts, .path⟩ ∧
      Reference.Layered strayContracts ⟨"billing".toList, .contracts, .path⟩ := by
  have h : (ofRoot none).classify strayContracts =
      some ⟨"billing".toList, .contracts, .path⟩ := by decide +kernel
  exact ⟨h, layered_of_classify h⟩

/-- The contracts need not stand behind the module, and then a file of another module may import
its internals. -/
theorem not_forall_contracts_behind :
    (¬ ∀ (root : Option Path) (target : Text) (r : Reference),
      (ofRoot root).classify target = some r → r.layer = .contracts →
        [r.moduleName, r.spelling.contracts].Sublist (r.spelling.segments target)) ∧
    Violation.ofImport? (ofRoot none) "src/modules/user/index.ts"
      (.inModule "user".toList false) ⟨strayContracts, 1⟩ = none := by
  refine ⟨?_, by decide +kernel⟩
  intro h
  have hstray := h none strayContracts ⟨"billing".toList, .contracts, .path⟩ (by decide +kernel) rfl
  exact absurd hstray (by decide +kernel)

end Classifier
end ModuleBoundary
