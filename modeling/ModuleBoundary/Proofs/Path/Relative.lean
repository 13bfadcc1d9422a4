/-
A path seen from another one.

Cutting components off the front of a path works on its spelling, and what is left is a
spelling again.  The theorem this file exists for is `components_rest?`: the components that
were cut off and the components of what is left are those of the path.  So paths below one
base are told apart by what is reported of them, as far as components go
(`components_relativeTo`).
-/
import ModuleBoundary.Proofs.Path.Joining
import ModuleBoundary.Proofs.Text.Parts

namespace ModuleBoundary
namespace Path

/-! ## Segments that are joined -/

theorem slash_not_mem_of_mem_segments {p : Path} {s : Bytes} (h : s ∈ p.segments) : slash ∉ s :=
  (Text.mem_splitOn h).2

theorem slash_not_mem_of_mem_stem {p : Path} {s : Bytes} (h : s ∈ p.stem) : slash ∉ s := by
  rcases (stem_cases p).2 with hsegments | hsegments
  · exact slash_not_mem_of_mem_segments (hsegments ▸ h)
  · exact slash_not_mem_of_mem_segments (hsegments ▸ List.mem_append_left _ h)

theorem segments_ofNames_of_ne_nil {segments : List Bytes} (hs : ∀ s ∈ segments, slash ∉ s)
    (hne : segments ≠ []) : (ofNames segments).segments = segments :=
  List.splitOn_intercalate slash hs hne

theorem lead_eq_none {p : Path} {s : Bytes} (hhead : p.segments.head? = some s)
    (hs : isSilent s = false) : p.lead = none := by
  have habs : p.isAbsolute = false := by
    rw [Bool.eq_false_iff]
    intro h
    obtain ⟨rest, hrest⟩ := segments_of_isAbsolute h
    rw [hrest, List.head?_cons] at hhead
    obtain rfl := Option.some.inj hhead
    exact absurd hs (by decide)
  have hdot : p.segments.head? ≠ some [dot] := by
    rw [hhead]
    rintro heq
    obtain rfl := Option.some.inj heq
    exact absurd hs (by decide)
  rw [lead, habs, if_neg Bool.false_ne_true, if_neg hdot]

theorem components_ofNames {segments : List Bytes} (hs : ∀ s ∈ segments, slash ∉ s)
    (hhead : ∀ s, segments.head? = some s → isSilent s = false) :
    (ofNames segments).components =
      (segments.filter fun s => !isSilent s).map Component.ofSegment := by
  cases segments with
  | nil => rfl
  | cons s rest =>
    have hsegments := segments_ofNames_of_ne_nil hs (List.cons_ne_nil s rest)
    have hlead : (ofNames (s :: rest)).lead = none := by
      refine lead_eq_none (s := s) ?_ (hhead s rfl)
      rw [hsegments]
      rfl
    rw [components_eq, hlead, loud, hsegments]
    rfl

/-! ## Silent segments -/

theorem filter_dropWhile_isSilent (segments : List Bytes) :
    (segments.dropWhile isSilent).filter (fun s => !isSilent s) =
      segments.filter fun s => !isSilent s := by
  induction segments with
  | nil => rfl
  | cons s rest ih => by_cases h : isSilent s = true <;> simp [h, ih]

theorem filter_trimSilentEnd (segments : List Bytes) :
    (trimSilentEnd segments).filter (fun s => !isSilent s) =
      segments.filter fun s => !isSilent s := by
  rw [trimSilentEnd, List.filter_reverse, filter_dropWhile_isSilent, ← List.filter_reverse,
    List.reverse_reverse]

theorem isPrefix_trimSilentEnd (segments : List Bytes) : trimSilentEnd segments <+: segments := by
  rw [trimSilentEnd, ← List.reverse_suffix, List.reverse_reverse]
  exact List.dropWhile_suffix _

theorem filter_dropNames (n : Nat) (segments : List Bytes) :
    (dropNames n segments).filter (fun s => !isSilent s) =
      (segments.filter fun s => !isSilent s).drop n := by
  induction segments generalizing n with
  | nil => cases n <;> rfl
  | cons s rest ih =>
    cases n with
    | zero => rfl
    | succ n =>
      by_cases h : isSilent s = true
      · -- A silent segment is dropped for nothing, so the number stays as it is.
        rw [dropNames, if_pos h, List.filter_cons_of_neg (by simp [h])]
        exact ih (n + 1)
      · rw [dropNames, if_neg h, List.filter_cons_of_pos (by simp [h]), List.drop_succ_cons]
        exact ih n

theorem isSuffix_dropNames (n : Nat) (segments : List Bytes) :
    dropNames n segments <:+ segments := by
  induction segments generalizing n with
  | nil => cases n <;> exact List.suffix_rfl
  | cons s rest ih =>
    cases n with
    | zero => exact List.suffix_rfl
    | succ n =>
      rw [dropNames]
      split
      · exact (ih (n + 1)).trans (List.suffix_cons s rest)
      · exact (ih n).trans (List.suffix_cons s rest)

/-- Behind as many components as there are in front, what is left is what stands behind, but for
silent segments. -/
theorem dropWhile_dropNames_append (front behind : List Bytes) :
    (dropNames (front.filter fun s => !isSilent s).length (front ++ behind)).dropWhile isSilent =
      behind.dropWhile isSilent := by
  induction front with
  | nil => cases behind <;> rfl
  | cons s front ih =>
    by_cases hs : isSilent s = true
    · rw [List.filter_cons_of_neg (by simp [hs]), List.cons_append]
      cases hn : (front.filter fun s => !isSilent s).length with
      | zero =>
        rw [hn] at ih
        rw [dropNames, List.dropWhile_cons_of_pos hs, ← ih, dropNames]
      | succ n =>
        rw [hn] at ih
        rw [dropNames, if_pos hs, ih]
    · rw [List.filter_cons_of_pos (by simp [hs]), List.length_cons, List.cons_append, dropNames,
        if_neg hs]
      exact ih

/-! ## What is left -/

theorem mem_segments_of_mem_body {p : Path} {s : Bytes} (h : s ∈ p.body) : s ∈ p.segments := by
  rw [body] at h
  split at h
  · exact List.mem_of_mem_tail h
  · exact h

/-- Without a lead, the segment in front is not silent. -/
theorem isSilent_head {p : Path} (hlead : p.lead = none) (hp : p.bytes ≠ []) {s : Bytes}
    (h : p.segments.head? = some s) : isSilent s = false := by
  have habs : p.isAbsolute = false := by
    rw [Bool.eq_false_iff]
    intro habs
    rw [lead, if_pos habs] at hlead
    exact absurd hlead (by simp)
  rw [Bool.eq_false_iff]
  intro hs
  rw [isSilent, Bool.or_eq_true, beq_iff_eq, beq_iff_eq] at hs
  rcases hs with rfl | rfl
  · obtain ⟨c, rest, hbytes⟩ := List.exists_cons_of_ne_nil hp
    have hc : c ≠ slash := by simpa [isAbsolute, hbytes] using habs
    rw [segments, hbytes, List.splitOn_cons_eq_if_modifyHead, if_neg (by simpa using hc)] at h
    cases hsplit : rest.splitOn slash with
    | nil => exact absurd hsplit (List.splitOn_ne_nil _ _)
    | cons first more => simp [hsplit] at h
  · rw [lead, habs, if_neg Bool.false_ne_true, if_pos h] at hlead
    exact absurd hlead (by simp)

theorem components_ne_nil {p : Path} (hp : p.bytes ≠ []) : p.components ≠ [] := by
  rw [components_eq]
  cases hlead : p.lead with
  | some c => simp
  | none =>
    obtain ⟨first, rest, hsegments⟩ := List.exists_cons_of_ne_nil p.segments_ne_nil
    have hfirst : isSilent first = false := isSilent_head hlead hp (by rw [hsegments]; rfl)
    simp [loud, hsegments, hfirst]

theorem head?_trimSilentEnd {p : Path} (hlead : p.lead = none) {s : Bytes}
    (h : (trimSilentEnd p.segments).head? = some s) : isSilent s = false := by
  obtain ⟨behind, hbehind⟩ := isPrefix_trimSilentEnd p.segments
  obtain ⟨rest, hrest⟩ := List.head?_eq_some_iff.mp h
  have hhead : p.segments.head? = some s := by
    rw [← hbehind, hrest]
    rfl
  refine isSilent_head hlead (fun hnil => ?_) hhead
  have hempty : trimSilentEnd (List.splitOn slash []) = [] := by decide
  rw [segments, hnil, hempty] at h
  exact absurd h (by simp)

theorem components_of_slash {segments : List Bytes} (hs : ∀ s ∈ segments, slash ∉ s) :
    (Path.mk (slash :: (ofNames segments).bytes)).components =
      .root :: (segments.filter fun s => !isSilent s).map Component.ofSegment := by
  have hlead : (Path.mk (slash :: (ofNames segments).bytes)).lead = some .root := rfl
  have hsegments : (Path.mk (slash :: (ofNames segments).bytes)).segments =
      [] :: (ofNames segments).segments := by
    rw [Path.segments, List.splitOn_cons_eq_if_modifyHead]
    rfl
  rw [components_eq, hlead, loud, hsegments]
  cases segments with
  | nil => rfl
  | cons s rest =>
    rw [segments_ofNames_of_ne_nil hs (List.cons_ne_nil s rest)]
    rfl

theorem components_of_here {segments : List Bytes} (hs : ∀ s ∈ segments, slash ∉ s) :
    (ofNames ([dot] :: segments)).components =
      .here :: (segments.filter fun s => !isSilent s).map Component.ofSegment := by
  have hsegments : (ofNames ([dot] :: segments)).segments = [dot] :: segments := by
    refine segments_ofNames_of_ne_nil ?_ (List.cons_ne_nil _ _)
    intro s hmem
    rcases List.mem_cons.mp hmem with rfl | hmem
    · decide
    · exact hs s hmem
  have habs : (ofNames ([dot] :: segments)).isAbsolute = false := by
    rw [Bool.eq_false_iff]
    intro h
    obtain ⟨rest, hrest⟩ := segments_of_isAbsolute h
    rw [hsegments] at hrest
    exact absurd (List.cons.inj hrest).1 (by decide)
  have hlead : (ofNames ([dot] :: segments)).lead = some .here := by
    rw [lead, habs, if_neg Bool.false_ne_true, hsegments]
    rfl
  rw [components_eq, hlead, loud, hsegments]
  rfl

/-- The segments behind those that the first `n` components stand for, without silent ones at
the two ends. -/
def remaining (n : Nat) (segments : List Bytes) : List Bytes :=
  trimSilentEnd ((dropNames n segments).dropWhile isSilent)

theorem mem_of_mem_remaining {n : Nat} {segments : List Bytes} {s : Bytes}
    (h : s ∈ remaining n segments) : s ∈ segments :=
  (isSuffix_dropNames n segments).subset
    ((List.dropWhile_suffix _).subset ((isPrefix_trimSilentEnd _).subset h))

theorem components_remaining (n : Nat) {segments : List Bytes} (hs : ∀ s ∈ segments, slash ∉ s) :
    (ofNames (remaining n segments)).components =
      ((segments.filter fun s => !isSilent s).drop n).map Component.ofSegment := by
  have hprefix : remaining n segments <+: (dropNames n segments).dropWhile isSilent :=
    isPrefix_trimSilentEnd _
  have hhead : ∀ s, (remaining n segments).head? = some s → isSilent s = false := by
    intro s h
    obtain ⟨rest, hrest⟩ := List.head?_eq_some_iff.mp h
    obtain ⟨behind, hbehind⟩ := hprefix
    have hfirst := List.head?_dropWhile_not isSilent (dropNames n segments)
    rw [← hbehind, hrest] at hfirst
    simpa using hfirst
  rw [components_ofNames (fun s h => hs s (mem_of_mem_remaining h)) hhead, remaining,
    filter_trimSilentEnd, filter_dropWhile_isSilent, filter_dropNames]

theorem drop_components (p : Path) (n : Nat) :
    p.components.drop (n + 1) = ((p.body.filter fun s => !isSilent s).drop
      (if p.lead.isSome then n else n + 1)).map Component.ofSegment := by
  -- The lead is a component in front of the body, and one fewer is dropped from the body then.
  rw [components, List.map_drop]
  cases p.lead <;> rfl

theorem lead_cases (p : Path) : p.lead = some .root ∨ p.lead = some .here ∨ p.lead = none := by
  rw [lead]
  by_cases habs : p.isAbsolute = true
  · exact Or.inl (if_pos habs)
  · rw [if_neg habs]
    by_cases hdot : p.segments.head? = some [dot]
    · exact Or.inr (Or.inl (if_pos hdot))
    · exact Or.inr (Or.inr (if_neg hdot))

theorem rest?_cases {p q r : Path} (h : p.rest? q = some r) :
    (q.components = [] ∧
      (p.lead = some .root ∧ r = ⟨slash :: (ofNames (trimSilentEnd p.body)).bytes⟩ ∨
        p.lead = some .here ∧ r = ofNames ([dot] :: trimSilentEnd p.body) ∨
        p.lead = none ∧ r = ofNames (trimSilentEnd p.body))) ∨
    ∃ n, q.components.length = n + 1 ∧
      r = ofNames (remaining (if p.lead.isSome then n else n + 1) p.body) := by
  have hstarts : p.startsWith q = true := by
    rw [← rest?_isSome, h]
    rfl
  rw [rest?, if_pos hstarts] at h
  cases hn : q.components.length with
  | zero =>
    refine Or.inl ⟨List.length_eq_zero_iff.mp hn, ?_⟩
    rw [hn] at h
    rcases lead_cases p with hlead | hlead | hlead
    · rw [hlead] at h
      exact Or.inl ⟨hlead, (Option.some.inj h).symm⟩
    · rw [hlead] at h
      exact Or.inr (Or.inl ⟨hlead, (Option.some.inj h).symm⟩)
    · rw [hlead] at h
      exact Or.inr (Or.inr ⟨hlead, (Option.some.inj h).symm⟩)
  | succ n =>
    rw [hn] at h
    exact Or.inr ⟨n, rfl, (Option.some.inj h).symm⟩

/-- What is left of a path behind components that were cut off are its other components. -/
theorem components_rest? {p q r : Path} (h : p.rest? q = some r) :
    p.components = q.components ++ r.components := by
  have hbody : ∀ s ∈ p.body, slash ∉ s := fun s hs =>
    slash_not_mem_of_mem_segments (mem_segments_of_mem_body hs)
  have hslash : ∀ s ∈ trimSilentEnd p.body, slash ∉ s := fun s hs =>
    hbody s ((isPrefix_trimSilentEnd p.body).subset hs)
  have hstarts : p.startsWith q = true := by
    rw [← rest?_isSome, h]
    rfl
  rcases rest?_cases h with ⟨hq, ⟨hlead, rfl⟩ | ⟨hlead, rfl⟩ | ⟨hlead, rfl⟩⟩ | ⟨n, hn, rfl⟩
  · rw [hq, components_of_slash hslash, filter_trimSilentEnd, components, hlead]
    rfl
  · rw [hq, components_of_here hslash, filter_trimSilentEnd, components, hlead]
    rfl
  · have hsegments : p.body = p.segments := by
      rw [body, hlead]
      rfl
    have hhead : ∀ s, (trimSilentEnd p.body).head? = some s → isSilent s = false := by
      rw [hsegments]
      exact fun s => head?_trimSilentEnd hlead
    rw [hq, components_ofNames hslash hhead, filter_trimSilentEnd, components, hlead]
    rfl
  · -- Here the lead was cut off, and what is left has none to be mistaken for one.
    rw [components_remaining _ hbody, ← drop_components, ← hn]
    rw [startsWith_iff] at hstarts
    exact (List.prefix_iff_eq_append.mp hstarts).symm

/-- The bytes of what is left are bytes of the path, but for the slash and the dot
of a spelling. -/
theorem mem_bytes_rest? {p q r : Path} (h : p.rest? q = some r) {c : UInt8} (hc : c ∈ r.bytes) :
    c = slash ∨ c = dot ∨ c ∈ p.bytes := by
  have hjoined : ∀ segments : List Bytes, (∀ s ∈ segments, s = [dot] ∨ s ∈ p.body) →
      c ∈ Text.join [slash] segments → c = slash ∨ c = dot ∨ c ∈ p.bytes := by
    intro segments hsegments hmem
    rcases Text.mem_join hmem with hslash | ⟨s, hs, hmem⟩
    · exact Or.inl (List.mem_singleton.mp hslash)
    · rcases hsegments s hs with rfl | hs
      · exact Or.inr (Or.inl (List.mem_singleton.mp hmem))
      · exact Or.inr (Or.inr ((Text.mem_splitOn (mem_segments_of_mem_body hs)).1.subset hmem))
  have htrimmed : ∀ s ∈ trimSilentEnd p.body, s = [dot] ∨ s ∈ p.body := fun s hs =>
    Or.inr ((isPrefix_trimSilentEnd p.body).subset hs)
  rcases rest?_cases h with ⟨-, ⟨-, rfl⟩ | ⟨-, rfl⟩ | ⟨-, rfl⟩⟩ | ⟨n, -, rfl⟩
  · rcases List.mem_cons.mp hc with hslash | hc
    · exact Or.inl hslash
    · exact hjoined _ htrimmed hc
  · refine hjoined ([dot] :: trimSilentEnd p.body) (fun s hs => ?_) hc
    rcases List.mem_cons.mp hs with hdot | hs
    · exact Or.inl hdot
    · exact htrimmed s hs
  · exact hjoined _ htrimmed hc
  · exact hjoined _ (fun s hs => Or.inr (mem_of_mem_remaining hs)) hc

/-! ## What is reported -/

/-- A path below another one has the components of that one, and behind them those of what
is reported of it. -/
theorem components_relativeTo {p q : Path} (h : p.startsWith q = true) :
    p.components = q.components ++ (p.relativeTo q).components := by
  rw [← rest?_isSome, Option.isSome_iff_exists] at h
  obtain ⟨r, hr⟩ := h
  rw [components_rest? hr, relativeTo, hr, Option.getD_some]

/-- What is reported of paths below a base, and of absolute ones, tells their components apart: no
path has the root behind another component. -/
theorem components_eq_of_relativeTo_eq {p p' q : Path}
    (hp : p.startsWith q = true ∨ p.isAbsolute = true)
    (hp' : p'.startsWith q = true ∨ p'.isAbsolute = true) (h : p.relativeTo q = p'.relativeTo q) :
    p.components = p'.components := by
  have hself : ∀ r : Path, ¬ r.startsWith q = true → r.relativeTo q = r := by
    intro r hr
    rw [relativeTo, rest?, if_neg hr, Option.getD_none]
  have hmixed : ∀ r r' : Path, r.startsWith q = true → ¬ r'.startsWith q = true →
      r'.isAbsolute = true → r.relativeTo q ≠ r'.relativeTo q := by
    intro r r' hr hr' habs heq
    rw [hself r' hr'] at heq
    have hcomponents := heq ▸ components_relativeTo hr
    cases hq : q.components with
    | nil =>
      refine hr' (startsWith_iff.mpr ?_)
      rw [hq]
      exact List.nil_prefix
    | cons c rest =>
      rw [hq] at hcomponents
      exact root_not_mem_tail (p := r) (by
        rw [hcomponents, List.cons_append, List.tail_cons]
        exact List.mem_append_right _ (root_mem_components_iff.mpr habs))
  by_cases hs : p.startsWith q = true
  · by_cases hs' : p'.startsWith q = true
    · rw [components_relativeTo hs, h, ← components_relativeTo hs']
    · exact absurd h (hmixed p p' hs hs' (hp'.resolve_left hs'))
  · by_cases hs' : p'.startsWith q = true
    · exact absurd h.symm (hmixed p' p hs' hs (hp.resolve_left hs))
    · rw [hself p hs, hself p' hs'] at h
      rw [h]

/-- A path that goes on behind the segments of another one is reported with what stands behind
them. -/
theorem relativeTo_of_segments {p q : Path} {front behind : List Bytes}
    (hp : p.segments = front ++ behind) (hne : front ≠ []) (hlead : p.lead = q.lead)
    (hfront : (front.filter fun s => !isSilent s) = q.loud) (hq : q.components ≠ []) :
    p.relativeTo q = ofNames (trimSilentEnd (behind.dropWhile isSilent)) := by
  have hloud : p.loud = q.loud ++ behind.filter fun s => !isSilent s := by
    rw [loud, hp, List.filter_append, hfront]
  have hstarts : p.startsWith q = true := by
    rw [startsWith_iff, components_eq, components_eq, hlead, hloud, List.map_append,
      ← List.append_assoc]
    exact List.prefix_append _ _
  rw [← rest?_isSome, Option.isSome_iff_exists] at hstarts
  obtain ⟨r, hr⟩ := hstarts
  rw [relativeTo, hr, Option.getD_some]
  rcases rest?_cases hr with ⟨hnil, -⟩ | ⟨n, hn, rfl⟩
  · exact absurd hnil hq
  obtain ⟨first, front, rfl⟩ := List.exists_cons_of_ne_nil hne
  rw [components_eq, List.length_append, List.length_map, ← hfront] at hn
  rw [remaining, body, hlead, hp]
  by_cases hsome : q.lead.isSome = true
  · -- The first segment is the lead, and the others are the body.
    obtain ⟨s, rest, hsegments, hs⟩ := segments_of_lead (hlead ▸ hsome)
    obtain rfl : first = s := (List.cons.inj (hp.symm.trans hsegments)).1
    obtain ⟨c, hc⟩ := Option.isSome_iff_exists.mp hsome
    rw [hc, List.filter_cons_of_neg (by simp [hs]), Nat.add_comm] at hn
    obtain rfl : (front.filter fun s => !isSilent s).length = n := Nat.succ.inj hn
    rw [if_pos hsome, if_pos hsome, List.cons_append, List.tail_cons, dropWhile_dropNames_append]
  · rw [Option.not_isSome_iff_eq_none.mp hsome] at hn
    rw [if_neg hsome, if_neg hsome, ← hn, Option.toList_none, List.length_nil, Nat.zero_add,
      dropWhile_dropNames_append]

/-- Seen from the working directory, a file is what is spelled behind silent segments. -/
theorem relativeTo_here {p : Path} {front : List Bytes} {last : Bytes} (hp : p.bytes ≠ [])
    (habs : p.isAbsolute = false) (hsegments : p.segments = front ++ [last])
    (hlast : isSilent last = false) :
    p.relativeTo "." = .ofNames (trimSilentEnd (p.segments.dropWhile isSilent)) := by
  rcases lead_cases p with hlead | hlead | hlead
  · rw [lead, habs, if_neg Bool.false_ne_true] at hlead
    split at hlead <;> exact absurd hlead (by simp)
  · obtain ⟨s, rest, hcons, hs⟩ := segments_of_lead (hlead ▸ rfl : p.lead.isSome = true)
    have hdot : ([s].filter fun s => !isSilent s) = loud "." := by simp [hs]; rfl
    have hone : p.segments = [s] ++ rest := hcons
    have hsame : p.lead = lead "." := hlead.trans (by decide)
    rw [relativeTo_of_segments hone (List.cons_ne_nil s []) hsame hdot (by decide), hcons,
      List.dropWhile_cons_of_pos hs]
  · have hself : p.relativeTo "." = p := by
      rw [relativeTo, rest?, if_neg, Option.getD_none]
      intro hstarts
      have hmem : .here ∈ p.components :=
        (startsWith_iff.mp hstarts).subset (by decide)
      rw [lead_of_mem_components hmem] at hlead
      exact absurd hlead (by simp)
    obtain ⟨first, rest, hcons⟩ := List.exists_cons_of_ne_nil p.segments_ne_nil
    have hfirst : isSilent first = false := isSilent_head hlead hp (by rw [hcons]; rfl)
    have hdrop : p.segments.dropWhile isSilent = p.segments := by
      rw [hcons, List.dropWhile_cons_of_neg (by simp [hfirst])]
    have htrim : trimSilentEnd p.segments = p.segments := by
      simp [trimSilentEnd, hsegments, hlast]
    have hspelling : Text.join [slash] p.segments = p.bytes := List.intercalate_splitOn slash
    rw [hself, hdrop, htrim, ofNames, hspelling]

theorem mem_bytes_relativeTo {p q : Path} {c : UInt8} (h : c ∈ (p.relativeTo q).bytes) :
    c = slash ∨ c = dot ∨ c ∈ p.bytes := by
  rw [relativeTo] at h
  cases hr : p.rest? q with
  | none =>
    rw [hr] at h
    exact Or.inr (Or.inr h)
  | some r =>
    rw [hr] at h
    exact mem_bytes_rest? hr h

end Path
end ModuleBoundary
