/-
The components of a path that is put together from others.

`Path.join` works on spellings, and everything that is decided about a path looks
at its components, so the two have to be brought together once.  The theorem this
file exists for is `components_join`: below a path that is not empty, joining adds
the components of the second path, where a leading `.` of it falls silent.  A path
whose segments are names of entries adds exactly these names, and then spelling the
path name by name (`spell_join_ofNames`) gives the same bytes.
-/
import ModuleBoundary.Tree.Lookup

namespace ModuleBoundary
namespace Path

def loud (p : Path) : List Bytes := p.segments.filter fun s => !isSilent s

/-- The segments in front of those that joining adds: a slash at the end of the path
opens no segment of its own then. -/
def stem (p : Path) : List Bytes :=
  if p.bytes.getLast? = some slash then p.segments.dropLast else p.segments

theorem segments_ne_nil (p : Path) : p.segments ≠ [] := List.splitOn_ne_nil _ _

theorem eq_of_segments {p q : Path} (h : p.segments = q.segments) : p = q := by
  have hspelling : ∀ r : Path, List.intercalate [slash] r.segments = r.bytes :=
    fun r => List.intercalate_splitOn slash
  obtain ⟨bytes⟩ := p
  obtain ⟨bytes'⟩ := q
  exact congrArg Path.mk ((hspelling ⟨bytes⟩).symm.trans (h ▸ hspelling ⟨bytes'⟩))

theorem segments_of_isAbsolute {p : Path} (h : p.isAbsolute = true) :
    ∃ rest, p.segments = [] :: rest := by
  obtain ⟨bytes⟩ := p
  cases bytes with
  | nil => simp [isAbsolute] at h
  | cons c s =>
    have hc : c = slash := by simpa [isAbsolute] using h
    exact ⟨s.splitOn slash, by rw [segments, List.splitOn_cons_eq_if_modifyHead, hc]; rfl⟩

theorem ne_nil_of_not_silent {s : Bytes} (h : isSilent s = false) : s ≠ [] := by
  rintro rfl
  exact absurd h (by decide)

theorem isAbsolute_of_not_mem {s : Bytes} (h : slash ∉ s) : (Path.mk s).isAbsolute = false := by
  rw [isAbsolute, beq_eq_false_iff_ne]
  intro hhead
  exact h (List.mem_of_mem_head? hhead)

theorem segments_of_not_mem {s : Bytes} (h : slash ∉ s) : (Path.mk s).segments = [s] :=
  List.splitOn_eq_singleton h

theorem isAbsolute_of_lead {p : Path} (h : p.lead = none) : p.isAbsolute = false := by
  rw [Bool.eq_false_iff]
  intro habs
  rw [lead, if_pos habs] at h
  exact nomatch h

/-- The segment that a lead stands for is silent. -/
theorem segments_of_lead {p : Path} (h : p.lead.isSome = true) :
    ∃ s rest, p.segments = s :: rest ∧ isSilent s = true := by
  by_cases habs : p.isAbsolute = true
  · obtain ⟨rest, hrest⟩ := segments_of_isAbsolute habs
    exact ⟨[], rest, hrest, rfl⟩
  · have hdot : p.segments.head? = some [dot] := by
      by_cases hd : p.segments.head? = some [dot]
      · exact hd
      · simp [lead, habs, hd] at h
    obtain ⟨rest, hrest⟩ := List.head?_eq_some_iff.mp hdot
    exact ⟨[dot], rest, hrest, rfl⟩

/-- So the components behind the lead are the loud segments. -/
theorem components_eq (p : Path) :
    p.components = p.lead.toList ++ p.loud.map Component.ofSegment := by
  have hbody : (p.body.filter fun s => !isSilent s) = p.loud := by
    rw [body, loud]
    split
    · next h =>
      obtain ⟨s, rest, hseg, hs⟩ := segments_of_lead h
      rw [hseg, List.tail_cons, List.filter_cons_of_neg (by simp [hs])]
    · rfl
  rw [components, hbody]

theorem root_not_mem_map_ofSegment (segments : List Bytes) :
    .root ∉ segments.map Component.ofSegment := by
  intro h
  obtain ⟨s, -, hs⟩ := List.mem_map.mp h
  rw [Component.ofSegment] at hs
  split at hs <;> exact nomatch hs

theorem root_mem_components_iff {p : Path} : .root ∈ p.components ↔ p.isAbsolute = true := by
  rw [components_eq, List.mem_append, or_iff_left (root_not_mem_map_ofSegment _),
    Option.mem_toList, lead]
  cases p.isAbsolute with
  | true => simp
  | false => simp

theorem root_not_mem_tail {p : Path} : .root ∉ p.components.tail := by
  rw [components_eq]
  cases p.lead with
  | none => exact fun h => root_not_mem_map_ofSegment _ (List.mem_of_mem_tail h)
  | some c => exact root_not_mem_map_ofSegment _

theorem lead_of_mem_components {p : Path} (h : .here ∈ p.components) : p.lead = some .here := by
  rw [components_eq, List.mem_append, Option.mem_toList] at h
  refine h.resolve_right fun hmem => ?_
  obtain ⟨s, -, hs⟩ := List.mem_map.mp hmem
  rw [Component.ofSegment] at hs
  split at hs <;> exact nomatch hs

theorem loud_of_here {p : Path} (h : p.components = [.here]) : p.loud = [] := by
  have hlead : p.lead = some .here := lead_of_mem_components (h ▸ List.mem_singleton_self _)
  rw [components_eq, hlead] at h
  exact List.map_eq_nil_iff.mp (List.cons.inj h).2

/-! ## Joining -/

theorem segments_of_slash {front : Bytes} :
    (Path.mk (front ++ [slash])).segments = front.splitOn slash ++ [[]] := by
  rw [segments, List.splitOn_append_cons_self, List.splitOn_nil]

theorem stem_of_slash {front : Bytes} :
    (Path.mk (front ++ [slash])).stem = front.splitOn slash := by
  rw [stem, if_pos List.getLast?_concat, segments_of_slash, List.dropLast_concat]

/-- A path is its stem, or has an empty segment behind it. -/
theorem stem_cases (p : Path) :
    p.stem ≠ [] ∧ (p.segments = p.stem ∨ p.segments = p.stem ++ [[]]) := by
  by_cases h : p.bytes.getLast? = some slash
  · obtain ⟨front, hfront⟩ := List.getLast?_eq_some_iff.mp h
    obtain ⟨bytes⟩ := p
    obtain rfl : bytes = front ++ [slash] := hfront
    rw [stem_of_slash]
    exact ⟨List.splitOn_ne_nil _ _, Or.inr segments_of_slash⟩
  · have hstem : p.stem = p.segments := if_neg h
    rw [hstem]
    exact ⟨segments_ne_nil p, Or.inl rfl⟩

theorem head?_segments (p : Path) : p.segments.head? = p.stem.head? := by
  obtain ⟨s, rest, hstem⟩ := List.exists_cons_of_ne_nil (stem_cases p).1
  rcases (stem_cases p).2 with h | h <;> simp [h, hstem]

theorem filter_stem (p : Path) : p.stem.filter (fun s => !isSilent s) = p.loud := by
  rcases (stem_cases p).2 with h | h
  · rw [loud, h]
  · rw [loud, h, List.filter_append]
    simp [isSilent]

theorem bytes_join {p q : Path} (hp : p.bytes ≠ []) (hq : q.isAbsolute = false) :
    (p.join q).bytes = if p.bytes.getLast? = some slash then p.bytes ++ q.bytes
      else p.bytes ++ slash :: q.bytes := by
  have hnil : p.bytes.isEmpty = false := by simpa using hp
  rw [join, hq, hnil]
  simp only [Bool.or_self, Bool.false_eq_true, if_false]
  split <;> rfl

/-- Joining puts one slash behind the stem. -/
theorem exists_bytes_join {p q : Path} (hp : p.bytes ≠ []) (hq : q.isAbsolute = false) :
    ∃ front, front <+: p.bytes ∧ front.splitOn slash = p.stem ∧
      (p.join q).bytes = front ++ slash :: q.bytes := by
  rw [bytes_join hp hq]
  split
  · next h =>
    obtain ⟨front, hfront⟩ := List.getLast?_eq_some_iff.mp h
    obtain ⟨bytes⟩ := p
    obtain rfl : bytes = front ++ [slash] := hfront
    exact ⟨front, List.prefix_append _ _, stem_of_slash.symm, List.append_assoc _ _ _⟩
  · next h => exact ⟨p.bytes, List.prefix_rfl, (if_neg h).symm, rfl⟩

theorem bytes_join_ne_nil {p q : Path} (hp : p.bytes ≠ []) (hq : q.isAbsolute = false) :
    (p.join q).bytes ≠ [] := by
  rw [bytes_join hp hq]
  split <;> simp [hp]

theorem segments_join {p q : Path} (hp : p.bytes ≠ []) (hq : q.isAbsolute = false) :
    (p.join q).segments = p.stem ++ q.segments := by
  obtain ⟨front, -, hfront, hbytes⟩ := exists_bytes_join hp hq
  rw [segments, hbytes, List.splitOn_append_cons_self, hfront, segments]

/-- A segment that is joined is the last one, and whatever is joined next comes behind it. -/
theorem stem_join_segment {p : Path} {s : Bytes} (hp : p.bytes ≠ []) (hs : s ≠ [])
    (hslash : slash ∉ s) : (p.join ⟨s⟩).stem = p.stem ++ [s] := by
  have habs : (Path.mk s).isAbsolute = false := isAbsolute_of_not_mem hslash
  have hsegments := segments_join hp habs
  rw [segments_of_not_mem hslash] at hsegments
  rcases (stem_cases (p.join ⟨s⟩)).2 with h | h
  · rw [← h, hsegments]
  · rw [hsegments] at h
    exact absurd (List.append_inj_right' h rfl) (by simpa using hs)

theorem loud_join {p q : Path} (hp : p.bytes ≠ []) (hq : q.isAbsolute = false) :
    (p.join q).loud = p.loud ++ q.loud := by
  rw [loud, segments_join hp hq, List.filter_append, filter_stem, ← loud]

theorem isAbsolute_join {p q : Path} (hp : p.bytes ≠ []) (hq : q.isAbsolute = false) :
    (p.join q).isAbsolute = p.isAbsolute := by
  obtain ⟨c, rest, hbytes⟩ := List.exists_cons_of_ne_nil hp
  rw [isAbsolute, isAbsolute, bytes_join hp hq]
  split <;> simp [hbytes]

theorem lead_join {p q : Path} (hp : p.bytes ≠ []) (hq : q.isAbsolute = false) :
    (p.join q).lead = p.lead := by
  obtain ⟨s, rest, hstem⟩ := List.exists_cons_of_ne_nil (stem_cases p).1
  have hhead : (p.join q).segments.head? = p.segments.head? := by
    rw [segments_join hp hq, head?_segments, hstem]
    rfl
  rw [lead, lead, isAbsolute_join hp hq, hhead]

/-- Joining adds the loud segments of the second path, whatever its lead. -/
theorem components_join {p q : Path} (hp : p.bytes ≠ []) (hq : q.isAbsolute = false) :
    (p.join q).components = p.components ++ q.loud.map Component.ofSegment := by
  rw [components_eq, components_eq, lead_join hp hq, loud_join hp hq, List.map_append,
    List.append_assoc]

/-! ## Names -/

theorem isAbsolute_ofName {n : Bytes} (hn : IsEntryName n) : (Path.mk n).isAbsolute = false :=
  isAbsolute_of_not_mem hn.2.2.2

theorem segments_ofName {n : Bytes} (hn : IsEntryName n) : (Path.mk n).segments = [n] :=
  segments_of_not_mem hn.2.2.2

theorem isSilent_eq_false {n : Bytes} (hn : IsEntryName n) : isSilent n = false := by
  simp [isSilent, hn.1, hn.2.1]

theorem ofSegment_name {n : Bytes} (hn : IsEntryName n) : Component.ofSegment n = .name n :=
  if_neg hn.2.2.1

theorem components_join_name {p : Path} {n : Bytes} (hp : p.bytes ≠ []) (hn : IsEntryName n) :
    (p.join ⟨n⟩).components = p.components ++ [.name n] := by
  rw [components_join hp (isAbsolute_ofName hn), loud, segments_ofName hn]
  simp [isSilent_eq_false hn, ofSegment_name hn]

/-- A path spelled from a root has the components of the root, and behind them the
names of the location. -/
theorem components_spell {root : Path} {below : Location} (hr : root.bytes ≠ [])
    (hb : ∀ n ∈ below, IsEntryName n) :
    (Tree.spell root below).components = root.components ++ below.map .name := by
  induction below generalizing root with
  | nil => simp [Tree.spell]
  | cons n below ih =>
    have hn := hb n List.mem_cons_self
    have hrest := ih (bytes_join_ne_nil hr (isAbsolute_ofName hn))
      fun m hm => hb m (List.mem_cons_of_mem n hm)
    rw [Tree.spell, List.foldl_cons, ← Tree.spell, hrest, components_join_name hr hn]
    simp

theorem fileName?_spell {root : Path} {below : Location} (hr : root.bytes ≠ [])
    (hb : ∀ n ∈ below, IsEntryName n) (hnil : below ≠ []) :
    (Tree.spell root below).fileName? = below.getLast? := by
  have hsome : below.getLast?.isSome = true := by simpa using hnil
  obtain ⟨n, hn⟩ := Option.isSome_iff_exists.mp hsome
  rw [fileName?, components_spell hr hb, List.getLast?_append, List.getLast?_map, hn]
  rfl

/-! ## Plain paths -/

/-- A relative path of names with single slashes between them. -/
def IsPlain (p : Path) : Prop := ∃ names, (∀ n ∈ names, IsEntryName n) ∧ p = ofNames names

theorem segments_ofNames {names : List Bytes} (hn : ∀ n ∈ names, IsEntryName n)
    (hnil : names ≠ []) : (ofNames names).segments = names :=
  List.splitOn_intercalate slash (fun n hmem => (hn n hmem).2.2.2) hnil

theorem loud_ofNames {names : List Bytes} (hn : ∀ n ∈ names, IsEntryName n) :
    (ofNames names).loud = names := by
  by_cases hnil : names = []
  · rw [hnil]; rfl
  · rw [loud, segments_ofNames hn hnil]
    exact List.filter_eq_self.mpr fun n hmem => by simp [isSilent_eq_false (hn n hmem)]

theorem lead_ofNames {names : List Bytes} (hn : ∀ n ∈ names, IsEntryName n) :
    (ofNames names).isAbsolute = false ∧ (ofNames names).lead = none := by
  cases names with
  | nil => exact ⟨rfl, rfl⟩
  | cons n rest =>
    have hname := hn n List.mem_cons_self
    have hseg := segments_ofNames hn (List.cons_ne_nil n rest)
    have habs : (ofNames (n :: rest)).isAbsolute = false := by
      rw [Bool.eq_false_iff]
      intro h
      obtain ⟨tail, htail⟩ := segments_of_isAbsolute h
      rw [hseg] at htail
      exact hname.1 (List.cons.inj htail).1
    refine ⟨habs, ?_⟩
    have hhead : (ofNames (n :: rest)).segments.head? ≠ some [dot] := by
      rw [hseg]
      simpa using hname.2.1
    simp only [lead, habs, hhead, if_false, Bool.false_eq_true]

theorem map_loud_ofNames {names : List Bytes} (hn : ∀ n ∈ names, IsEntryName n) :
    (ofNames names).loud.map Component.ofSegment = names.map .name := by
  rw [loud_ofNames hn]
  exact List.map_congr_left fun n hmem => ofSegment_name (hn n hmem)

theorem components_ofEntryNames {names : List Bytes} (hn : ∀ n ∈ names, IsEntryName n) :
    (ofNames names).components = names.map .name := by
  rw [components_eq, (lead_ofNames hn).2, map_loud_ofNames hn]
  rfl

theorem components_join_ofNames (p : Path) {names : List Bytes} (hn : ∀ n ∈ names, IsEntryName n) :
    (p.join (ofNames names)).components = p.components ++ names.map .name := by
  by_cases hp : p.bytes = []
  · obtain ⟨bytes⟩ := p
    obtain rfl : bytes = [] := hp
    have hjoin : (Path.mk []).join (ofNames names) = ofNames names := by simp [join]
    rw [hjoin, components_ofEntryNames hn]
    rfl
  · rw [components_join hp (lead_ofNames hn).1, map_loud_ofNames hn]

theorem bytes_ofNames_ne_nil {names : List Bytes} (hn : ∀ n ∈ names, IsEntryName n)
    (hnil : names ≠ []) : (ofNames names).bytes ≠ [] := by
  intro h
  have hone : names = [[]] := by
    rw [← segments_ofNames hn hnil, segments, h]
    rfl
  exact (hn [] (by simp [hone])).1 rfl

theorem getLast?_ofNames {names : List Bytes} (hn : ∀ n ∈ names, IsEntryName n) :
    (ofNames names).bytes.getLast? ≠ some slash := by
  intro h
  obtain ⟨front, hfront⟩ := List.getLast?_eq_some_iff.mp h
  have hnil : names ≠ [] := by
    rintro rfl
    exact absurd h (by simp [ofNames, Text.join])
  -- The segment behind the last slash would be a name, and it is empty.
  have hsegments : names = front.splitOn slash ++ [[]] := by
    rw [← segments_ofNames hn hnil, ← segments_of_slash, ← hfront]
  exact (hn [] (by simp [hsegments])).1 rfl

theorem stem_ofNames {names : List Bytes} (hn : ∀ n ∈ names, IsEntryName n) (hnil : names ≠ []) :
    (ofNames names).stem = names := by
  rw [stem, if_neg (getLast?_ofNames hn), segments_ofNames hn hnil]

/-- Whatever names come next, they come behind those of a plain path that was joined. -/
theorem stem_join_ofNames {p : Path} {names : List Bytes} (hp : p.bytes ≠ [])
    (hn : ∀ n ∈ names, IsEntryName n) : (p.join (ofNames names)).stem = p.stem ++ names := by
  have habs := (lead_ofNames hn).1
  have hsegments := segments_join hp habs
  by_cases hnil : names = []
  · -- An empty path only adds the slash that the stem leaves out.
    subst hnil
    have hlast : (p.join (ofNames [])).bytes.getLast? = some slash := by
      rw [bytes_join hp habs]
      split
      · next h => simpa [ofNames, Text.join] using h
      · simp [ofNames, Text.join]
    have hempty : (ofNames []).segments = [[]] := rfl
    rw [stem, if_pos hlast, hsegments, hempty, List.dropLast_concat, List.append_nil]
  · have hlast : (p.join (ofNames names)).bytes.getLast? ≠ some slash := by
      have hne := bytes_ofNames_ne_nil hn hnil
      have hend : (p.join (ofNames names)).bytes.getLast? = (ofNames names).bytes.getLast? := by
        have hsome : (ofNames names).bytes.getLast?.isSome = true := by simpa using hne
        rw [bytes_join hp habs]
        split
        · rw [List.getLast?_append, Option.or_of_isSome hsome]
        · rw [List.append_cons, List.getLast?_append, Option.or_of_isSome hsome]
      rw [hend]
      exact getLast?_ofNames hn
    rw [stem, if_neg hlast, hsegments, segments_ofNames hn hnil]

/-- One more name goes behind the names of a plain path. -/
theorem join_ofNames_join (p : Path) {names : List Bytes} {n : Bytes}
    (hn : ∀ m ∈ names ++ [n], IsEntryName m) :
    (p.join (ofNames names)).join ⟨n⟩ = p.join (ofNames (names ++ [n])) := by
  have hnames : ∀ m ∈ names, IsEntryName m := fun m hm => hn m (List.mem_append_left [n] hm)
  have hname := hn n (by simp)
  have hlonger : names ++ [n] ≠ [] := by simp
  apply eq_of_segments
  by_cases hp : p.bytes = []
  · have hjoin : ∀ q : Path, p.join q = q := fun q => by simp [join, hp]
    rw [hjoin, hjoin, segments_ofNames hn hlonger]
    by_cases hnil : names = []
    · subst hnil
      have hempty : (ofNames []).join ⟨n⟩ = ⟨n⟩ := by simp [join, ofNames, Text.join]
      rw [hempty, segments_ofName hname, List.nil_append]
    · have hne : (ofNames names).bytes ≠ [] := bytes_ofNames_ne_nil hnames hnil
      rw [segments_join hne (isAbsolute_ofName hname), stem_ofNames hnames hnil,
        segments_ofName hname]
  · have hne := bytes_join_ne_nil hp (lead_ofNames hnames).1
    rw [segments_join hne (isAbsolute_ofName hname), stem_join_ofNames hp hnames,
      segments_ofName hname, segments_join hp (lead_ofNames hn).1, segments_ofNames hn hlonger,
      List.append_assoc]

/-- Spelling from a plain root is joining one longer plain path. -/
theorem spell_join_ofNames (p : Path) {names below : List Bytes}
    (hn : ∀ n ∈ names ++ below, IsEntryName n) :
    Tree.spell (p.join (ofNames names)) below = p.join (ofNames (names ++ below)) := by
  induction below generalizing names with
  | nil => simp [Tree.spell]
  | cons n below ih =>
    have hfirst : ∀ m ∈ names ++ [n], IsEntryName m := fun m hm => hn m (by
      rw [List.append_cons]
      exact List.mem_append_left below hm)
    rw [List.append_cons] at hn ⊢
    rw [Tree.spell, List.foldl_cons, ← Tree.spell, join_ofNames_join p hfirst, ih hn]

end Path
end ModuleBoundary
