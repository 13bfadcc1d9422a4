/-
Where the paths of a walk lead.

A walk spells every file from its root, and what is done with the file later starts
from that spelling again: it is resolved anew, and read.  `resolve_spell` says that
each path of a walk leads back to the file that it was spelled for, whatever the
spelling of the root.  It goes segment by segment: every directory around an entry is
an entry (`at?_of_append`), and a slash that ends the root adds no step of its own
(`resolve_join`).  For a root that is plain more is known: the names of the root are
the end of the location that it leads to (`resolve_join_ofNames`).
-/
import ModuleBoundary.Proofs.Outcome
import ModuleBoundary.Proofs.Path.Joining
import ModuleBoundary.Proofs.Text.Parts

namespace ModuleBoundary
namespace Tree

variable {t : Tree}

/-! ## Entries -/

theorem isEntryName_of_at? {l : Location} {e : Entry} (h : t.at? l = some e) :
    ∀ n ∈ l, IsEntryName n := by
  by_cases hl : l = []
  · simp [hl]
  · exact t.valid.names _ ((at?_eq_some_iff hl).mp h)

theorem at?_parent {l : Location} {n : Bytes} {e : Entry} (h : t.at? (l ++ [n]) = some e) :
    t.at? l = some .dir := by
  have hmem : (l ++ [n], e) ∈ t.entries := (at?_eq_some_iff (by simp)).mp h
  have hparent := t.valid.parent _ hmem
  rw [List.dropLast_concat] at hparent
  by_cases hl : l = []
  · rw [hl, at?_nil]
  · exact (at?_eq_some_iff hl).mpr (hparent.resolve_left hl)

/-- All directories around an entry are entries. -/
theorem at?_of_append {l m : Location} {e : Entry} (h : t.at? (l ++ m) = some e) (hm : m ≠ []) :
    t.at? l = some .dir := by
  induction m generalizing l with
  | nil => exact absurd rfl hm
  | cons n m ih =>
    by_cases hnil : m = []
    · rw [hnil] at h
      exact at?_parent h
    · rw [List.append_cons] at h
      exact at?_parent (ih h hnil)

theorem mem_filesBelow {l m : Location} :
    m ∈ t.filesBelow l ↔ ∃ bytes, t.at? (l ++ m) = some (.file bytes) := by
  rw [filesBelow, List.mem_filterMap]
  constructor
  · rintro ⟨⟨k, e⟩, hmem, hk⟩
    cases e with
    | dir => simp at hk
    | file bytes =>
      simp only [Option.ite_none_right_eq_some, List.isPrefixOf_iff_prefix, Option.some.injEq] at hk
      obtain ⟨⟨m', rfl⟩, rfl⟩ := hk
      rw [List.drop_left]
      exact ⟨bytes, (at?_eq_some_iff (t.valid.notRoot _ hmem)).mpr hmem⟩
  · rintro ⟨bytes, hat⟩
    have hne : l ++ m ≠ [] := by
      intro hnil
      rw [hnil, at?_nil] at hat
      exact absurd hat (by simp)
    refine ⟨(l ++ m, .file bytes), (at?_eq_some_iff hne).mp hat, ?_⟩
    simp

theorem nodup_filesBelow (t : Tree) (l : Location) : (t.filesBelow l).Nodup := by
  have hkeys : t.entries.Pairwise fun a b => a.1 ≠ b.1 := List.pairwise_map.mp t.valid.nodup
  refine List.Pairwise.filterMap _ ?_ hkeys
  rintro ⟨k, e⟩ ⟨k', e'⟩ hne m hm m' hm' rfl
  cases e with
  | dir => simp at hm
  | file bytes =>
    cases e' with
    | dir => simp at hm'
    | file bytes' =>
      simp only [Option.ite_none_right_eq_some, List.isPrefixOf_iff_prefix, Option.some.injEq]
        at hm hm'
      obtain ⟨⟨r, rfl⟩, rfl⟩ := hm
      obtain ⟨⟨r', rfl⟩, h⟩ := hm'
      simp only [List.drop_left] at h
      exact hne (by rw [h])

/-! ## Resolving -/

/-- A silent segment in front of another one changes nothing: both need a directory. -/
theorem enter_silent {s r : Bytes} (hs : Path.isSilent s = true) (l : Location) :
    (t.enter l s >>= fun k => t.enter k r) = t.enter l r := by
  cases hat : t.at? l with
  | none => simp [enter, hat, bind, Except.bind]
  | some e => cases e <;> simp [enter, hat, hs, bind, Except.bind]

/-- A segment is entered from a directory. -/
theorem isDir_of_enter {l l' : Location} {s : Bytes} (h : t.enter l s = .ok l') :
    t.at? l = some .dir := by
  cases hat : t.at? l with
  | none => simp [enter, hat] at h
  | some e =>
    cases e with
    | file bytes => simp [enter, hat] at h
    | dir => rfl

theorem eq_of_enter_silent {s : Bytes} (hs : Path.isSilent s = true) {l l' : Location}
    (h : t.enter l s = .ok l') : l' = l := by
  simpa [enter, isDir_of_enter h, hs] using h.symm

/-- A segment leads to an entry or to the root. -/
theorem isSome_of_enter {l l' : Location} {s : Bytes} (h : t.enter l s = .ok l') :
    (t.at? l').isSome = true := by
  have hat := isDir_of_enter h
  simp only [enter, hat] at h
  split at h
  · rw [← Except.ok.inj h, hat]
    rfl
  split at h
  · rw [← Except.ok.inj h]
    by_cases hl : l = []
    · rw [hl]
      rfl
    · have hparent : t.at? (l.dropLast ++ [l.getLast hl]) = some .dir := by
        rw [List.dropLast_concat_getLast hl, hat]
      rw [at?_parent hparent]
      rfl
  split at h
  · next hentry =>
    rw [← Except.ok.inj h]
    exact hentry
  · exact nomatch h

theorem foldlM_enter_silent {l : Location} {segments : List Bytes} (hl : t.at? l = some .dir)
    (h : ∀ s ∈ segments, Path.isSilent s = true) : segments.foldlM t.enter l = .ok l := by
  induction segments with
  | nil => rfl
  | cons s rest ih =>
    have hs : t.enter l s = .ok l := by
      simp [enter, hl, h s List.mem_cons_self]
    rw [List.foldlM_cons, hs]
    exact ih fun r hr => h r (List.mem_cons_of_mem s hr)

/-- A path without names leads to the working directory. -/
theorem resolve_of_here {p : Path} (hp : p.components = [.here]) (hhere : t.at? t.here = some .dir) :
    t.resolve p = .ok t.here := by
  have hlead : p.lead = some .here := Path.lead_of_mem_components (hp ▸ List.mem_singleton_self _)
  have hne : p.bytes ≠ [] := by
    intro hnil
    simp [Path.lead, Path.isAbsolute, Path.segments, hnil] at hlead
  have habs : p.isAbsolute = false := by
    rw [Bool.eq_false_iff]
    intro habs
    rw [Path.lead, if_pos habs] at hlead
    exact absurd hlead (by simp)
  rw [resolve, if_neg hne, habs]
  exact foldlM_enter_silent hhere fun s hs => by
    simpa using List.filter_eq_nil_iff.mp (Path.loud_of_here hp) s hs

/-- A joined path is followed from where its first part leads. -/
theorem resolve_join {p q : Path} (hp : p.bytes ≠ []) (hq : q.isAbsolute = false) :
    t.resolve (p.join q) = t.resolve p >>= fun l => q.segments.foldlM t.enter l := by
  obtain ⟨s, rest, hseg⟩ := List.exists_cons_of_ne_nil q.segments_ne_nil
  rw [resolve, resolve, if_neg hp, if_neg (Path.bytes_join_ne_nil hp hq),
    Path.isAbsolute_join hp hq, Path.segments_join hp hq, List.foldlM_append]
  rcases (Path.stem_cases p).2 with h | h
  · rw [h]
  · rw [h, List.foldlM_append, bind_assoc]
    refine bind_congr fun l => ?_
    simp only [hseg, List.foldlM_cons, List.foldlM_nil, bind_pure]
    rw [← bind_assoc, enter_silent rfl]

theorem resolve_join_segment {p : Path} {s : Bytes} (hp : p.bytes ≠ []) (hs : slash ∉ s) :
    t.resolve (p.join ⟨s⟩) = t.resolve p >>= fun l => t.enter l s := by
  rw [resolve_join hp (Path.isAbsolute_of_not_mem hs), Path.segments_of_not_mem hs]
  exact bind_congr fun l => bind_pure _

theorem bytes_ne_nil_of_resolve {p : Path} {l : Location} (h : t.resolve p = .ok l) :
    p.bytes ≠ [] := by
  intro hnil
  simp [resolve, hnil] at h

theorem enter_name {l : Location} {n : Bytes} {e : Entry} (h : t.at? (l ++ [n]) = some e) :
    t.enter l n = .ok (l ++ [n]) := by
  have hn : IsEntryName n := isEntryName_of_at? h n (by simp)
  simp [enter, at?_parent h, Path.isSilent_eq_false hn, hn.2.2.1, h]

/-- A name leads to itself. -/
theorem eq_of_enter_name {l l' : Location} {n : Bytes} (hn : IsEntryName n)
    (h : t.enter l n = .ok l') : l' = l ++ [n] := by
  simp only [enter, isDir_of_enter h, Path.isSilent_eq_false hn, hn.2.2.1, if_false,
    Bool.false_eq_true] at h
  split at h
  · exact (Except.ok.inj h).symm
  · exact absurd h (by simp)

/-- A path that is spelled from a root leads to the location below it. -/
theorem resolve_spell {root : Path} {l below : Location} {e : Entry}
    (hr : t.resolve root = .ok l) (ha : t.at? (l ++ below) = some e) :
    t.resolve (spell root below) = .ok (l ++ below) := by
  induction below generalizing root l with
  | nil => simpa [spell] using hr
  | cons n below ih =>
    rw [List.append_cons] at ha ⊢
    have hat : ∃ e', t.at? (l ++ [n]) = some e' := by
      by_cases hb : below = []
      · exact ⟨e, by simpa [hb] using ha⟩
      · exact ⟨_, at?_of_append ha hb⟩
    obtain ⟨e', he'⟩ := hat
    have hn : IsEntryName n := isEntryName_of_at? he' n (by simp)
    have hstep : t.resolve (root.join ⟨n⟩) = .ok (l ++ [n]) := by
      rw [resolve_join_segment (bytes_ne_nil_of_resolve hr) hn.2.2.2, hr]
      exact enter_name he'
    exact ih hstep ha

/-! ## Plain paths -/

/-- Names that are entered one after the other lead to the location that they make up. -/
theorem eq_of_foldlM_enter {names : List Bytes} (hn : ∀ n ∈ names, IsEntryName n) {k l : Location}
    (h : names.foldlM t.enter k = .ok l) : l = k ++ names := by
  induction names generalizing k with
  | nil =>
    obtain rfl := Except.ok.inj h
    rw [List.append_nil]
  | cons n names ih =>
    rw [List.foldlM_cons, bind_eq_ok_iff] at h
    obtain ⟨next, hstep, hrest⟩ := h
    obtain rfl := eq_of_enter_name (hn n List.mem_cons_self) hstep
    rw [ih (fun m hm => hn m (List.mem_cons_of_mem n hm)) hrest, List.append_assoc,
      List.singleton_append]

/-- Where the paths that are joined to a base start from: an empty base leaves them as
they are. -/
def origin (t : Tree) (base : Path) : Except ReadError Location :=
  if base.bytes = [] then .ok t.here else t.resolve base

/-- A plain path is followed name by name from the origin. -/
theorem foldlM_of_resolve_join {base : Path} {names : List Bytes}
    (hn : ∀ n ∈ names, IsEntryName n) {l : Location}
    (h : t.resolve (base.join (.ofNames names)) = .ok l) :
    ∃ start, t.origin base = .ok start ∧ names.foldlM t.enter start = .ok l := by
  have habs := (Path.lead_ofNames hn).1
  by_cases hb : base.bytes = []
  · refine ⟨t.here, if_pos hb, ?_⟩
    have hjoin : base.join (.ofNames names) = .ofNames names := by simp [Path.join, hb]
    rw [hjoin] at h
    have hnil : names ≠ [] := by
      rintro rfl
      exact bytes_ne_nil_of_resolve h rfl
    rw [resolve, if_neg (Path.bytes_ofNames_ne_nil hn hnil), habs,
      Path.segments_ofNames hn hnil] at h
    simpa using h
  · rw [resolve_join hb habs, bind_eq_ok_iff] at h
    obtain ⟨start, hstart, hfollow⟩ := h
    refine ⟨start, (if_neg hb).trans hstart, ?_⟩
    by_cases hnil : names = []
    · -- The empty path has one segment, which is silent, and so stays where it is.
      subst hnil
      have hempty : (Path.ofNames []).segments = [[]] := rfl
      have hstep : t.enter start [] = .ok l := by
        rw [hempty] at hfollow
        exact (bind_pure _).symm.trans hfollow
      rw [eq_of_enter_silent rfl hstep]
      rfl
    · rwa [Path.segments_ofNames hn hnil] at hfollow

/-- Below one base, where a plain path leads is a matter of its names. -/
theorem resolve_join_ofNames {base : Path} {names : List Bytes}
    (hn : ∀ n ∈ names, IsEntryName n) {l : Location}
    (h : t.resolve (base.join (.ofNames names)) = .ok l) :
    ∃ k, t.origin base = .ok k ∧ l = k ++ names := by
  obtain ⟨start, hstart, hnames⟩ := foldlM_of_resolve_join hn h
  exact ⟨start, hstart, eq_of_foldlM_enter hn hnames⟩

/-! ## Where a path can lead -/

/-- A segment that is followed is silent, leads upwards, or is the name of an entry. -/
theorem segment_of_enter {l l' : Location} {s : Bytes} (h : t.enter l s = .ok l') :
    Path.isSilent s = true ∨ s = [dot, dot] ∨ ∃ l e, t.at? (l ++ [s]) = some e := by
  by_cases hsilent : Path.isSilent s = true
  · exact Or.inl hsilent
  by_cases hup : s = [dot, dot]
  · exact Or.inr (Or.inl hup)
  refine Or.inr (Or.inr ?_)
  simp only [enter, isDir_of_enter h, hsilent, hup, if_false, Bool.false_eq_true] at h
  split at h
  · next hentry => exact ⟨l, Option.isSome_iff_exists.mp hentry⟩
  · exact nomatch h

theorem segment_of_resolve {p : Path} {l : Location} (h : t.resolve p = .ok l) {s : Bytes}
    (hs : s ∈ p.segments) :
    Path.isSilent s = true ∨ s = [dot, dot] ∨ ∃ l e, t.at? (l ++ [s]) = some e := by
  have hfold : ∀ (segments : List Bytes) (start : Location), segments.foldlM t.enter start = .ok l →
      ∀ s ∈ segments,
        Path.isSilent s = true ∨ s = [dot, dot] ∨ ∃ l e, t.at? (l ++ [s]) = some e := by
    intro segments
    induction segments with
    | nil => exact fun _ _ s hs => absurd hs List.not_mem_nil
    | cons first rest ih =>
      intro start hstart s hs
      rw [List.foldlM_cons, bind_eq_ok_iff] at hstart
      obtain ⟨next, hfirst, hrest⟩ := hstart
      rcases List.mem_cons.mp hs with rfl | hs
      · exact segment_of_enter hfirst
      · exact ih next hrest s hs
  rw [resolve, if_neg (bytes_ne_nil_of_resolve h)] at h
  exact hfold _ _ h s hs

/-- The bytes of a path that leads somewhere are bytes of names in the tree, but for the slash
and the dot. -/
theorem mem_bytes_of_resolve {p : Path} {l : Location} (h : t.resolve p = .ok l) {c : UInt8}
    (hc : c ∈ p.bytes) : c = slash ∨ c = dot ∨ ∃ e ∈ t.entries, ∃ n ∈ e.1, c ∈ n := by
  have hspelling : Text.join [slash] p.segments = p.bytes := List.intercalate_splitOn slash
  rw [← hspelling] at hc
  rcases Text.mem_join hc with hslash | ⟨s, hs, hc⟩
  · exact Or.inl (List.mem_singleton.mp hslash)
  rcases segment_of_resolve h hs with hsilent | rfl | ⟨l, e, hat⟩
  · rw [Path.isSilent, Bool.or_eq_true, beq_iff_eq, beq_iff_eq] at hsilent
    rcases hsilent with rfl | rfl
    · exact absurd hc List.not_mem_nil
    · exact Or.inr (Or.inl (List.mem_singleton.mp hc))
  · exact Or.inr (Or.inl (by simpa using hc))
  · have hentry : (l ++ [s], e) ∈ t.entries := (at?_eq_some_iff (by simp)).mp hat
    exact Or.inr (Or.inr ⟨_, hentry, s, by simp, hc⟩)

/-! ## Reading -/

theorem read_of_resolve {p : Path} {l : Location} {bytes : Bytes}
    (hp : t.resolve p = .ok l) (ha : t.at? l = some (.file bytes)) :
    t.read p = .ok bytes := by
  simp [read, hp, ha, bind, Except.bind]

theorem resolve_of_read {p : Path} {bytes : Bytes} (h : t.read p = .ok bytes) :
    ∃ l, t.resolve p = .ok l := by
  rw [read, bind_eq_ok_iff] at h
  obtain ⟨l, hl, -⟩ := h
  exact ⟨l, hl⟩

theorem isFile_of_read {p : Path} {bytes : Bytes} (h : t.read p = .ok bytes) :
    t.isFile p = true := by
  rw [read, bind_eq_ok_iff] at h
  obtain ⟨l, hl, hread⟩ := h
  rw [isFile, entry?, hl]
  simp only
  split at hread
  · next content hentry => rw [hentry]
  · exact nomatch hread
  · exact nomatch hread

/-- A slash or a dot behind the name of a file leads nowhere. -/
theorem lastSegment_of_isFile {p : Path} (h : t.isFile p = true) :
    ∃ front last, p.segments = front ++ [last] ∧ Path.isSilent last = false := by
  have hsegments := List.dropLast_concat_getLast p.segments_ne_nil
  refine ⟨_, _, hsegments.symm, ?_⟩
  rw [Bool.eq_false_iff]
  intro hsilent
  rw [isFile, entry?] at h
  cases hp : t.resolve p with
  | error e => simp [hp] at h
  | ok l =>
    have hfollow := hp
    rw [resolve, if_neg (bytes_ne_nil_of_resolve hp), ← hsegments, List.foldlM_append,
      bind_eq_ok_iff] at hfollow
    obtain ⟨front, -, hlast⟩ := hfollow
    have henter : t.enter front (p.segments.getLast p.segments_ne_nil) = .ok l :=
      (bind_pure _).symm.trans hlast
    obtain rfl := eq_of_enter_silent hsilent henter
    simp [hp, isDir_of_enter henter] at h

theorem segments_of_isFile {p : Path} (h : t.isFile p = true) : p.segments = p.stem := by
  obtain ⟨front, last, hsegments, hlast⟩ := lastSegment_of_isFile h
  refine (Path.stem_cases p).2.resolve_right fun hstem => ?_
  rw [hsegments] at hstem
  exact Path.ne_nil_of_not_silent hlast (List.singleton_inj.mp (List.append_inj_right' hstem rfl))

theorem resolve_of_isDir {p : Path} (h : t.isDir p = true) : ∃ l, t.resolve p = .ok l := by
  cases hr : t.resolve p with
  | ok l => exact ⟨l, rfl⟩
  | error e => simp [isDir, entry?, hr] at h

theorem isDir_of_resolve {p : Path} {l : Location} (hp : t.resolve p = .ok l) :
    t.isDir p = true ↔ t.at? l = some .dir := by
  simp [isDir, entry?, hp]

/-! ## From another working directory -/

section SeenFrom

variable {l : Location} {p q : Path}

theorem resolve_seenFrom_here (h : t.at? l = some .dir) :
    (t.seenFrom l).resolve "." = .ok l := by
  have hhere : (t.seenFrom l).at? (t.seenFrom l).here = some .dir := h
  exact resolve_of_here rfl hhere

/-- What is found at a path is a matter of where it leads. -/
theorem entry?_seenFrom (h : t.resolve p = (t.seenFrom l).resolve q) :
    t.entry? p = Tree.entry? (t.seenFrom l) q := by
  unfold entry?
  rw [h]
  rfl

theorem isDir_seenFrom (h : t.resolve p = (t.seenFrom l).resolve q) :
    t.isDir p = (t.seenFrom l).isDir q := by
  rw [isDir, isDir, entry?_seenFrom h]

theorem isFile_seenFrom (h : t.resolve p = (t.seenFrom l).resolve q) :
    t.isFile p = (t.seenFrom l).isFile q := by
  rw [isFile, isFile, entry?_seenFrom h]

theorem readSource_seenFrom (h : t.resolve p = (t.seenFrom l).resolve q) :
    t.readSource p = (t.seenFrom l).readSource q := by
  rw [readSource, readSource, read, read, h]
  rfl

end SeenFrom

end Tree
end ModuleBoundary
