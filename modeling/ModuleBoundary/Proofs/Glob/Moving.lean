/-
What patterns stand for, seen from a directory of the tree.

A pattern that is written behind a base is followed to the base first, literal by literal
(`IsBase.expandFrom_stem`).  From there on it is followed as it would be from the working directory,
if that were the base: the paths of the two runs lead to the same places, and behind the base they
are spelled with the same segments, but for silent ones in front (`Seen`).  One component keeps this
(`Seen.childPath`, `Seen.join`), so the results agree path by path (`seen_expandFrom`).
-/
import Mathlib.Data.List.Forall2
import Mathlib.Data.List.TakeWhile
import ModuleBoundary.Glob.Expand
import ModuleBoundary.Proofs.Glob.Reading
import ModuleBoundary.Proofs.Path.Texts
import ModuleBoundary.Proofs.Tree.Walking

namespace ModuleBoundary
namespace Glob

open ModuleBoundary.Path (isSilent)

variable {t : Tree} {l : Location} {base far near : Path}

/-! ## The base -/

/-- The path leads to the directory at the location, and does not start with a `.` segment. -/
structure IsBase (t : Tree) (l : Location) (base : Path) : Prop where
  resolve_eq : t.resolve base = .ok l
  isDir : t.at? l = some .dir
  lead_eq : base.lead = none

theorem IsBase.bytes_ne_nil (h : IsBase t l base) : base.bytes ≠ [] :=
  Tree.bytes_ne_nil_of_resolve h.resolve_eq

theorem IsBase.isAbsolute_eq (h : IsBase t l base) : base.isAbsolute = false :=
  Path.isAbsolute_of_lead h.lead_eq

theorem IsBase.exists_stem (h : IsBase t l base) :
    ∃ first rest, base.stem = first :: rest ∧ isSilent first = false := by
  obtain ⟨first, rest, hstem⟩ := List.exists_cons_of_ne_nil (Path.stem_cases base).1
  refine ⟨first, rest, hstem, Path.isSilent_head h.lead_eq h.bytes_ne_nil ?_⟩
  rw [Path.head?_segments, hstem]
  rfl

/-- The segments in front of those that joining adds lead to the base as well. -/
theorem IsBase.foldlM_stem (h : IsBase t l base) :
    base.stem.foldlM t.enter t.here = .ok l := by
  have hfollow := h.resolve_eq
  rw [Tree.resolve, if_neg h.bytes_ne_nil, h.isAbsolute_eq, if_neg Bool.false_ne_true] at hfollow
  rcases (Path.stem_cases base).2 with hsegments | hsegments
  · rwa [hsegments] at hfollow
  · rw [hsegments, List.foldlM_append, bind_eq_ok_iff] at hfollow
    obtain ⟨next, hstem, hlast⟩ := hfollow
    have hempty : t.enter next [] = .ok l := (bind_pure _).symm.trans hlast
    rw [Tree.eq_of_enter_silent rfl hempty]
    exact hstem

theorem IsBase.isDir_here (h : IsBase t l base) : t.at? t.here = some .dir := by
  obtain ⟨first, rest, hstem, -⟩ := h.exists_stem
  have hfollow := h.foldlM_stem
  rw [hstem, List.foldlM_cons, bind_eq_ok_iff] at hfollow
  obtain ⟨next, hfirst, -⟩ := hfollow
  exact Tree.isDir_of_enter hfirst

/-! ## Literals -/

theorem childPath_eq_join {dir : Path} (h : dir.lead = none) (name : Bytes) :
    childPath dir name = dir.join ⟨name⟩ := by
  rw [childPath, if_neg]
  intro hhere
  rw [Path.lead_of_mem_components (hhere ▸ List.mem_singleton_self _)] at h
  exact absurd h (by simp)

/-- A name leads to one place whether the working directory in front of it is spelled or not. -/
theorem resolve_childPath (hhere : t.at? t.here = some .dir) {dir : Path} (hdir : dir.bytes ≠ [])
    {s : Bytes} (hs : IsSegment s) :
    t.resolve (childPath dir s) = t.resolve dir >>= fun k => t.enter k s := by
  rw [childPath]
  split
  · next h =>
    rw [Tree.resolve_of_here h hhere, Tree.resolve, if_neg hs.1, Path.isAbsolute_of_not_mem hs.2,
      Path.segments_of_not_mem hs.2]
    exact bind_pure _
  · exact Tree.resolve_join_segment hdir hs.2

/-- A literal is followed if it can be entered. -/
theorem expandFrom_literal {onlyDirs : Bool} {parts : List Part} {p : Path} {s : Text}
    {k k' : Location} (hp : t.resolve p = .ok k) (hs : t.enter k (Utf8.encode s) = .ok k')
    (hnext : t.resolve (childPath p (Utf8.encode s)) = .ok k') :
    expandFrom t onlyDirs (.literal s :: parts) p =
      expandFrom t onlyDirs parts (childPath p (Utf8.encode s)) := by
  have hisDir : t.isDir p = true := (Tree.isDir_of_resolve hp).mpr (Tree.isDir_of_enter hs)
  have hisSome : (t.entry? (childPath p (Utf8.encode s))).isSome = true := by
    rw [Tree.entry?, hnext]
    exact Tree.isSome_of_enter hs
  simp only [expandFrom, hisDir, hisSome, ite_self, if_true]

/-- Literals that can be entered one after the other are followed to where they lead. -/
theorem expandFrom_literals (onlyDirs : Bool) (parts : List Part) {names : List Text}
    (hnames : ∀ s ∈ names, slash ∉ Utf8.encode s) {p : Path} {k target : Location}
    (hp : t.resolve p = .ok k) (hlead : p.lead = none)
    (hfollow : (names.map Utf8.encode).foldlM t.enter k = .ok target) :
    expandFrom t onlyDirs (names.map .literal ++ parts) p =
        expandFrom t onlyDirs parts (Tree.spell p (names.map Utf8.encode)) ∧
      t.resolve (Tree.spell p (names.map Utf8.encode)) = .ok target ∧
      (Tree.spell p (names.map Utf8.encode)).lead = none ∧
      (Tree.spell p (names.map Utf8.encode)).loud =
        p.loud ++ (names.map Utf8.encode).filter fun s => !isSilent s := by
  induction names generalizing p k with
  | nil =>
    obtain rfl := Except.ok.inj hfollow
    exact ⟨rfl, hp, hlead, (List.append_nil _).symm⟩
  | cons s names ih =>
    rw [List.map_cons, List.foldlM_cons, bind_eq_ok_iff] at hfollow
    obtain ⟨next, hs, hrest⟩ := hfollow
    have hslash := hnames s List.mem_cons_self
    have hne := Tree.bytes_ne_nil_of_resolve hp
    have habs := Path.isAbsolute_of_not_mem hslash
    have hnext : t.resolve (p.join ⟨Utf8.encode s⟩) = .ok next := by
      rw [Tree.resolve_join_segment hne hslash, hp]
      exact hs
    have hloud : (p.join ⟨Utf8.encode s⟩).loud =
        p.loud ++ [Utf8.encode s].filter fun s => !isSilent s := by
      rw [Path.loud_join hne habs]
      show p.loud ++ (Path.mk (Utf8.encode s)).segments.filter _ = _
      rw [Path.segments_of_not_mem hslash]
    obtain ⟨hexpand, hresolve, hlead', hloud'⟩ := ih
      (fun r hr => hnames r (List.mem_cons_of_mem s hr)) hnext ((Path.lead_join hne habs).trans hlead)
      hrest
    refine ⟨?_, hresolve, hlead', ?_⟩
    · rw [← childPath_eq_join hlead] at hnext
      rw [List.map_cons, List.cons_append, expandFrom_literal hp hs hnext, childPath_eq_join hlead,
        hexpand]
      rfl
    · rw [List.map_cons, Tree.spell, List.foldl_cons, ← Tree.spell, hloud', hloud,
        List.append_assoc, ← List.filter_append]
      rfl

/-- The literals that a base is read as are followed to a spelling of the base. -/
theorem IsBase.expandFrom_stem (h : IsBase t l base) {names : List Text}
    (hnames : base.stem = names.map Utf8.encode) : ∃ start, IsBase t l start ∧
    start.loud = base.loud ∧ ∀ (onlyDirs : Bool) (parts : List Part),
      expandFrom t onlyDirs (names.map .literal ++ parts) "." =
        expandFrom t onlyDirs parts start := by
  obtain ⟨first, rest, hstem, hloud⟩ := h.exists_stem
  obtain ⟨name, names, rfl, rfl, rfl⟩ := List.map_eq_cons_iff.mp (hnames.symm.trans hstem)
  have hslashes : ∀ s ∈ name :: names, slash ∉ Utf8.encode s := fun s hs =>
    Path.slash_not_mem_of_mem_stem (hnames ▸ List.mem_map_of_mem hs)
  have hfirst : IsSegment (Utf8.encode name) :=
    ⟨Path.ne_nil_of_not_silent hloud, hslashes name List.mem_cons_self⟩
  have hfollow := h.foldlM_stem
  rw [hstem, List.foldlM_cons, bind_eq_ok_iff] at hfollow
  obtain ⟨next, henter, hrest⟩ := hfollow
  have hdot : t.resolve "." = .ok t.here := Tree.resolve_of_here (by decide) h.isDir_here
  have hchild : childPath "." (Utf8.encode name) = ⟨Utf8.encode name⟩ := if_pos (by decide)
  have hnext : t.resolve (childPath "." (Utf8.encode name)) = .ok next := by
    have hne : Path.bytes "." ≠ [] := by decide
    rw [resolve_childPath h.isDir_here hne hfirst, hdot]
    exact henter
  have hsegments : (Path.mk (Utf8.encode name)).segments = [Utf8.encode name] :=
    Path.segments_of_not_mem hfirst.2
  have hhead : (Path.mk (Utf8.encode name)).segments.head? = some (Utf8.encode name) := by
    rw [hsegments]
    rfl
  have hlead : (Path.mk (Utf8.encode name)).lead = none := Path.lead_eq_none hhead hloud
  have hfollow := fun onlyDirs parts => expandFrom_literals onlyDirs parts
    (fun s hs => hslashes s (List.mem_cons_of_mem name hs)) (hchild ▸ hnext) hlead hrest
  obtain ⟨-, hresolve, hstart, hlouds⟩ := hfollow false []
  refine ⟨Tree.spell ⟨Utf8.encode name⟩ (names.map Utf8.encode), ⟨hresolve, h.isDir, hstart⟩, ?_,
    fun onlyDirs parts => ?_⟩
  · rw [hlouds, ← Path.filter_stem base, hstem, Path.loud, hsegments, ← List.filter_append]
    rfl
  · rw [List.map_cons, List.cons_append, expandFrom_literal hdot henter hnext, hchild]
    exact (hfollow onlyDirs parts).1

/-! ## Two runs -/

/-- `near` is `far` as it is seen from the base: they lead to one place, and behind the base they
are spelled with the same segments, but for silent ones in front. -/
structure Seen (t : Tree) (l : Location) (base far near : Path) : Prop where
  resolve_eq : t.resolve far = (t.seenFrom l).resolve near
  segments : ∃ behind, far.stem = base.stem ++ behind ∧
    behind.dropWhile isSilent = near.stem.dropWhile isSilent
  near_ne : [] ∉ near.stem

theorem IsBase.seen (h : IsBase t l base) : Seen t l base base "." := by
  refine ⟨?_, ⟨[], (List.append_nil _).symm, rfl⟩, by decide⟩
  rw [h.resolve_eq, Tree.resolve_seenFrom_here h.isDir]

namespace Seen

theorem far_lead (h : Seen t l base far near) (hb : IsBase t l base) :
    far.lead = none ∧ far.bytes ≠ [] := by
  obtain ⟨behind, hfar, -⟩ := h.segments
  obtain ⟨first, rest, hstem, hloud⟩ := hb.exists_stem
  have hhead : far.segments.head? = some first := by
    rw [Path.head?_segments, hfar, hstem]
    rfl
  refine ⟨Path.lead_eq_none hhead hloud, fun hnil => ?_⟩
  rw [Path.segments, hnil] at hhead
  exact Path.ne_nil_of_not_silent hloud (Option.some.inj hhead).symm

theorem near_bytes_ne_nil (h : Seen t l base far near) : near.bytes ≠ [] := by
  intro hnil
  apply h.near_ne
  rw [Path.stem, Path.segments, hnil]
  exact List.mem_singleton_self []

theorem join (h : Seen t l base far near) (hb : IsBase t l base) {s : Bytes} (hs : IsSegment s) :
    Seen t l base (far.join ⟨s⟩) (near.join ⟨s⟩) := by
  have hfar := (h.far_lead hb).2
  have hnear := h.near_bytes_ne_nil
  obtain ⟨behind, hstem, hsame⟩ := h.segments
  refine ⟨?_, ⟨behind ++ [s], ?_, ?_⟩, ?_⟩
  · rw [Tree.resolve_join_segment hfar hs.2, Tree.resolve_join_segment hnear hs.2, h.resolve_eq]
    rfl
  · rw [Path.stem_join_segment hfar hs.1 hs.2, hstem, List.append_assoc]
  · rw [Path.stem_join_segment hnear hs.1 hs.2, List.dropWhile_append, List.dropWhile_append, hsame]
  · rw [Path.stem_join_segment hnear hs.1 hs.2, List.mem_append, not_or, List.mem_singleton]
    exact ⟨h.near_ne, hs.1.symm⟩

theorem childPath (h : Seen t l base far near) (hb : IsBase t l base) {s : Bytes}
    (hs : IsSegment s) : Seen t l base (Glob.childPath far s) (Glob.childPath near s) := by
  have hjoin := h.join hb hs
  rw [childPath_eq_join (h.far_lead hb).1]
  by_cases hhere : near.components = [.here]
  · -- All segments of the near path are silent, so nothing of it is lost.
    have hstem : (Path.mk s).stem = [s] := by
      rw [Path.stem, if_neg fun hlast => hs.2 (List.mem_of_getLast? hlast),
        Path.segments_of_not_mem hs.2]
    have hsilent : near.stem.dropWhile isSilent = [] := by
      rw [List.dropWhile_eq_nil_iff]
      intro r hr
      have hnil : near.stem.filter (fun s => !isSilent s) = [] :=
        (Path.filter_stem near).trans (Path.loud_of_here hhere)
      simpa using List.filter_eq_nil_iff.mp hnil r hr
    obtain ⟨behind, hfar, hsame⟩ := hjoin.segments
    refine ⟨?_, ⟨behind, hfar, ?_⟩, ?_⟩
    · rw [hjoin.resolve_eq, resolve_childPath (t := t.seenFrom l) hb.isDir h.near_bytes_ne_nil hs,
        Tree.resolve_join_segment h.near_bytes_ne_nil hs.2]
    · rw [hsame, Path.stem_join_segment h.near_bytes_ne_nil hs.1 hs.2, List.dropWhile_append,
        hsilent, Glob.childPath, if_pos hhere, hstem]
      rfl
    · rw [Glob.childPath, if_pos hhere, hstem, List.mem_singleton]
      exact hs.1.symm
  · rw [Glob.childPath, if_neg hhere]
    exact hjoin

theorem namesIn_eq (h : Seen t l base far near) : namesIn t far = namesIn (t.seenFrom l) near := by
  rw [namesIn, namesIn, h.resolve_eq]
  rfl

end Seen

theorem isSegment_of_mem_namesIn {dir : Path} {n : Bytes} (h : n ∈ namesIn t dir) :
    IsSegment n := by
  rw [namesIn] at h
  split at h
  · split at h
    · rw [Tree.children, List.mem_mergeSort, List.mem_filterMap] at h
      obtain ⟨e, he, hname⟩ := h
      split at hname
      · have hn := t.valid.names e he n (List.mem_of_getLast? hname)
        exact ⟨hn.1, hn.2.2.2⟩
      · exact nomatch hname
    · exact absurd h List.not_mem_nil
  · exact absurd h List.not_mem_nil

theorem forall₂_ite {β γ : Type} {R : β → γ → Prop} {c : Prop} [Decidable c] {bs : List β}
    {cs : List γ} (h : List.Forall₂ R bs cs) :
    List.Forall₂ R (if c then bs else []) (if c then cs else []) := by
  split
  · exact h
  · exact List.Forall₂.nil

theorem forall₂_flatMap {α β γ : Type} {R : β → γ → Prop} {as : List α} {f : α → List β}
    {g : α → List γ} (h : ∀ a ∈ as, List.Forall₂ R (f a) (g a)) :
    List.Forall₂ R (as.flatMap f) (as.flatMap g) := by
  induction as with
  | nil => exact List.Forall₂.nil
  | cons a as ih =>
    rw [List.flatMap_cons, List.flatMap_cons]
    exact List.rel_append (h a List.mem_cons_self) (ih fun b hb => h b (List.mem_cons_of_mem a hb))

theorem seen_throughout (hb : IsBase t l base) {own own' : Path → Bytes → List Path}
    (hown : ∀ far near name, Seen t l base far near →
      List.Forall₂ (Seen t l base) (own far name) (own' near name)) (fuel : Nat) (name : Bytes)
    (h : Seen t l base far near) : List.Forall₂ (Seen t l base) (throughout t own fuel far name)
      (throughout (t.seenFrom l) own' fuel near name) := by
  induction fuel generalizing far near name with
  | zero => exact List.Forall₂.nil
  | succ fuel ih =>
    rw [throughout, throughout, h.namesIn_eq]
    refine List.rel_append (hown far near name h) (forall₂_flatMap fun n hn => ?_)
    exact ih n (h.childPath hb (isSegment_of_mem_namesIn hn))

/-- Components without empty ones among them stand for the same paths in the two runs. -/
theorem seen_expandFrom (hb : IsBase t l base) (onlyDirs : Bool) : ∀ (parts : List Part)
    {far near : Path}, (∀ s, .literal s ∈ parts → IsSegment (Utf8.encode s)) → Seen t l base far near →
      List.Forall₂ (Seen t l base) (expandFrom t onlyDirs parts far)
        (expandFrom (t.seenFrom l) onlyDirs parts near)
  | [], far, near, _, h => by
    rw [expandFrom, expandFrom, Tree.isDir_seenFrom h.resolve_eq]
    split
    · exact List.Forall₂.nil
    · exact List.Forall₂.cons h List.Forall₂.nil
  | .literal s :: rest, far, near, hparts, h => by
    have hs := hparts s List.mem_cons_self
    have hnext := h.childPath hb hs
    have hrest := seen_expandFrom hb onlyDirs rest
      (fun r hr => hparts r (List.mem_cons_of_mem _ hr)) hnext
    rw [expandFrom, expandFrom, Tree.isDir_seenFrom h.resolve_eq, Tree.entry?_seenFrom hnext.resolve_eq]
    exact forall₂_ite hrest
  | .dirs :: [], far, near, _, h => by
    rw [expandFrom, expandFrom, h.namesIn_eq]
    refine forall₂_flatMap fun n hn => ?_
    refine seen_throughout hb (fun far near name h => ?_) _ n
      (h.childPath hb (isSegment_of_mem_namesIn hn))
    rw [Tree.isDir_seenFrom h.resolve_eq]
    exact forall₂_ite (List.Forall₂.cons h List.Forall₂.nil)
  | .dirs :: part :: rest, far, near, hparts, h => by
    rw [expandFrom, expandFrom, h.namesIn_eq]
    refine forall₂_flatMap fun n hn => ?_
    refine seen_throughout hb (fun far near name h => ?_) _ n
      (h.childPath hb (isSegment_of_mem_namesIn hn))
    exact forall₂_ite (seen_expandFrom hb onlyDirs rest
      (fun r hr => hparts r (List.mem_cons_of_mem _ (List.mem_cons_of_mem _ hr))) h)
  | .wild tokens :: rest, far, near, hparts, h => by
    have hrest : ∀ {far near : Path}, Seen t l base far near →
        List.Forall₂ (Seen t l base) (expandFrom t onlyDirs rest far)
          (expandFrom (t.seenFrom l) onlyDirs rest near) :=
      seen_expandFrom hb onlyDirs rest fun r hr => hparts r (List.mem_cons_of_mem _ hr)
    simp only [expandFrom, Tree.isDir_seenFrom h.resolve_eq, h.namesIn_eq]
    refine List.rel_append (forall₂_flatMap fun s hs => ?_) (forall₂_flatMap fun n hn => ?_)
    · have hsegment : ∀ s ∈ [[dot, dot], [dot]], IsSegment s := by
        simp [IsSegment, show slash ≠ dot by decide]
      exact hrest (h.join hb (hsegment s (List.mem_filter.mp hs).1))
    · exact hrest (h.childPath hb (isSegment_of_mem_namesIn (List.mem_filter.mp hn).1))

/-- A pattern without empty components that is written behind the base stands for what it stands for
behind the working directory, or is malformed in both places. -/
theorem seen_expand (hb : IsBase t l base) {s : Text} (hs : base.text? = some s)
    (hplain : IsPlainText s) {glob : Text} (habs : (Path.ofText glob).isAbsolute = false)
    (hslashes : ¬ ['/', '/'] <:+: glob) :
    (ofText? (base.join (.ofText glob)).text = none ∧
        ofText? (Path.join "." (.ofText glob)).text = none) ∨
      ∃ far near start, ofText? (base.join (.ofText glob)).text = some far ∧
        ofText? (Path.join "." (.ofText glob)).text = some near ∧ IsBase t l start ∧
        start.loud = base.loud ∧
        List.Forall₂ (Seen t l start) (far.expand t) (near.expand (t.seenFrom l)) := by
  have hhead := Path.head?_ne_of_isAbsolute habs
  obtain ⟨front, hbegins, hstem, htext⟩ := Path.exists_text_join hs hb.bytes_ne_nil habs
  have hdot : (Path.join "." (.ofText glob)).text = ['.'] ++ '/' :: glob := by
    have hbytes : (Path.join "." (.ofText glob)).bytes = Utf8.encode (['.'] ++ '/' :: glob) := by
      rw [Path.bytes_join (by decide) habs, if_neg (by decide), Path.encode_append_slash]
      rfl
    rw [Path.text, hbytes, Utf8.decodeLossy_encode]
  obtain ⟨first, rest, hcons, hloud⟩ := hb.exists_stem
  have hfirst : (front.splitOn '/').head? ≠ some [] := by
    intro hnil
    obtain ⟨names, hnames⟩ := List.head?_eq_some_iff.mp hnil
    rw [hnames, hcons] at hstem
    exact Path.ne_nil_of_not_silent hloud (List.cons.inj hstem).1
  have hne : front ≠ [] := by
    rintro rfl
    exact hfirst rfl
  have hfrontAbs : front.head? ≠ some '/' := by
    intro habs
    obtain ⟨names, rfl⟩ := List.head?_eq_some_iff.mp habs
    exact hfirst (by rw [List.splitOn_cons_eq_if_modifyHead]; rfl)
  have hdotPlain : IsPlainText ['.'] := by decide
  rw [htext, hdot, ofText?_append (fun c hc => hplain c (hbegins.subset hc)) hne hfrontAbs glob,
    ofText?_append hdotPlain (by decide) (by decide) glob]
  cases hbelow : below? glob with
  | none => exact Or.inl ⟨rfl, rfl⟩
  | some below =>
    obtain ⟨start, hstart, hsame, hexpand⟩ := hb.expandFrom_stem hstem
    refine Or.inr ⟨_, _, start, rfl, rfl, hstart, hsame, ?_⟩
    have hparts : ∀ s, .literal s ∈ below.1 → IsSegment (Utf8.encode s) := fun s hs =>
      isSegment_of_below? hhead hslashes hbelow hs
    have hhere := Tree.resolve_seenFrom_here hb.isDir
    have hstay : (t.seenFrom l).enter l (Utf8.encode ['.']) = .ok l := by
      have hsilent : isSilent (Utf8.encode ['.']) = true := by decide
      simp [Tree.enter, hsilent, show (t.seenFrom l).at? l = some .dir from hb.isDir]
    have hfar : Glob.expand t ⟨false, (front.splitOn '/').map .literal ++ below.1, below.2⟩ =
        expandFrom t below.2 below.1 start := hexpand below.2 below.1
    have hnear : Glob.expand (t.seenFrom l)
        ⟨false, (['.'].splitOn '/').map .literal ++ below.1, below.2⟩ =
        expandFrom (t.seenFrom l) below.2 below.1 "." :=
      expandFrom_literal hhere hstay hhere
    rw [hfar, hnear]
    exact seen_expandFrom hstart below.2 below.1 hparts hstart.seen

end Glob
end ModuleBoundary
