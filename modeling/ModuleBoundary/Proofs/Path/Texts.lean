/-
Paths that are texts.

A slash is one byte, so a path that is a text is cut at its slashes into texts.  Hence what is
joined of such paths is a text again (`IsText.join`), and so is what is reported of one
(`IsText.relativeTo`).
-/
import ModuleBoundary.Proofs.Path.Relative
import ModuleBoundary.Proofs.Text.Encoding

namespace ModuleBoundary
namespace Path

variable {p q : Path} {s glob : Text}

def IsText (p : Path) : Prop := p.text?.isSome = true

instance (p : Path) : Decidable p.IsText := inferInstanceAs (Decidable (_ = true))

theorem text?_eq_some_iff : p.text? = some s ↔ p = ofText s := by
  rw [text?, Utf8.decode?_eq_some_iff]
  exact ⟨congrArg Path.mk, congrArg Path.bytes⟩

theorem isText_iff : p.IsText ↔ ∃ s, p = ofText s := by
  rw [IsText, Option.isSome_iff_exists]
  exact exists_congr fun s => text?_eq_some_iff

theorem isText_ofText (s : Text) : (ofText s).IsText := isText_iff.mpr ⟨s, rfl⟩

theorem encode_append_slash (front behind : Text) :
    Utf8.encode (front ++ '/' :: behind) = Utf8.encode front ++ slash :: Utf8.encode behind :=
  Utf8.encode_append_cons (c := '/') (by decide) front behind

theorem segments_ofText (s : Text) : (ofText s).segments = (s.splitOn '/').map Utf8.encode :=
  Utf8.splitOn_encode (c := '/') (by decide) s

theorem ofNames_encode (names : List Text) :
    ofNames (names.map Utf8.encode) = ofText (Text.join ['/'] names) :=
  congrArg Path.mk (Utf8.encode_join (c := '/') (by decide) names).symm

theorem IsText.exists_segment (h : p.IsText) : ∀ s ∈ p.segments, ∃ r, s = Utf8.encode r := by
  obtain ⟨s, rfl⟩ := isText_iff.mp h
  intro r hr
  rw [segments_ofText, List.mem_map] at hr
  obtain ⟨a, -, rfl⟩ := hr
  exact ⟨a, rfl⟩

theorem isText_ofNames {segments : List Bytes} (h : ∀ s ∈ segments, ∃ r, s = Utf8.encode r) :
    (ofNames segments).IsText := by
  have hnames : ∃ names : List Text, segments = names.map Utf8.encode := by
    induction segments with
    | nil => exact ⟨[], rfl⟩
    | cons s rest ih =>
      obtain ⟨r, rfl⟩ := h s List.mem_cons_self
      obtain ⟨names, rfl⟩ := ih fun s hs => h s (List.mem_cons_of_mem _ hs)
      exact ⟨r :: names, rfl⟩
  obtain ⟨names, rfl⟩ := hnames
  rw [ofNames_encode]
  exact isText_ofText _

theorem IsText.join (hp : p.IsText) (hq : q.IsText) : (p.join q).IsText := by
  obtain ⟨s, rfl⟩ := isText_iff.mp hp
  obtain ⟨r, rfl⟩ := isText_iff.mp hq
  rw [Path.join]
  split
  · exact hq
  split
  · exact isText_iff.mpr ⟨s ++ r, congrArg Path.mk (Utf8.encode_append s r).symm⟩
  · exact isText_iff.mpr ⟨s ++ '/' :: r, congrArg Path.mk (encode_append_slash s r).symm⟩

theorem IsText.relativeTo (hp : p.IsText) (q : Path) : (p.relativeTo q).IsText := by
  have hbody : ∀ s ∈ p.body, ∃ r, s = Utf8.encode r := fun s hs =>
    hp.exists_segment s (mem_segments_of_mem_body hs)
  have htrimmed : ∀ s ∈ trimSilentEnd p.body, ∃ r, s = Utf8.encode r := fun s hs =>
    hbody s ((isPrefix_trimSilentEnd p.body).subset hs)
  rw [Path.relativeTo]
  cases hr : p.rest? q with
  | none => exact hp
  | some r =>
    rw [Option.getD_some]
    rcases rest?_cases hr with ⟨-, ⟨-, rfl⟩ | ⟨-, rfl⟩ | ⟨-, rfl⟩⟩ | ⟨n, -, rfl⟩
    · obtain ⟨s, hs⟩ := isText_iff.mp (isText_ofNames htrimmed)
      rw [hs]
      exact isText_iff.mpr ⟨'/' :: s, congrArg Path.mk (encode_append_slash [] s).symm⟩
    · refine isText_ofNames (List.forall_mem_cons.mpr ⟨⟨['.'], by decide⟩, htrimmed⟩)
    · exact isText_ofNames htrimmed
    · exact isText_ofNames fun s hs => hbody s (mem_of_mem_remaining hs)

/-! ## Joined texts -/

theorem head?_ne_of_isAbsolute (h : (ofText s).isAbsolute = false) : s.head? ≠ some '/' := by
  intro hhead
  obtain ⟨rest, rfl⟩ := List.head?_eq_some_iff.mp hhead
  have hbytes : Utf8.encode ('/' :: rest) = slash :: Utf8.encode rest := encode_append_slash [] rest
  rw [isAbsolute, ofText, hbytes] at h
  exact absurd h (by simp)

/-- Joining puts one slash behind the texts of the stem. -/
theorem exists_text_join (hs : p.text? = some s) (hp : p.bytes ≠ [])
    (habs : (ofText glob).isAbsolute = false) :
    ∃ front, front <+: s ∧ p.stem = (front.splitOn '/').map Utf8.encode ∧
      (p.join (ofText glob)).text = front ++ '/' :: glob := by
  obtain rfl := text?_eq_some_iff.mp hs
  have htext : ∀ front : Text, text ⟨Utf8.encode front ++ slash :: Utf8.encode glob⟩ =
      front ++ '/' :: glob := by
    intro front
    rw [text, ← encode_append_slash, Utf8.decodeLossy_encode]
  rw [text, bytes_join hp habs]
  split
  · next hlast =>
    obtain ⟨front, rfl⟩ := Utf8.eq_of_getLast?_encode (c := '/') (by decide) hlast
    have hbytes : Utf8.encode (front ++ ['/']) = Utf8.encode front ++ [slash] :=
      encode_append_slash front []
    refine ⟨front, List.prefix_append _ _, ?_, ?_⟩
    · rw [← segments_ofText, ofText, hbytes, stem_of_slash]
      rfl
    · rw [ofText, hbytes, List.append_assoc]
      exact htext front
  · next hlast => exact ⟨s, List.prefix_rfl, (if_neg hlast).trans (segments_ofText s), htext s⟩

end Path
end ModuleBoundary
