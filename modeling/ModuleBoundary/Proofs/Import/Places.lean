/-
Where the targets of a line stand in it.

A specifier is what two quotes of its line enclose (`Text.IsQuotedIn`).  The target of a
`use` line is a part of that line, or a member of a group behind the prefix of that group,
both of which are parts of it (`Import.Use.Shows`).  Every operation on the way from a line
to its targets cuts something off, and the lemmas go through them one by one.
-/
import ModuleBoundary.Import.Basic
import ModuleBoundary.Import.Specifier
import ModuleBoundary.Proofs.Import.Alias
import ModuleBoundary.Proofs.Text.Parts

namespace ModuleBoundary
namespace Text

/-! ## Cutting -/

theorem isSuffix_of_after? {head s rest : Text} (h : after? head s = some rest) : rest <:+ s := by
  rw [after?_eq_some.mp h]
  exact List.suffix_append head rest

/-- A form is tried at the ends of a text only. -/
theorem exists_suffix_of_firstAtWordStart? {α : Type} {form : Text → Option α} {inWord : Bool}
    {s : Text} {a : α} (h : firstAtWordStart? form inWord s = some a) :
    ∃ suffix, suffix <:+ s ∧ form suffix = some a := by
  induction s generalizing inWord with
  | nil => exact absurd h (by simp [firstAtWordStart?])
  | cons c s ih =>
    rw [firstAtWordStart?] at h
    split at h
    · next b hform =>
      cases inWord with
      | true => exact absurd hform (by simp)
      | false =>
        refine ⟨c :: s, List.suffix_rfl, ?_⟩
        rw [← h]
        exact hform
    · obtain ⟨suffix, hsuffix, hform⟩ := ih h
      exact ⟨suffix, hsuffix.trans (List.suffix_cons c s), hform⟩

/-! ## Quotes -/

/-- The text is not empty, has no quote in it, and stands between two quotes of the line. -/
structure IsQuotedIn (body line : Text) : Prop where
  ne_nil : body ≠ []
  isQuote_eq_false : ∀ c ∈ body, isQuote c = false
  between : ∃ q q', isQuote q = true ∧ isQuote q' = true ∧ q :: (body ++ [q']) <:+: line

theorem IsQuotedIn.mono {body part line : Text} (h : IsQuotedIn body part)
    (hpart : part <:+: line) : IsQuotedIn body line := by
  obtain ⟨q, q', hq, hq', hbetween⟩ := h.between
  exact ⟨h.ne_nil, h.isQuote_eq_false, q, q', hq, hq', hbetween.trans hpart⟩

theorem quotedBody?_eq_some_iff {s body rest : Text} :
    quotedBody? s = some (body, rest) ↔ ∃ q q', isQuote q = true ∧ isQuote q' = true ∧
      body ≠ [] ∧ (∀ c ∈ body, isQuote c = false) ∧ s = q :: (body ++ q' :: rest) := by
  constructor
  · intro h
    cases s with
    | nil => exact absurd h (by simp [quotedBody?])
    | cons q s =>
      rw [quotedBody?] at h
      split at h
      · next hq =>
        split at h
        · next c body' q' rest' hbody hrest =>
          obtain ⟨rfl, rfl⟩ := Prod.mk.inj (Option.some.inj h)
          have hq' : isQuote q' = true := by
            have hhead := List.head?_dropWhile_not (fun c => !isQuote c) s
            rw [hrest] at hhead
            simpa using hhead
          have hfree : ∀ d ∈ c :: body', isQuote d = false := by
            intro d hd
            rw [← hbody] at hd
            simpa using List.all_eq_true.mp List.all_takeWhile d hd
          refine ⟨q, q', hq, hq', List.cons_ne_nil c body', hfree, ?_⟩
          rw [← hbody, ← hrest, List.takeWhile_append_dropWhile]
        · exact absurd h (by simp)
      · exact absurd h (by simp)
  · rintro ⟨q, q', hq, hq', hne, hfree, rfl⟩
    have hpos : ∀ c ∈ body, (!isQuote c) = true := by
      intro c hc
      rw [hfree c hc]
      rfl
    have hstop : (!isQuote q') = false := by simp [hq']
    obtain ⟨c, body, rfl⟩ := List.exists_cons_of_ne_nil hne
    rw [quotedBody?, if_pos hq, List.takeWhile_append_of_pos hpos,
      List.dropWhile_append_of_pos hpos]
    simp [hstop]

theorem isQuotedIn_of_quotedBody? {s body rest : Text} (h : quotedBody? s = some (body, rest)) :
    IsQuotedIn body s := by
  obtain ⟨q, q', hq, hq', hne, hfree, rfl⟩ := quotedBody?_eq_some_iff.mp h
  refine ⟨hne, hfree, q, q', hq, hq', List.IsPrefix.isInfix ⟨rest, ?_⟩⟩
  simp

end Text

namespace Import

open Text (IsQuotedIn)

namespace Specifier

theorem isQuotedIn_of_fromClause? {s target : Text} (h : fromClause? s = some target) :
    IsQuotedIn target s := by
  simp only [fromClause?, Option.bind_eq_bind, Option.bind_eq_some_iff] at h
  obtain ⟨behind, hbehind, ⟨t, rest⟩, hquoted, heq⟩ := h
  obtain rfl := Option.some.inj heq
  have hpart : Text.dropBlanks behind <:+: s :=
    ((Text.isSuffix_dropBlanks behind).trans (Text.isSuffix_of_after? hbehind)).isInfix
  exact (Text.isQuotedIn_of_quotedBody? hquoted).mono hpart

theorem isQuotedIn_of_call? {word s target : Text} (h : call? word s = some target) :
    IsQuotedIn target s := by
  simp only [call?, Text.afterCall?, Option.bind_eq_bind, Option.bind_eq_some_iff] at h
  obtain ⟨behind, ⟨called, hcalled, hbehind⟩, ⟨t, rest⟩, hquoted, _, _, heq⟩ := h
  obtain rfl := Option.some.inj heq
  have hcall : Text.dropBlanks called <:+ s :=
    (Text.isSuffix_dropBlanks called).trans (Text.isSuffix_of_after? hcalled)
  have hpart : Text.dropBlanks behind <:+ s :=
    (Text.isSuffix_dropBlanks behind).trans ((Text.isSuffix_of_after? hbehind).trans hcall)
  exact (Text.isQuotedIn_of_quotedBody? hquoted).mono hpart.isInfix

/-- What a line names stands between quotes in it. -/
theorem isQuotedIn_of_mem_targets {line target : Text} (h : target ∈ targets line) :
    IsQuotedIn target line := by
  obtain ⟨form, hform, hfirst⟩ := List.mem_filterMap.mp h
  obtain ⟨suffix, hsuffix, hmatch⟩ := Text.exists_suffix_of_firstAtWordStart? hfirst
  have hquoted : IsQuotedIn target suffix := by
    simp only [forms, List.mem_cons, List.not_mem_nil, or_false] at hform
    rcases hform with rfl | rfl | rfl
    · exact isQuotedIn_of_fromClause? hmatch
    · exact isQuotedIn_of_call? hmatch
    · exact isQuotedIn_of_call? hmatch
  exact hquoted.mono hsuffix.isInfix

end Specifier

namespace Use

/-- The line has a pair of braces with `member` between them and `front` before the first
one; neither reaches over what bounds it. -/
def IsGroupIn (front member line : Text) : Prop :=
  ∃ before inner behind, line = before ++ '{' :: (inner ++ '}' :: behind) ∧
    front <:+: before ∧ '{' ∉ front ∧ member <:+: inner ∧ ',' ∉ member

/-- The line is a `use` line, and what stands in it spells the target. -/
structure Shows (line target : Text) : Prop where
  keyword : "use ".toList <+: Text.trim line
  ne_nil : target ≠ []
  spelled : target <:+: line ∨
    ∃ front member, target = front ++ member ∧ member ≠ [] ∧ IsGroupIn front member line

theorem IsGroupIn.mono {front member part line : Text} (h : IsGroupIn front member part)
    (hpart : part <:+: line) : IsGroupIn front member line := by
  obtain ⟨before, inner, behind, rfl, hfront, hbrace, hmember, hcomma⟩ := h
  obtain ⟨a, b, rfl⟩ := hpart
  refine ⟨a ++ before, inner, behind ++ b, by simp, ?_, hbrace, hmember, hcomma⟩
  exact hfront.trans (List.suffix_append a before).isInfix

theorem IsGroupIn.subset {front member line : Text} (h : IsGroupIn front member line) :
    front ++ member ⊆ line := by
  intro c hc
  obtain ⟨before, inner, behind, rfl, hfront, _, hmember, _⟩ := h
  rcases List.mem_append.mp hc with hc | hc
  · exact List.mem_append_left _ (hfront.subset hc)
  · simp [hmember.subset hc]

theorem Shows.subset {line target : Text} (h : Shows line target) : target ⊆ line := by
  rcases h.spelled with hpart | ⟨front, member, rfl, _, hgroup⟩
  · exact hpart.subset
  · exact hgroup.subset

theorem group?_eq_some {body front inner : Text} (h : group? body = some (front, inner)) :
    ∃ behind, body = front ++ '{' :: (inner ++ '}' :: behind) ∧ '{' ∉ front ∧ '}' ∉ behind := by
  simp only [group?, Option.bind_eq_bind, Option.bind_eq_some_iff] at h
  obtain ⟨⟨a, rest⟩, hcut, ⟨b, behind⟩, hlast, heq⟩ := h
  obtain ⟨rfl, rfl⟩ := Prod.mk.inj (Option.some.inj heq)
  obtain ⟨hbody, hbrace⟩ := Text.cut?_eq_some hcut
  obtain ⟨hrest, hbehind⟩ := Text.cutLast?_eq_some hlast
  exact ⟨behind, hbody.trans (congrArg (a ++ '{' :: ·) hrest), hbrace, hbehind⟩

theorem spelled_of_mem_bodyTargets {body target : Text} (h : target ∈ bodyTargets body) :
    target ≠ [] ∧ (target <:+: body ∨
      ∃ front member, target = front ++ member ∧ member ≠ [] ∧ IsGroupIn front member body) := by
  rw [bodyTargets] at h
  cases hgroup : group? body with
  | none =>
    rw [hgroup] at h
    by_cases hnil : withoutAlias body = []
    · exact absurd h (by simp [hnil])
    · have htarget : target = withoutAlias body := by simpa [hnil] using h
      rw [htarget]
      exact ⟨hnil, Or.inl (isInfix_withoutAlias body)⟩
  | some group =>
    obtain ⟨front, inner⟩ := group
    rw [hgroup] at h
    obtain ⟨member, hmember, heq⟩ := List.mem_filterMap.mp h
    by_cases hnil : member = []
    · exact absurd heq (by simp [hnil])
    rw [if_neg hnil] at heq
    obtain rfl := Option.some.inj heq
    obtain ⟨item, hitem, rfl⟩ := List.mem_map.mp hmember
    obtain ⟨hinner, hcomma⟩ := Text.mem_splitOn hitem
    obtain ⟨behind, hbody, hbrace, _⟩ := group?_eq_some hgroup
    have hpart := isInfix_withoutAlias item
    refine ⟨by simp [hnil], Or.inr ⟨Text.trim front, withoutAlias item, rfl, hnil, front, inner,
      behind, hbody, Text.isInfix_trim front, ?_, hpart.trans hinner, ?_⟩⟩
    · intro hmem
      exact hbrace ((Text.isInfix_trim front).subset hmem)
    · intro hmem
      exact hcomma (hpart.subset hmem)

theorem subset_of_mem_bodyTargets {body target : Text} (h : target ∈ bodyTargets body) :
    target ⊆ body := by
  rcases (spelled_of_mem_bodyTargets h).2 with hpart | ⟨front, member, rfl, _, hgroup⟩
  · exact hpart.subset
  · exact hgroup.subset

/-- The targets of a line are those of what stands between the keyword and the semicolon. -/
theorem mem_targets_iff {line target : Text} :
    target ∈ targets line ↔ ∃ rest, Text.trim line = "use ".toList ++ rest ∧
      isOther (Text.dropBlanks rest) = false ∧
      target ∈ bodyTargets (Text.trim ((Text.dropBlanks rest).takeWhile (· != ';'))) := by
  simp only [← Text.after?_eq_some]
  rw [targets]
  cases Text.after? "use ".toList (Text.trim line) with
  | none => simp
  | some rest => by_cases hother : isOther (Text.dropBlanks rest) = true <;> simp [hother]

/-- What a line names is spelled in it. -/
theorem shows_of_mem_targets {line target : Text} (h : target ∈ targets line) :
    Shows line target := by
  obtain ⟨rest, hline, _, hbodyTargets⟩ := mem_targets_iff.mp h
  have hbody : Text.trim ((Text.dropBlanks rest).takeWhile (· != ';')) <:+: line := by
    have htrim := Text.isInfix_trim ((Text.dropBlanks rest).takeWhile (· != ';'))
    have htake := (List.takeWhile_prefix (l := Text.dropBlanks rest) (· != ';')).isInfix
    have hdrop := (Text.isSuffix_dropBlanks rest).isInfix
    have hkeyword : rest <:+: Text.trim line := hline ▸ (List.suffix_append _ rest).isInfix
    exact htrim.trans (htake.trans (hdrop.trans (hkeyword.trans (Text.isInfix_trim line))))
  obtain ⟨hne, hspelled⟩ := spelled_of_mem_bodyTargets hbodyTargets
  refine ⟨⟨rest, hline.symm⟩, hne, ?_⟩
  rcases hspelled with htarget | ⟨front, member, heq, hmember, hgroup⟩
  · exact Or.inl (htarget.trans hbody)
  · exact Or.inr ⟨front, member, heq, hmember, hgroup.mono hbody⟩

end Use

/-! ## Texts -/

/-- An import of a text is what one of its lines names. -/
theorem mem_ofText {targets : Text → List Text} {s : Text} {i : Import} :
    i ∈ ofText targets s ↔ ∃ k line, (Text.lines s)[k]? = some line ∧ i.target ∈ targets line ∧
      i.line = k + 1 := by
  rw [ofText, ofLines, List.mem_flatMap]
  constructor
  · rintro ⟨⟨line, n⟩, hmem, hi⟩
    obtain ⟨target, htarget, rfl⟩ := List.mem_map.mp hi
    obtain ⟨hle, hline⟩ := List.mem_zipIdx_iff_le_and_getElem?_sub.mp hmem
    refine ⟨n - 1, line, hline, htarget, ?_⟩
    show n = n - 1 + 1
    omega
  · rintro ⟨k, line, hline, htarget, hk⟩
    refine ⟨(line, k + 1), ?_, List.mem_map.mpr ⟨i.target, htarget, ?_⟩⟩
    · exact List.mem_zipIdx_iff_le_and_getElem?_sub.mpr ⟨Nat.le_add_left 1 k, by simpa using hline⟩
    · show Import.mk i.target (k + 1) = i
      rw [← hk]

end Import
end ModuleBoundary
