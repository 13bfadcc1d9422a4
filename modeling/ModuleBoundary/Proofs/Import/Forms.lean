/-
The forms of a script line as they are written.

A form is spelled from its keyword, its gaps, its brackets and a text in quotes
(`Form.Spells`), and a line has it where that spelling stands behind the start of the line or
behind a character that is no word character (`Form.At`).  `imports_eq_forms` says that reading
a source finds just that: one target for every form that its lines have, the one of the
leftmost place.
-/
import ModuleBoundary.Language
import ModuleBoundary.Proofs.Import.Places
import ModuleBoundary.Proofs.Text.Leftmost
import ModuleBoundary.Proofs.Text.Trimming

namespace ModuleBoundary

namespace Text

/-! ## Gaps and quotes -/

/-- Text without quotes in quotes.  The two quotes need not be the same. -/
structure Quoted where
  opening : Char
  body : Text
  closing : Char
  isQuote_opening : isQuote opening = true
  isQuote_closing : isQuote closing = true
  ne_nil : body ≠ []
  quoteless : ∀ c ∈ body, isQuote c = false

def Quoted.text (q : Quoted) : Text := q.opening :: (q.body ++ [q.closing])

theorem isBlank_of_isQuote {c : Char} (h : isQuote c = true) : isBlank c = false := by
  rw [isQuote, Bool.or_eq_true, beq_iff_eq, beq_iff_eq] at h
  rcases h with h | h <;> rw [h] <;> decide

theorem dropBlanks_gap_quoted (gap : Gap) (q : Quoted) (rest : Text) :
    dropBlanks (gap.text ++ (q.text ++ rest)) = q.text ++ rest :=
  dropBlanks_gap gap (isBlank_of_isQuote q.isQuote_opening) _

theorem quotedBody?_iff {s body rest : Text} :
    quotedBody? s = some (body, rest) ↔ ∃ q : Quoted, q.body = body ∧ s = q.text ++ rest := by
  rw [quotedBody?_eq_some_iff]
  constructor
  · intro h
    obtain ⟨opening, closing, hopening, hclosing, hne, hquoteless, hs⟩ := h
    refine ⟨⟨opening, body, closing, hopening, hclosing, hne, hquoteless⟩, rfl, ?_⟩
    rw [hs, Quoted.text]
    simp
  · intro h
    obtain ⟨q, hbody, hs⟩ := h
    rw [← hbody]
    refine ⟨q.opening, q.closing, q.isQuote_opening, q.isQuote_closing, q.ne_nil, q.quoteless, ?_⟩
    rw [hs, Quoted.text]
    simp

theorem quotedBody?_text (q : Quoted) (rest : Text) :
    quotedBody? (q.text ++ rest) = some (q.body, rest) :=
  quotedBody?_iff.mpr ⟨q, rfl, rfl⟩

end Text

namespace Import
namespace Specifier

open Text (Gap Quoted)

/-! ## Forms -/

inductive Form
  | fromClause
  | importCall
  | requireCall
  deriving DecidableEq, Repr

/-- The brackets of a call and what stands between them, with the gap in front of them. -/
structure Brackets where
  before : Gap
  inside : Gap
  quoted : Quoted
  behind : Gap

def Brackets.text (b : Brackets) : Text :=
  b.before.text ++ '(' :: (b.inside.text ++ (b.quoted.text ++ (b.behind.text ++ [')'])))

namespace Form

inductive Spells : Form → Text → Text → Prop
  | fromClause (gap : Gap) (q : Quoted) :
      Spells .fromClause q.body ("from".toList ++ (gap.text ++ q.text))
  | importCall (b : Brackets) : Spells .importCall b.quoted.body ("import".toList ++ b.text)
  | requireCall (b : Brackets) : Spells .requireCall b.quoted.body ("require".toList ++ b.text)

/-- The form with the target `t` stands in the line between `pre` and `post`, where a word can
start. -/
structure At (form : Form) (line pre t post : Text) : Prop where
  startsWord : ∀ c, pre.getLast? = some c → Text.isWord c = false
  spelled : ∃ s, form.Spells t s ∧ line = pre ++ (s ++ post)

def read? : Form → Text → Option Text
  | fromClause => fromClause?
  | importCall => call? "import".toList
  | requireCall => call? "require".toList

def first? (form : Form) (line : Text) : Option Text :=
  Text.firstAtWordStart? form.read? false line

end Form

/-! ## Calls -/

theorem Brackets.dropBlanks_text (b : Brackets) (rest : Text) :
    Text.dropBlanks (b.text ++ rest) =
      '(' :: (b.inside.text ++ (b.quoted.text ++ (b.behind.text ++ ')' :: rest))) := by
  have htext : b.text ++ rest = b.before.text ++
      '(' :: (b.inside.text ++ (b.quoted.text ++ (b.behind.text ++ ')' :: rest))) := by
    simp [text]
  rw [htext, Text.dropBlanks_gap b.before (by decide)]

theorem call?_eq_some_iff {word s t : Text} :
    call? word s = some t ↔
      ∃ b : Brackets, b.quoted.body = t ∧ ∃ rest, s = word ++ (b.text ++ rest) := by
  simp only [call?, Text.afterCall?, Option.bind_eq_bind, Option.bind_eq_some_iff,
    Text.after?_eq_some]
  constructor
  · intro h
    obtain ⟨behind, ⟨called, hs, hcalled⟩, ⟨body, more⟩, hquoted, rest, hmore, heq⟩ := h
    obtain ⟨q, hbody, hbehind⟩ := Text.quotedBody?_iff.mp hquoted
    obtain ⟨before, hbefore⟩ := Text.exists_gap called
    obtain ⟨inside, hinside⟩ := Text.exists_gap behind
    obtain ⟨last, hlast⟩ := Text.exists_gap more
    refine ⟨⟨before, inside, q, last⟩, hbody.trans (Option.some.inj heq), rest, ?_⟩
    rw [hs, hbefore, hcalled, hinside, hbehind, hlast, hmore]
    simp [Brackets.text]
  · intro h
    obtain ⟨b, hbody, rest, hs⟩ := h
    refine ⟨b.inside.text ++ (b.quoted.text ++ (b.behind.text ++ ')' :: rest)),
      ⟨_, hs, b.dropBlanks_text rest⟩, (b.quoted.body, b.behind.text ++ ')' :: rest), ?_, rest, ?_,
      congrArg some hbody⟩
    · rw [Text.dropBlanks_gap_quoted, Text.quotedBody?_text]
    · exact Text.dropBlanks_gap b.behind (by decide) rest

/-- What stands behind two calls is the same if the texts from their brackets on are. -/
theorem Brackets.unique {b b' : Brackets} {rest rest' : Text}
    (h : b.text ++ rest = b'.text ++ rest') :
    b.quoted.body = b'.quoted.body ∧ rest = rest' := by
  have hbracket := congrArg Text.dropBlanks h
  rw [b.dropBlanks_text, b'.dropBlanks_text] at hbracket
  have hinside :=
    congrArg (fun s => Text.quotedBody? (Text.dropBlanks s)) (List.cons.inj hbracket).2
  simp only [Text.dropBlanks_gap_quoted, Text.quotedBody?_text, Option.some.injEq,
    Prod.mk.injEq] at hinside
  have hbehind := congrArg Text.dropBlanks hinside.2
  rw [Text.dropBlanks_gap _ (by decide), Text.dropBlanks_gap _ (by decide)] at hbehind
  exact ⟨hinside.1, (List.cons.inj hbehind).2⟩

theorem fromClause?_eq_some_iff {s t : Text} :
    fromClause? s = some t ↔ ∃ (gap : Gap) (q : Quoted), q.body = t ∧
      ∃ rest, s = "from".toList ++ (gap.text ++ (q.text ++ rest)) := by
  simp only [fromClause?, Option.bind_eq_bind, Option.bind_eq_some_iff, Text.after?_eq_some]
  constructor
  · intro h
    obtain ⟨behind, hs, ⟨body, rest⟩, hquoted, heq⟩ := h
    obtain ⟨q, hbody, hbehind⟩ := Text.quotedBody?_iff.mp hquoted
    obtain ⟨gap, hgap⟩ := Text.exists_gap behind
    refine ⟨gap, q, hbody.trans (Option.some.inj heq), rest, ?_⟩
    rw [hs, ← hbehind, ← hgap]
  · intro h
    obtain ⟨gap, q, hbody, rest, hs⟩ := h
    refine ⟨_, hs, (q.body, rest), ?_, congrArg some hbody⟩
    rw [Text.dropBlanks_gap_quoted, Text.quotedBody?_text]

namespace Form

variable {form : Form}

/-- Reading at the start of a text finds the spelling of the form there. -/
theorem read?_eq_some_iff {s t : Text} :
    form.read? s = some t ↔ ∃ spelled rest, s = spelled ++ rest ∧ form.Spells t spelled := by
  have hcall : ∀ {word : Text} {form : Form},
      (∀ b : Brackets, form.Spells b.quoted.body (word ++ b.text)) →
      (∀ {t spelled}, form.Spells t spelled →
        ∃ b : Brackets, b.quoted.body = t ∧ spelled = word ++ b.text) →
      (call? word s = some t ↔ ∃ spelled rest, s = spelled ++ rest ∧ form.Spells t spelled) := by
    intro word form hspells hcases
    rw [call?_eq_some_iff]
    constructor
    · intro h
      obtain ⟨b, hbody, rest, hs⟩ := h
      exact ⟨word ++ b.text, rest, by rw [hs, List.append_assoc], hbody ▸ hspells b⟩
    · intro h
      obtain ⟨spelled, rest, hs, hspelled⟩ := h
      obtain ⟨b, hbody, htext⟩ := hcases hspelled
      exact ⟨b, hbody, rest, by rw [hs, htext, List.append_assoc]⟩
  cases form with
  | fromClause =>
    show fromClause? s = some t ↔ _
    rw [fromClause?_eq_some_iff]
    constructor
    · intro h
      obtain ⟨gap, q, hbody, rest, hs⟩ := h
      refine ⟨_, rest, ?_, hbody ▸ Spells.fromClause gap q⟩
      rw [hs]
      simp
    · intro h
      obtain ⟨spelled, rest, hs, hspelled⟩ := h
      cases hspelled with
      | fromClause gap q =>
        refine ⟨gap, q, rfl, rest, ?_⟩
        rw [hs]
        simp
  | importCall =>
    refine hcall Spells.importCall ?_
    intro t spelled h
    cases h with
    | importCall b => exact ⟨b, rfl, rfl⟩
  | requireCall =>
    refine hcall Spells.requireCall ?_
    intro t spelled h
    cases h with
    | requireCall b => exact ⟨b, rfl, rfl⟩

/-- At one place a form has one target, and one text stands behind it. -/
theorem Spells.unique {t t' s s' rest rest' : Text} (h : form.Spells t s) (h' : form.Spells t' s')
    (heq : s ++ rest = s' ++ rest') : t = t' ∧ rest = rest' := by
  cases h with
  | fromClause gap q =>
    cases h' with
    | fromClause gap' q' =>
      have hgap : gap.text ++ (q.text ++ rest) = gap'.text ++ (q'.text ++ rest') :=
        List.append_cancel_left (by simpa only [List.append_assoc] using heq)
      have hquoted := congrArg (fun s => Text.quotedBody? (Text.dropBlanks s)) hgap
      simpa only [Text.dropBlanks_gap_quoted, Text.quotedBody?_text, Option.some.injEq,
        Prod.mk.injEq] using hquoted
  | importCall b =>
    cases h' with
    | importCall b' =>
      rw [List.append_assoc, List.append_assoc] at heq
      exact Brackets.unique (List.append_cancel_left heq)
  | requireCall b =>
    cases h' with
    | requireCall b' =>
      rw [List.append_assoc, List.append_assoc] at heq
      exact Brackets.unique (List.append_cancel_left heq)

theorem At.unique {line pre t post pre' t' post' : Text} (h : form.At line pre t post)
    (h' : form.At line pre' t' post') (hlength : pre.length = pre'.length) :
    pre = pre' ∧ t = t' ∧ post = post' := by
  obtain ⟨s, hs, hline⟩ := h.spelled
  obtain ⟨s', hs', hline'⟩ := h'.spelled
  obtain ⟨hpre, hrest⟩ := List.append_inj (hline.symm.trans hline') hlength
  exact ⟨hpre, hs.unique hs' hrest⟩

theorem places_iff {line pre t : Text} :
    Text.Places form.read? false line pre t ↔ ∃ post, form.At line pre t post := by
  rw [Text.Places, Text.startsWord_false]
  constructor
  · intro h
    obtain ⟨hstart, rest, hline, hread⟩ := h
    obtain ⟨s, post, hrest, hs⟩ := read?_eq_some_iff.mp hread
    exact ⟨post, hstart, s, hs, hrest ▸ hline⟩
  · intro h
    obtain ⟨post, hstart, s, hs, hline⟩ := h
    exact ⟨hstart, s ++ post, hline, read?_eq_some_iff.mpr ⟨s, post, rfl, hs⟩⟩

theorem read?_nil : form.read? [] = none := by cases form <;> rfl

end Form

/-- A line contributes for a form what stands at the leftmost place of the form, and the
imports of a source are what its lines contribute, line by line and form by form. -/
theorem imports_eq_forms :
    (∀ (form : Form) (line : Text),
      (form.first? line).isSome = true ↔ ∃ pre t post, form.At line pre t post) ∧
    (∀ (form : Form) (line t : Text),
      form.first? line = some t ↔ ∃ pre post, form.At line pre t post ∧
        ∀ pre' t' post', form.At line pre' t' post' → pre.length ≤ pre'.length) ∧
    (∀ (form : Form) (line pre t post pre' t' post' : Text), form.At line pre t post →
      form.At line pre' t' post' → pre.length = pre'.length →
        pre = pre' ∧ t = t' ∧ post = post') ∧
    ∀ source : Text, Language.script.imports source =
      ((Text.lines source).zipIdx 1).flatMap fun l =>
        ([.fromClause, .importCall, .requireCall].filterMap
          fun form : Form => form.first? l.1).map fun t => ⟨t, l.2⟩ := by
  refine ⟨?_, ?_, ?_, fun source => rfl⟩
  · intro form line
    rw [Form.first?, Text.isSome_firstAtWordStart?_iff Form.read?_nil]
    simp only [Form.places_iff]
  · intro form line t
    rw [Form.first?, Text.firstAtWordStart?_eq_some_iff Form.read?_nil, Text.Leads]
    simp only [Form.places_iff, forall_exists_index, exists_and_right]
  · intro form line pre t post pre' t' post' h h' hlength
    exact h.unique h' hlength

example : Language.script.imports "xfrom 'a'; import('b' + c); import ( \"d' )".toList =
    [⟨['d'], 1⟩] := by decide

end Specifier
end Import
end ModuleBoundary
