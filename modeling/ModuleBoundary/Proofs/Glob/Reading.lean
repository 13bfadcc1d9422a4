/-
Patterns that are written behind a directory.

Characters that mean nothing else stand for themselves, so a directory that is spelled with them
(`IsPlainText`) reads as one literal component for each of its segments, and the components of the
pattern come behind these (`ofText?_append`).  No literal component has a slash in it, and none is
empty if no two slashes of the pattern follow each other (`isSegment_of_below?`).
-/
import ModuleBoundary.Glob.Pattern
import ModuleBoundary.Path
import ModuleBoundary.Proofs.Text.Encoding
import ModuleBoundary.Proofs.Text.Segments

namespace ModuleBoundary
namespace Glob

def IsPlainText (s : Text) : Prop := ∀ c ∈ s, c ≠ '?' ∧ c ≠ '*' ∧ c ≠ '['

instance (s : Text) : Decidable (IsPlainText s) := List.decidableBAll _ s

/-! ## Tokens -/

theorem tokensFrom_plain (fuel : Nat) (atStart : Bool) {c : Char} (h : c ≠ '?' ∧ c ≠ '*' ∧ c ≠ '[')
    (s : Text) : tokensFrom (fuel + 1) atStart (c :: s) =
      (tokensFrom fuel (c = '/') s).map (.char c :: ·) := by
  rw [tokensFrom.eq_def]
  simp only [h.1, h.2.1, h.2.2, if_false]

theorem tokensFrom_nil (fuel : Nat) (atStart : Bool) : tokensFrom fuel atStart [] = some [] := by
  cases fuel <;> rfl

theorem tokens?_of_plain {s : Text} (hs : IsPlainText s) : tokens? s = some (s.map .char) := by
  have hfrom : ∀ atStart, tokensFrom s.length atStart s = some (s.map .char) := by
    induction s with
    | nil => exact tokensFrom_nil 0
    | cons c s ih =>
      intro atStart
      rw [List.length_cons, tokensFrom_plain _ _ (hs c List.mem_cons_self),
        ih fun d hd => hs d (List.mem_cons_of_mem c hd)]
      rfl
  exact hfrom true

/-- Behind a slash the reading starts anew. -/
theorem tokens?_append {front : Text} (hfront : IsPlainText front) (s : Text) :
    tokens? (front ++ '/' :: s) = (tokens? s).map fun ts => front.map .char ++ .char '/' :: ts := by
  have hfrom : ∀ atStart, tokensFrom (front ++ '/' :: s).length atStart (front ++ '/' :: s) =
      (tokens? s).map fun ts => front.map .char ++ .char '/' :: ts := by
    induction front with
    | nil =>
      intro atStart
      have hslash : '/' ≠ '?' ∧ '/' ≠ '*' ∧ '/' ≠ '[' := by decide
      exact tokensFrom_plain s.length atStart hslash s
    | cons c front ih =>
      intro atStart
      rw [List.cons_append, List.length_cons, tokensFrom_plain _ _ (hfront c List.mem_cons_self),
        ih fun d hd => hfront d (List.mem_cons_of_mem c hd), Option.map_map]
      rfl
  exact hfrom true

theorem ne_char_of_takeClass {s rest : Text} {token : Token} (h : takeClass s = some (token, rest))
    (d : Char) : token ≠ .char d := by
  rintro rfl
  unfold takeClass at h
  split at h <;> simp [Option.map_eq_some_iff] at h

/-- Another character is read as something else than a character. -/
theorem head_of_tokensFrom {fuel : Nat} {atStart : Bool} {c : Char} {s : Text} {ts : List Token}
    (hc : ¬ (c ≠ '?' ∧ c ≠ '*' ∧ c ≠ '[')) (h : tokensFrom (fuel + 1) atStart (c :: s) = some ts) :
    ∃ token rest, ts = token :: rest ∧ ∀ d, token ≠ .char d := by
  have hmap : ∀ {token : Token} {o : Option (List Token)}, (∀ d, token ≠ .char d) →
      o.map (token :: ·) = some ts → ∃ token rest, ts = token :: rest ∧ ∀ d, token ≠ .char d := by
    intro token o htoken ho
    obtain ⟨rest, -, rfl⟩ := Option.map_eq_some_iff.mp ho
    exact ⟨token, rest, rfl, htoken⟩
  rw [tokensFrom.eq_def] at h
  have hcases : c = '?' ∨ c = '*' ∨ c = '[' := by tauto
  rcases hcases with rfl | rfl | rfl
  · exact hmap (by simp) h
  · simp only [if_neg (show '*' ≠ '?' by decide), if_true] at h
    split at h
    · exact absurd h (by simp)
    · split at h
      · split at h
        · exact ⟨.anyDirs, [], (Option.some.inj h).symm, by simp⟩
        · exact hmap (by simp) h
        · exact absurd h (by simp)
      · exact absurd h (by simp)
    · exact hmap (by simp) h
  · simp only [if_neg (show '[' ≠ '?' by decide), if_neg (show '[' ≠ '*' by decide), if_true] at h
    split at h
    · exact absurd h (by simp)
    · next token rest hclass => exact hmap (ne_char_of_takeClass hclass) h

/-- A text that is read as characters only is the text of these characters. -/
theorem eq_of_tokensFrom {fuel : Nat} {atStart : Bool} {s name : Text}
    (h : tokensFrom fuel atStart s = some (name.map .char)) : s = name := by
  induction fuel generalizing atStart s name with
  | zero =>
    cases s with
    | nil => simpa [tokensFrom] using h
    | cons c s => exact absurd h (by simp [tokensFrom])
  | succ fuel ih =>
    cases s with
    | nil => simpa [tokensFrom] using h
    | cons c s =>
      by_cases hc : c ≠ '?' ∧ c ≠ '*' ∧ c ≠ '['
      · rw [tokensFrom_plain fuel atStart hc, Option.map_eq_some_iff] at h
        obtain ⟨ts, hts, hcons⟩ := h
        cases name with
        | nil => exact absurd hcons (by simp)
        | cons d name =>
          obtain ⟨hcd, htail⟩ := List.cons.inj hcons
          rw [Token.char.inj hcd, ih (hts.trans (congrArg some htail))]
      · obtain ⟨token, rest, hts, htoken⟩ := head_of_tokensFrom hc h
        cases name with
        | nil => exact absurd hts (by simp)
        | cons d name => exact absurd (List.cons.inj hts).1.symm (htoken d)

/-! ## Components -/

theorem literal?_eq_some_iff {ts : List Token} {s : Text} :
    literal? ts = some s ↔ ts = s.map .char := by
  rw [literal?, mapM_eq_some_iff]
  constructor
  · intro h
    induction ts generalizing s with
    | nil =>
      cases s with
      | nil => rfl
      | cons c s => exact absurd h (by simp)
    | cons t ts ih =>
      cases s with
      | nil => exact absurd h (by simp)
      | cons c s =>
        obtain ⟨ht, hts⟩ := List.cons.inj h
        cases t with
        | char d => rw [Option.some.inj ht, ih hts, List.map_cons]
        | _ => exact absurd ht (by simp)
  · rintro rfl
    rw [List.map_map]
    rfl

theorem ofTokens_chars (s : Text) : Part.ofTokens (s.map .char) = .literal s := by
  rw [Part.ofTokens, literal?_eq_some_iff.mpr rfl]

theorem eq_of_ofTokens {ts : List Token} {s : Text} (h : Part.ofTokens ts = .literal s) :
    ts = s.map .char := by
  rw [Part.ofTokens] at h
  cases hliteral : literal? ts with
  | some name =>
    rw [hliteral] at h
    rw [← Part.literal.inj h]
    exact literal?_eq_some_iff.mp hliteral
  | none =>
    rw [hliteral] at h
    split at h
    · next heq => exact absurd heq (by simp)
    · split at h <;> exact absurd h (by simp)

theorem mergeDirs_literals (names : List Text) (parts : List Part) :
    mergeDirs (names.map .literal ++ parts) = names.map .literal ++ mergeDirs parts := by
  induction names with
  | nil => rfl
  | cons name names ih =>
    rw [List.map_cons, List.cons_append, List.cons_append, ← ih, mergeDirs]
    simp

theorem mem_of_mem_mergeDirs {parts : List Part} {part : Part} (h : part ∈ mergeDirs parts) :
    part ∈ parts := by
  fun_induction mergeDirs parts with
  | case1 rest ih => exact List.mem_cons_of_mem _ (ih h)
  | case2 p rest _ ih =>
    rcases List.mem_cons.mp h with rfl | h
    · exact List.mem_cons_self
    · exact List.mem_cons_of_mem p (ih h)
  | case3 => exact h

theorem componentTexts_append (front s : Text) :
    componentTexts (front ++ '/' :: s) = front.splitOn '/' ++ componentTexts s := by
  have hne : s.splitOn '/' ≠ [] := List.splitOn_ne_nil _ _
  have hlast : (front.splitOn '/' ++ s.splitOn '/').getLast? = (s.splitOn '/').getLast? :=
    List.getLast?_append_of_ne_nil _ hne
  rw [componentTexts, componentTexts, List.splitOn_append_cons_self]
  simp only [hlast]
  split
  · rw [List.dropLast_append_of_ne_nil hne]
  · rfl

/-! ## Behind a directory -/

/-- The components that a pattern adds to those of a directory, and whether it stands for
directories only. -/
def below? (glob : Text) : Option (List Part × Bool) := do
  let _ ← tokens? glob
  let parts ← (componentTexts glob).mapM fun c => (tokens? c).map Part.ofTokens
  some (mergeDirs parts, ('/' :: glob).getLast? = some '/')

theorem ofText?_append {front : Text} (hfront : IsPlainText front) (hne : front ≠ [])
    (habs : front.head? ≠ some '/') (glob : Text) :
    ofText? (front ++ '/' :: glob) = (below? glob).map fun below =>
      ⟨false, (front.splitOn '/').map .literal ++ below.1, below.2⟩ := by
  have hhead : (front ++ '/' :: glob).head? ≠ some '/' := by
    rw [List.head?_append_of_ne_nil _ hne]
    exact habs
  have hliterals : (front.splitOn '/').mapM (fun c => (tokens? c).map Part.ofTokens) =
      some ((front.splitOn '/').map .literal) := by
    rw [mapM_eq_some_iff, List.map_map]
    refine List.map_congr_left fun c hc => ?_
    have hplain : IsPlainText c := fun d hd => hfront d ((Text.mem_splitOn hc).1.subset hd)
    rw [tokens?_of_plain hplain, Option.map_some, ofTokens_chars]
    rfl
  have hlast : (front ++ '/' :: glob).getLast? = ('/' :: glob).getLast? :=
    List.getLast?_append_of_ne_nil _ (List.cons_ne_nil _ _)
  rw [ofText?, below?, tokens?_append hfront]
  simp only [hhead, hlast]
  cases tokens? glob with
  | none => rfl
  | some ts =>
    simp [componentTexts_append, List.mapM_append, hliterals, hne]
    cases (componentTexts glob).mapM fun c => (tokens? c).map Part.ofTokens with
    | none => rfl
    | some parts => simp [mergeDirs_literals]

def IsSegment (s : Bytes) : Prop := s ≠ [] ∧ slash ∉ s

theorem isSegment_encode {s : Text} (hne : s ≠ []) (hslash : '/' ∉ s) :
    IsSegment (Utf8.encode s) := by
  refine ⟨fun hnil => hne (Utf8.encode_injective (b := []) hnil), fun hmem => hslash ?_⟩
  exact (Utf8.mem_encode_iff (c := '/') (by decide)).mp hmem

theorem nil_not_mem_componentTexts {glob : Text} (habs : glob.head? ≠ some '/')
    (hslashes : ¬ ['/', '/'] <:+: glob) : [] ∉ componentTexts glob := by
  have hinner : [] ∉ (glob.splitOn '/').tail.dropLast := by
    intro h
    exact hslashes ((Text.isInfix_between_iff List.not_mem_nil).mpr h)
  have hglob : ['/'].intercalate (glob.splitOn '/') = glob := List.intercalate_splitOn '/'
  rw [componentTexts]
  cases hsegments : glob.splitOn '/' with
  | nil => exact absurd hsegments (List.splitOn_ne_nil _ _)
  | cons first behind =>
    by_cases hbehind : behind = []
    · rw [hbehind]
      cases first <;> simp
    rw [hsegments, List.tail_cons] at hinner
    have hfirst : first ≠ [] := by
      rintro rfl
      apply habs
      rw [← hglob, hsegments, List.intercalate_cons_of_ne_nil hbehind]
      rfl
    have hlast := List.dropLast_concat_getLast hbehind
    simp only [List.getLast?_cons_of_ne_nil hbehind]
    split
    · rw [List.dropLast_cons_of_ne_nil hbehind, List.mem_cons, not_or]
      exact ⟨hfirst.symm, hinner⟩
    · next h =>
      have hne : behind.getLast hbehind ≠ [] := by
        intro heq
        exact h (by rw [List.getLast?_eq_some_getLast hbehind, heq])
      rw [List.mem_cons, not_or, ← hlast, List.mem_append, not_or, List.mem_singleton]
      exact ⟨hfirst.symm, hinner, hne.symm⟩

theorem isSegment_of_below? {glob : Text} {parts : List Part} {onlyDirs : Bool}
    (habs : glob.head? ≠ some '/') (hslashes : ¬ ['/', '/'] <:+: glob)
    (h : below? glob = some (parts, onlyDirs)) {s : Text} (hs : .literal s ∈ parts) :
    IsSegment (Utf8.encode s) := by
  simp only [below?, Option.bind_eq_bind, Option.bind_eq_some_iff, Option.some.injEq, Prod.mk.injEq]
    at h
  obtain ⟨-, -, read, hread, rfl, -⟩ := h
  have hpart : some (.literal s) ∈ read.map some :=
    List.mem_map_of_mem (mem_of_mem_mergeDirs hs)
  rw [← mapM_eq_some_iff.mp hread] at hpart
  obtain ⟨c, hc, hliteral⟩ := List.mem_map.mp hpart
  obtain ⟨ts, hts, hpart⟩ := Option.map_eq_some_iff.mp hliteral
  -- The component is read as characters only, so it is the literal itself.
  obtain rfl : c = s := eq_of_tokensFrom (hts.trans (congrArg some (eq_of_ofTokens hpart)))
  refine isSegment_encode (fun hnil => nil_not_mem_componentTexts habs hslashes (hnil ▸ hc)) ?_
  have hsegment : c ∈ glob.splitOn '/' := by
    rw [componentTexts] at hc
    split at hc
    · exact List.dropLast_subset _ hc
    · exact hc
  exact (Text.mem_splitOn hsegment).2

end Glob
end ModuleBoundary
