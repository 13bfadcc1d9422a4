/-
Functions and constants in `use` statements.

A keyword makes an import one of functions or of constants.  Behind `use` it stands for the
whole statement, which then names no type and is skipped.  In front of a member of a group it
stands for that member, and is not looked for there: the member is read with the keyword as the
beginning of its name (`withoutAlias_member`).  So what is read of a file (`Statement.readings`)
is the types it imports (`Statement.types`) if and only if no group that is read has a member
with a keyword of its own (`imports_mixed`).
-/
import ModuleBoundary.Boundary
import ModuleBoundary.Proofs.Import.Statement

namespace ModuleBoundary
namespace Import
namespace Use
namespace Mixed

open Text (Gap)

/-- The keyword of functions or of constants.  A space stands right behind it. -/
structure Keyword where
  word : Name
  gap : Gap
  other : word.text ∈ ["function".toList, "const".toList] := by decide

namespace Keyword

def text (k : Keyword) : Text := k.word.text ++ ' ' :: k.gap.text

def front (k : Option Keyword) : Text := (k.map text).getD []

end Keyword

/-- A member of a group.  No type, function or constant has the name `as`. -/
structure Member where
  before : Gap
  keyword : Option Keyword
  item : Item
  behind : Gap
  named : Text.lower item.name.text ≠ "as".toList := by decide

namespace Member

def text (m : Member) : Text :=
  m.before.text ++ ((Keyword.front m.keyword ++ m.item.text) ++ m.behind.text)

def reading (m : Member) : Text := Keyword.front m.keyword ++ m.item.name.text

end Member

inductive Clause
  | single (item : Item)
  | group (front : Name) (members : List Member) (comma : Option Gap)

namespace Clause

def text : Clause → Text
  | single item => item.text
  | group front members comma => braced front (members.map Member.text) comma

def first : Clause → Name
  | single item => item.name
  | group front _ _ => front

def members : Clause → List Member
  | single _ => []
  | group _ members _ => members

def types : Clause → List Text
  | single item => [item.name.text]
  | group front members _ =>
    (members.filter fun m => m.keyword.isNone).map fun m => front.text ++ m.item.name.text

def readings : Clause → List Text
  | single item => [item.name.text]
  | group front members _ => members.map fun m => front.text ++ m.reading

end Clause

structure Statement where
  indent : Gap
  spaces : Nat
  keyword : Option Keyword
  clause : Clause
  gap : Gap
  behind : Text
  notOther : keyword.isSome = true ∨ clause.first.text ∉ ["function".toList, "const".toList] := by
    decide

namespace Statement

def text (s : Statement) : Text :=
  s.indent.text ++ ("use ".toList ++ (List.replicate s.spaces ' ' ++
    ((Keyword.front s.keyword ++ s.clause.text) ++ (s.gap.text ++ ';' :: s.behind))))

def types (s : Statement) : List Text :=
  match s.keyword with
  | some _ => []
  | none => s.clause.types

def readings (s : Statement) : List Text :=
  match s.keyword with
  | some _ => []
  | none => s.clause.readings

end Statement

/-! ## Keywords -/

namespace Keyword

variable (k : Keyword) {s : Text}

theorem isSolid_front_append (k : Option Keyword) (hs : Text.IsSolid s) :
    Text.IsSolid (front k ++ s) := by
  cases k with
  | none => exact hs
  | some k =>
    have htext : front (some k) ++ s = k.word.text ++ ((' ' :: k.gap.text) ++ s) := by
      simp [front, text]
    rw [htext]
    exact k.word.isSolid.append hs (' ' :: k.gap.text)

theorem not_mem_front (k : Option Keyword) {c : Char} (hc : c ∈ cuts) : c ∉ front k := by
  have hblank := isBlank_of_mem_cuts hc
  have hspace : c ≠ ' ' := by
    intro heq
    rw [heq] at hblank
    exact absurd hblank (by decide)
  cases k with
  | none => exact List.not_mem_nil
  | some k =>
    show c ∉ k.text
    simp [text, k.word.not_mem_of_mem_cuts hc, hspace, k.gap.not_mem hblank]

theorem isOther_text_append (s : Text) : isOther (k.text ++ s) = true := by
  have htext : k.text ++ s = (k.word.text ++ [' ']) ++ (k.gap.text ++ s) := by simp [text]
  have hprefix : (k.word.text ++ [' ']).isPrefixOf (k.text ++ s) = true := by
    rw [htext]
    exact List.isPrefixOf_iff_prefix.mpr (List.prefix_append _ _)
  rw [isOther, Bool.or_eq_true]
  rcases List.mem_pair.mp k.other with hword | hword
  · rw [hword] at hprefix
    exact Or.inl hprefix
  · rw [hword] at hprefix
    exact Or.inr hprefix

end Keyword

/-! ## Members -/

/-- What stands in front of a name begins no alias with it. -/
theorem afterAs?_item (i : Item) (hnamed : Text.lower i.name.text ≠ "as".toList) (c : Char) :
    afterAs? (c :: i.text) = none := by
  rw [afterAs?, if_neg]
  intro hlower
  have htake : Text.lower (i.text.take 3) = "as ".toList := (List.cons.inj hlower).2
  obtain ⟨a, more, hfirst, ha, hmore⟩ := List.map_eq_cons_iff.mp htake
  obtain ⟨s, last, hsecond, hs, hlast⟩ := List.map_eq_cons_iff.mp hmore
  obtain ⟨blank, none, hthird, hblank, hnone⟩ := List.map_eq_cons_iff.mp hlast
  have htext : i.text = [a, s] ++ blank :: i.text.drop 3 := by
    rw [List.map_eq_nil_iff.mp hnone] at hthird
    have hsplit := (List.take_append_drop 3 i.text).symm
    rw [hfirst, hsecond, hthird] at hsplit
    exact hsplit
  -- The letters belong to the name and the blank does not.
  have hletters : ∀ d ∈ [a, s], isNameChar d = true := by
    have ha' := (Text.toLower_eq_iff (by decide)).mp ha
    have hs' := (Text.toLower_eq_iff (by decide)).mp hs
    intro d hd
    rcases List.mem_pair.mp hd with rfl | rfl
    · rcases ha' with rfl | rfl <;> decide
    · rcases hs' with rfl | rfl <;> decide
  have hend : (blank :: i.text.drop 3).takeWhile isNameChar = [] := by
    apply List.takeWhile_cons_of_neg
    rw [Text.eq_of_toLower_eq_space hblank]
    decide
  have hnil : ([] : Text).takeWhile isNameChar = [] := rfl
  have hname : i.name.text = [a, s] := by
    rw [← i.takeWhile_text hnil, List.append_nil, htext, List.takeWhile_append_of_pos hletters,
      hend, List.append_nil]
  apply hnamed
  show i.name.text.map Char.toLower = _
  rw [hname, List.map_cons, List.map_cons, ha, hs]
  rfl

namespace Member

variable (m : Member)

theorem not_mem_of_mem_cuts {c : Char} (hc : c ∈ cuts) : c ∉ m.text := by
  have hblank := isBlank_of_mem_cuts hc
  simp [text, m.before.not_mem hblank, Keyword.not_mem_front m.keyword hc,
    m.item.not_mem_of_mem_cuts hc, m.behind.not_mem hblank]

theorem cutAt?_front : Text.cutAt? afterAs? (Keyword.front m.keyword ++ m.item.text) =
    (Text.cutAt? afterAs? m.item.text).map fun r => (Keyword.front m.keyword ++ r.1, r.2) := by
  cases m.keyword with
  | none =>
    show Text.cutAt? afterAs? m.item.text = _
    cases Text.cutAt? afterAs? m.item.text <;> rfl
  | some k =>
    have hblank : ∀ c ∈ ' ' :: k.gap.text, Text.isBlank c = true :=
      List.forall_mem_cons.mpr ⟨by decide, k.gap.blank⟩
    have htext : Keyword.front (some k) = k.word.text ++ ' ' :: k.gap.text := rfl
    rw [htext, List.append_assoc, k.word.cutAt?_append,
      cutAt?_blanks hblank (afterAs?_item m.item m.named), Option.map_map]
    simp only [Function.comp_def, List.append_assoc]

end Member

/-- The keyword of a member becomes a part of what is read. -/
theorem withoutAlias_member (m : Member) : withoutAlias m.text = m.reading :=
  withoutAlias_append m.item (fun _ => Keyword.isSolid_front_append m.keyword) m.cutAt?_front
    m.before m.behind

/-! ## Statements -/

namespace Clause

variable (clause : Clause)

theorem isSolid : Text.IsSolid clause.text := by
  cases clause with
  | single item => exact item.isSolid
  | group front members comma => exact isSolid_braced front comma

theorem semicolon_not_mem : ';' ∉ clause.text := by
  have hcut : ';' ∈ cuts := by decide
  cases clause with
  | single item => exact item.not_mem_of_mem_cuts hcut
  | group front members comma =>
    apply semicolon_not_mem_braced front comma
    exact List.forall_mem_map.mpr fun m _ => m.not_mem_of_mem_cuts hcut

theorem takeWhile_text {rest : Text} (hrest : rest.takeWhile isNameChar = []) :
    (clause.text ++ rest).takeWhile isNameChar = clause.first.text := by
  cases clause with
  | single item => exact item.takeWhile_text hrest
  | group front members comma => exact takeWhile_braced front (members.map Member.text) comma rest

theorem bodyTargets_text : bodyTargets clause.text = clause.readings := by
  cases clause with
  | single item => exact bodyTargets_item item
  | group front members comma =>
    have hparts : ∀ part ∈ members.map Member.text, ',' ∉ part :=
      List.forall_mem_map.mpr fun m _ => m.not_mem_of_mem_cuts (by decide)
    have hne : ∀ m : Member, m.reading ≠ [] := fun m =>
      (Keyword.isSolid_front_append m.keyword m.item.name.isSolid).ne_nil
    show bodyTargets (braced front (members.map Member.text) comma) = _
    rw [bodyTargets_braced front hparts comma]
    exact filterMap_behindPrefix front.text members withoutAlias_member hne

/-- No member with a keyword is a type, and each of them is read. -/
theorem readings_eq_types_iff :
    clause.readings = clause.types ↔ ∀ m ∈ clause.members, m.keyword = none := by
  cases clause with
  | single item => exact iff_of_true rfl fun m hm => absurd hm List.not_mem_nil
  | group front members comma =>
    constructor
    · intro heq m hm
      have hlength := congrArg List.length heq
      simp only [readings, types, List.length_map] at hlength
      exact Option.isNone_iff_eq_none.mp (List.length_filter_eq_length_iff.mp hlength.symm m hm)
    · intro hnone
      have hall : (members.filter fun m => m.keyword.isNone) = members :=
        List.filter_eq_self.mpr fun m hm => Option.isNone_iff_eq_none.mpr (hnone m hm)
      show members.map _ = (members.filter _).map _
      rw [hall]
      apply List.map_congr_left
      intro m hm
      rw [Member.reading, hnone m hm]
      rfl

end Clause

theorem targets_statement (s : Statement) : targets s.text = s.readings := by
  have hsolid := Keyword.isSolid_front_append s.keyword s.clause.isSolid
  have hsemicolon : ';' ∉ Keyword.front s.keyword ++ s.clause.text := by
    rw [List.mem_append, not_or]
    exact ⟨Keyword.not_mem_front s.keyword (by decide), s.clause.semicolon_not_mem⟩
  rw [Statement.text, targets_use hsolid hsemicolon, Statement.readings]
  cases hkeyword : s.keyword with
  | some k =>
    show (if isOther ((k.text ++ s.clause.text) ++ _) = true then [] else _) = []
    rw [List.append_assoc, k.isOther_text_append, if_pos rfl]
  | none =>
    have hother : isOther (s.clause.text ++ (s.gap.text ++ ';' :: Text.trimEnd s.behind)) =
        false := by
      apply isOther_eq_false
      rw [s.clause.takeWhile_text (takeWhile_gap s.gap (by decide) _)]
      exact s.notOther.resolve_left (by simp [hkeyword])
    show (if isOther (s.clause.text ++ _) = true then [] else bodyTargets s.clause.text) = _
    rw [hother, s.clause.bodyTargets_text]
    rfl

theorem readings_eq_types_iff (s : Statement) :
    s.readings = s.types ↔ s.keyword.isSome = true ∨ ∀ m ∈ s.clause.members, m.keyword = none := by
  rw [Statement.readings, Statement.types]
  cases s.keyword with
  | some k => simp
  | none => simp [s.clause.readings_eq_types_iff]

/-! ## Files -/

section
variable {α : Type} {f g : α → List Text}

def numbered (names : α → List Text) (lines : List α) (first : Nat) : List Import :=
  (lines.zipIdx first).flatMap fun l => (names l.1).map fun name => ⟨name, l.2⟩

theorem numbered_cons (names : α → List Text) (line : α) (lines : List α) (first : Nat) :
    numbered names (line :: lines) first =
      (names line).map (fun name => ⟨name, first⟩) ++ numbered names lines (first + 1) := by
  rw [numbered, List.zipIdx_cons, List.flatMap_cons, numbered]

theorem le_line_of_mem_numbered {names : α → List Text} {lines : List α} {first : Nat} {i : Import}
    (h : i ∈ numbered names lines first) : first ≤ i.line := by
  obtain ⟨l, hl, hi⟩ := List.mem_flatMap.mp h
  obtain ⟨name, _, heq⟩ := List.mem_map.mp hi
  rw [← heq]
  exact List.le_snd_of_mem_zipIdx hl

/-- The names on a line are found by its number. -/
theorem filter_numbered_cons (names : α → List Text) (line : α) (lines : List α) (first : Nat) :
    (numbered names (line :: lines) first).filter (fun i => decide (i.line = first)) =
      (names line).map fun name => ⟨name, first⟩ := by
  have hline : ∀ i ∈ (names line).map fun name => (⟨name, first⟩ : Import),
      decide (i.line = first) = true :=
    List.forall_mem_map.mpr fun name _ => decide_eq_true rfl
  have hrest : ∀ i ∈ numbered names lines (first + 1), ¬ decide (i.line = first) = true := by
    intro i hi heq
    have hle := le_line_of_mem_numbered hi
    have hfirst := of_decide_eq_true heq
    omega
  rw [numbered_cons, List.filter_append, List.filter_eq_self.mpr hline,
    List.filter_eq_nil_iff.mpr hrest, List.append_nil]

theorem numbered_eq_iff (lines : List α) (first : Nat) :
    numbered f lines first = numbered g lines first ↔ ∀ line ∈ lines, f line = g line := by
  induction lines generalizing first with
  | nil => simp [numbered]
  | cons line lines ih =>
    rw [List.forall_mem_cons, ← ih (first + 1)]
    constructor
    · intro heq
      have hline := congrArg (List.filter fun i => decide (i.line = first)) heq
      rw [filter_numbered_cons, filter_numbered_cons] at hline
      have hinj : Function.Injective fun name : Text => (⟨name, first⟩ : Import) :=
        fun _ _ h => congrArg Import.target h
      have hnames := List.map_injective_iff.mpr hinj hline
      rw [numbered_cons, numbered_cons, hnames, List.append_cancel_left_eq] at heq
      exact ⟨hnames, heq⟩
    · intro h
      rw [numbered_cons, numbered_cons, h.1, h.2]

end

/-- A file is read right if and only if each keyword stands where it is looked for. -/
theorem imports_mixed (statements : List Statement) (hfeed : ∀ s ∈ statements, '\n' ∉ s.text) :
    Language.php.imports (Text.join ['\n'] (statements.map Statement.text)) =
        numbered Statement.readings statements 1 ∧
      (Language.php.imports (Text.join ['\n'] (statements.map Statement.text)) =
          numbered Statement.types statements 1 ↔
        ∀ s ∈ statements, s.keyword.isSome = true ∨ ∀ m ∈ s.clause.members, m.keyword = none) := by
  have htexts : ∀ text ∈ statements.map Statement.text, '\n' ∉ text := List.forall_mem_map.mpr hfeed
  have hread : Language.php.imports (Text.join ['\n'] (statements.map Statement.text)) =
      numbered Statement.readings statements 1 := by
    show ofText targets _ = _
    rw [ofText, ofLines_lines_join endsFreely_targets htexts, ofLines, List.zipIdx_map,
      List.flatMap_map, numbered]
    simp only [Prod.map_fst, Prod.map_snd, targets_statement, id]
  refine ⟨hread, ?_⟩
  rw [hread, numbered_eq_iff]
  exact forall₂_congr fun s _ => readings_eq_types_iff s

/-- A statement of a function, and a group that imports a function, a constant and a type. -/
def helperLines : List Statement :=
  [{ indent := .spaces 0
     spaces := 1
     keyword := some { word := .mk "function".toList, gap := .spaces 0 }
     clause := .single { name := .mk "Domains\\User\\helper".toList, rename := none }
     gap := .spaces 0
     behind := [] },
   { indent := .spaces 4
     spaces := 0
     keyword := none
     clause := .group (.mk "Domains\\User\\".toList)
       [{ before := .spaces 0
          keyword := some { word := .mk "function".toList, gap := .spaces 1 }
          item :=
            { name := .mk "helper".toList
              rename := some (.mk (.spaces 0) "As".toList (.spaces 0) (.mk "h".toList)) }
          behind := .spaces 0 },
        { before := .spaces 1
          keyword := some { word := .mk "const".toList, gap := .spaces 0 }
          item := { name := .mk "LIMIT".toList, rename := none }
          behind := .spaces 1 },
        { before := .spaces 1
          keyword := none
          item := { name := .mk "Service".toList, rename := none }
          behind := .spaces 0 }]
       none
     gap := .spaces 0
     behind := " // once".toList }]

theorem imports_mixed_helperLines :
    (∀ s ∈ helperLines, '\n' ∉ s.text) ∧
      Text.join ['\n'] (helperLines.map Statement.text) =
        ("use  function Domains\\User\\helper;\n" ++
          "    use Domains\\User\\\x7bfunction  helper As h, const LIMIT , Service\x7d; // once").toList ∧
      Language.php.imports (Text.join ['\n'] (helperLines.map Statement.text)) =
        [⟨"Domains\\User\\function  helper".toList, 2⟩, ⟨"Domains\\User\\const LIMIT".toList, 2⟩,
          ⟨"Domains\\User\\Service".toList, 2⟩] ∧
      numbered Statement.types helperLines 1 = [⟨"Domains\\User\\Service".toList, 2⟩] ∧
      Language.php.imports (Text.join ['\n'] (helperLines.map Statement.text)) ≠
        numbered Statement.types helperLines 1 := by
  have hfeed : ∀ s ∈ helperLines, '\n' ∉ s.text := by decide
  obtain ⟨hread, hright⟩ := imports_mixed helperLines hfeed
  refine ⟨hfeed, by decide, ?_, by decide, ?_⟩
  · rw [hread]
    decide
  · rw [ne_eq, hright]
    decide

/-- The imports of a file, and with them what is reported, need not be those of its types. -/
theorem not_forall_types :
    (¬ ∀ statements : List Statement, (∀ s ∈ statements, '\n' ∉ s.text) →
      Language.php.imports (Text.join ['\n'] (statements.map Statement.text)) =
        numbered Statement.types statements 1) ∧
    ¬ ∀ (source : Identity) (statements : List Statement), (∀ s ∈ statements, '\n' ∉ s.text) →
      (Violation.ofImports (.ofRoot none) "a.php" source
          (Language.php.imports (Text.join ['\n'] (statements.map Statement.text)))).length =
        (Violation.ofImports (.ofRoot none) "a.php" source
          (numbered Statement.types statements 1)).length := by
  have hfeed : ∀ s ∈ helperLines, '\n' ∉ s.text := by decide
  constructor
  · intro h
    exact absurd (h helperLines hfeed) (by decide)
  · intro h
    exact absurd (h (.inModule "billing".toList false) helperLines hfeed) (by decide +kernel)

end Mixed
end Use
end Import
end ModuleBoundary
