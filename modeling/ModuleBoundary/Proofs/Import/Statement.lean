/-
`use` statements as they are written.

`Line.text` spells a line from its parts: a statement with its blanks, its names and aliases
and what stands behind its semicolon, or any line that is no `use` line.  Reading finds the
names again and nothing else (`imports_join_text`).  Every step of the reading is undone by
one step of the spelling, and what makes the steps meet is that a name has no blank and none
of the characters at which a statement is cut (`isNameChar`).
-/
import ModuleBoundary.Proofs.Import.Alias
import ModuleBoundary.Proofs.Import.Numbering
import ModuleBoundary.Proofs.Text.Parts

namespace ModuleBoundary

namespace Import
namespace Use

open Text (Gap)

/-! ## Parts of a statement -/

def cuts : List Char := [';', ',', '{', '}']

/-- A name holds no blank and nothing at which a statement is cut. -/
def isNameChar (c : Char) : Bool := !Text.isBlank c && !cuts.contains c

structure Name where
  text : Text
  ne_nil : text ≠ [] := by decide
  chars : ∀ c ∈ text, isNameChar c = true := by exact List.all_eq_true.mp (by decide)

/-- The keyword of an alias, in any case, and the name behind it.  A space stands right on each
side of the keyword; more blanks may stand farther off. -/
structure Alias where
  before : Gap
  keyword : Text
  behind : Gap
  name : Name
  lower : Text.lower keyword = "as".toList := by decide

def Alias.text (a : Alias) : Text :=
  a.before.text ++ ' ' :: (a.keyword ++ ' ' :: (a.behind.text ++ a.name.text))

structure Item where
  name : Name
  rename : Option Alias

def Item.text (i : Item) : Text := i.name.text ++ (i.rename.map Alias.text).getD []

structure Member where
  before : Gap
  item : Item
  behind : Gap

def Member.text (m : Member) : Text := m.before.text ++ (m.item.text ++ m.behind.text)

inductive Clause
  | single (item : Item)
  /-- A prefix and its members.  The last member may have a comma behind it, and the comma
  blanks behind it. -/
  | group (front : Name) (members : List Member) (comma : Option Gap)

namespace Clause

def inner (members : List Member) (comma : Option Gap) : Text :=
  Text.join [','] (members.map Member.text) ++ (comma.map fun gap => ',' :: gap.text).getD []

def text : Clause → Text
  | single item => item.text
  | group front members comma => front.text ++ '{' :: (inner members comma ++ ['}'])

def first : Clause → Name
  | single item => item.name
  | group front _ _ => front

def names : Clause → List Text
  | single item => [item.name.text]
  | group front members _ => members.map fun m => front.text ++ m.item.name.text

end Clause

structure Statement where
  indent : Gap
  /-- The number of spaces behind `use`, without the first one. -/
  spaces : Nat
  clause : Clause
  gap : Gap
  /-- What follows the semicolon. -/
  behind : Text
  notOther : clause.first.text ∉ ["function".toList, "const".toList] := by decide

def Statement.text (s : Statement) : Text :=
  s.indent.text ++ ("use ".toList ++ (List.replicate s.spaces ' ' ++
    (s.clause.text ++ (s.gap.text ++ ';' :: s.behind))))

inductive Line
  | statement (s : Statement)
  | other (text : Text) (h : ¬ "use ".toList <+: Text.trim text)

namespace Line

def text : Line → Text
  | statement s => s.text
  | other text _ => text

def names : Line → List Text
  | statement s => s.clause.names
  | other _ _ => []

end Line

/-! ## Names -/

namespace Name

variable (n : Name) {c : Char}

theorem isBlank_eq_false (hc : c ∈ n.text) : Text.isBlank c = false := by
  have h := n.chars c hc
  rw [isNameChar, Bool.and_eq_true] at h
  simpa using h.1

theorem not_mem_of_isBlank (hc : Text.isBlank c = true) : c ∉ n.text := by
  intro hmem
  rw [n.isBlank_eq_false hmem] at hc
  exact absurd hc (by simp)

theorem not_mem_of_mem_cuts (hc : c ∈ cuts) : c ∉ n.text := by
  intro hmem
  have h := n.chars c hmem
  rw [isNameChar, Bool.and_eq_true] at h
  simp [hc] at h

theorem isSolid : Text.IsSolid n.text :=
  Text.isSolid_of_forall n.ne_nil fun _ => n.isBlank_eq_false

end Name

theorem isBlank_of_mem_cuts {c : Char} (hc : c ∈ cuts) : Text.isBlank c = false := by
  have hall : (cuts.all fun d => !Text.isBlank d) = true := by decide
  simpa using List.all_eq_true.mp hall c hc

/-! ## Aliases -/

/-- In front of another blank no blank begins an alias. -/
theorem cutAt?_blanks {gap s : Text} (hgap : ∀ c ∈ gap, Text.isBlank c = true)
    (hlast : ∀ c, afterAs? (c :: s) = none) :
    Text.cutAt? afterAs? (gap ++ s) =
      (Text.cutAt? afterAs? s).map fun r => (gap ++ r.1, r.2) := by
  apply Text.cutAt?_append
  intro front c behind heq
  cases behind with
  | nil => exact hlast c
  | cons d behind => exact afterAs?_of_isBlank (hgap d (by simp [heq])) c (behind ++ s)

/-- Of the blanks in front of the keyword the last one is where the alias begins. -/
theorem cutAt?_gap (gap : Gap) {s rest : Text} (h : afterAs? (' ' :: s) = some rest) :
    Text.cutAt? afterAs? (gap.text ++ ' ' :: s) = some (gap.text, rest) := by
  rw [cutAt?_blanks gap.blank fun c => afterAs?_of_isBlank (by decide) c s, Text.cutAt?_eq_nil h,
    Option.map_some, List.append_nil]

/-- No alias begins in a name. -/
theorem Name.cutAt?_append (n : Name) (s : Text) :
    Text.cutAt? afterAs? (n.text ++ s) =
      (Text.cutAt? afterAs? s).map fun r => (n.text ++ r.1, r.2) := by
  apply Text.cutAt?_append
  intro front c behind heq
  apply afterAs?_of_ne
  intro hspace
  exact n.not_mem_of_isBlank (c := ' ') (by decide) (by rw [heq, hspace]; simp)

namespace Item

variable (i : Item)

theorem isSolid : Text.IsSolid i.text := by
  cases hrename : i.rename with
  | none =>
    have htext : i.text = i.name.text := by simp [text, hrename]
    rw [htext]
    exact i.name.isSolid
  | some a =>
    have htext : i.text = i.name.text ++
        ((a.before.text ++ ' ' :: (a.keyword ++ ' ' :: a.behind.text)) ++ a.name.text) := by
      simp [text, hrename, Alias.text]
    rw [htext]
    exact i.name.isSolid.append a.name.isSolid _

theorem cutAt?_text :
    Text.cutAt? afterAs? i.text =
      i.rename.map fun a => (i.name.text ++ a.before.text, a.behind.text ++ a.name.text) := by
  rw [text, i.name.cutAt?_append]
  cases i.rename with
  | none => rfl
  | some a =>
    have hkeyword := afterAs?_keyword a.lower (a.behind.text ++ a.name.text)
    show (Text.cutAt? afterAs? a.text).map _ = _
    rw [Alias.text, cutAt?_gap a.before hkeyword]
    rfl

end Item

/-- An item without its alias is its name, whatever blanks stand around it and whatever stands in
front of it, if no alias begins there. -/
theorem withoutAlias_append {front : Text} (i : Item)
    (hsolid : ∀ s, Text.IsSolid s → Text.IsSolid (front ++ s))
    (hcut : Text.cutAt? afterAs? (front ++ i.text) =
      (Text.cutAt? afterAs? i.text).map fun r => (front ++ r.1, r.2)) (before behind : Gap) :
    withoutAlias (before.text ++ ((front ++ i.text) ++ behind.text)) = front ++ i.name.text := by
  have htrim : Text.trim (before.text ++ ((front ++ i.text) ++ behind.text)) = front ++ i.text := by
    rw [Text.trim_append_left before.blank, Text.trim_append_right behind.blank,
      (hsolid _ i.isSolid).trim_eq]
  rw [withoutAlias]
  simp only [htrim, hcut, i.cutAt?_text]
  cases hrename : i.rename with
  | none =>
    show front ++ i.text = front ++ i.name.text
    simp [Item.text, hrename]
  | some a =>
    show Text.trimEnd (front ++ (i.name.text ++ a.before.text)) = front ++ i.name.text
    rw [← List.append_assoc, Text.trimEnd_append a.before.blank,
      (hsolid _ i.name.isSolid).trimEnd_eq]

theorem withoutAlias_item (before behind : Gap) (i : Item) :
    withoutAlias (before.text ++ (i.text ++ behind.text)) = i.name.text := by
  have hcut : Text.cutAt? afterAs? ([] ++ i.text) =
      (Text.cutAt? afterAs? i.text).map fun r => ([] ++ r.1, r.2) := Option.map_id'.symm
  have hsolid : ∀ s, Text.IsSolid s → Text.IsSolid ([] ++ s) := fun _ h => h
  exact withoutAlias_append i hsolid hcut before behind

/-! ## Clauses -/

theorem Item.not_mem_of_mem_cuts (i : Item) {c : Char} (hc : c ∈ cuts) : c ∉ i.text := by
  have hletters : (cuts.all fun d => decide (d ≠ ' ' ∧ d.toLower ∉ "as".toList)) = true := by
    decide
  have hletter := of_decide_eq_true (List.all_eq_true.mp hletters c hc)
  rw [Item.text, List.mem_append, not_or]
  refine ⟨i.name.not_mem_of_mem_cuts hc, ?_⟩
  cases i.rename with
  | none => exact List.not_mem_nil
  | some a =>
    have hkeyword : c ∉ a.keyword := by
      intro hmem
      apply hletter.2
      rw [← a.lower]
      exact List.mem_map_of_mem hmem
    have hblank := isBlank_of_mem_cuts hc
    show c ∉ a.text
    simp [Alias.text, hletter.1, hkeyword, a.before.not_mem hblank,
      a.behind.not_mem hblank, a.name.not_mem_of_mem_cuts hc]

theorem Member.not_mem_of_mem_cuts (m : Member) {c : Char} (hc : c ∈ cuts) : c ∉ m.text := by
  have hblank := isBlank_of_mem_cuts hc
  simp [Member.text, m.before.not_mem hblank, m.item.not_mem_of_mem_cuts hc,
    m.behind.not_mem hblank]

theorem withoutAlias_blank (gap : Gap) : withoutAlias gap.text = [] := by
  have htrim : Text.trim gap.text = [] := by
    rw [Text.trim, Text.dropBlanks_eq_nil gap.blank]
    rfl
  rw [withoutAlias]
  simp only [htrim]
  rfl

/-- What is left of a member behind the prefix; what is left blank names nothing. -/
def behindPrefix (front member : Text) : Option Text :=
  if member = [] then none else some (front ++ member)

theorem filterMap_behindPrefix {α : Type} {text name : α → Text} (front : Text) (members : List α)
    (hread : ∀ m, withoutAlias (text m) = name m) (hne : ∀ m, name m ≠ []) :
    ((members.map text).map withoutAlias).filterMap (behindPrefix front) =
      members.map fun m => front ++ name m := by
  induction members with
  | nil => rfl
  | cons m members ih =>
    have hmember : behindPrefix front (withoutAlias (text m)) = some (front ++ name m) := by
      rw [hread, behindPrefix, if_neg (hne m)]
    rw [List.map_cons, List.map_cons, List.filterMap_cons_some hmember, ih, List.map_cons]

def behindComma (comma : Option Gap) : Text := (comma.map fun gap => ',' :: gap.text).getD []

/-- The parts between the braces, cut at the commas. -/
theorem filterMap_parts (front : Text) {parts : List Text} (hparts : ∀ part ∈ parts, ',' ∉ part)
    (comma : Option Gap) :
    (((Text.join [','] parts ++ behindComma comma).splitOn ',').map withoutAlias).filterMap
        (behindPrefix front) =
      (parts.map withoutAlias).filterMap (behindPrefix front) := by
  have hjoin : (((Text.join [','] parts).splitOn ',').map withoutAlias).filterMap
      (behindPrefix front) = (parts.map withoutAlias).filterMap (behindPrefix front) := by
    by_cases hnil : parts = []
    · rw [hnil]
      rfl
    · rw [Text.join, List.splitOn_intercalate ',' hparts hnil]
  cases comma with
  | none =>
    show (((Text.join [','] parts ++ []).splitOn ',').map withoutAlias).filterMap _ = _
    rw [List.append_nil, hjoin]
  | some gap =>
    have hgap : gap.text.splitOn ',' = [gap.text] :=
      List.splitOn_eq_singleton (gap.not_mem (by decide))
    show (((Text.join [','] parts ++ ',' :: gap.text).splitOn ',').map withoutAlias).filterMap _ = _
    rw [List.splitOn_append_cons_self, hgap, List.map_append, List.filterMap_append,
      hjoin, List.map_singleton, withoutAlias_blank]
    simp [behindPrefix]

def braced (front : Name) (parts : List Text) (comma : Option Gap) : Text :=
  front.text ++ '{' :: ((Text.join [','] parts ++ behindComma comma) ++ ['}'])

theorem bodyTargets_braced (front : Name) {parts : List Text}
    (hparts : ∀ part ∈ parts, ',' ∉ part) (comma : Option Gap) :
    bodyTargets (braced front parts comma) =
      (parts.map withoutAlias).filterMap (behindPrefix front.text) := by
  have hgroup : group? (braced front parts comma) =
      some (front.text, Text.join [','] parts ++ behindComma comma) := by
    rw [group?, braced, Text.cut?_append_cons (front.not_mem_of_mem_cuts (by decide))]
    show (Text.cutLast? '}' ((Text.join [','] parts ++ behindComma comma) ++ ['}'])).bind _ = _
    rw [Text.cutLast?_append_cons List.not_mem_nil]
    rfl
  rw [bodyTargets, hgroup]
  simp only [front.isSolid.trim_eq]
  exact filterMap_parts front.text hparts comma

theorem bodyTargets_item (item : Item) : bodyTargets item.text = [item.name.text] := by
  have hgroup : group? item.text = none := by
    rw [group?, Text.cut?_eq_none (item.not_mem_of_mem_cuts (by decide))]
    rfl
  have hitem : withoutAlias item.text = item.name.text := by
    have h := withoutAlias_item ⟨[], by simp⟩ ⟨[], by simp⟩ item
    rwa [List.nil_append, List.append_nil] at h
  rw [bodyTargets, hgroup]
  simp only [hitem, if_neg item.name.ne_nil]

theorem bodyTargets_text (clause : Clause) : bodyTargets clause.text = clause.names := by
  cases clause with
  | single item => exact bodyTargets_item item
  | group front members comma =>
    have hparts : ∀ part ∈ members.map Member.text, ',' ∉ part :=
      List.forall_mem_map.mpr fun m _ => m.not_mem_of_mem_cuts (by decide)
    show bodyTargets (braced front (members.map Member.text) comma) = _
    rw [bodyTargets_braced front hparts comma]
    exact filterMap_behindPrefix front.text members
      (fun m => withoutAlias_item m.before m.behind m.item) (fun m => m.item.name.ne_nil)

/-! ## Lines -/

section
variable (front : Name) {parts : List Text} (comma : Option Gap)

theorem isSolid_braced : Text.IsSolid (braced front parts comma) := by
  have hbrace : Text.IsSolid ['}'] :=
    Text.isSolid_of_forall (by simp) (List.forall_mem_singleton.mpr (by decide))
  exact front.isSolid.append hbrace ('{' :: (Text.join [','] parts ++ behindComma comma))

theorem semicolon_not_mem_braced (hparts : ∀ part ∈ parts, ';' ∉ part) :
    ';' ∉ braced front parts comma := by
  have hcut : ';' ∈ cuts := by decide
  have hjoin : ';' ∉ Text.join [','] parts := by
    intro hmem
    rcases Text.mem_join hmem with hcomma | ⟨part, hpart, hmem⟩
    · exact absurd hcomma (by decide)
    · exact hparts part hpart hmem
  have hcomma : ';' ∉ behindComma comma := by
    cases comma with
    | none => exact List.not_mem_nil
    | some gap => simp [behindComma, gap.not_mem (isBlank_of_mem_cuts hcut)]
  simp [braced, front.not_mem_of_mem_cuts hcut, hjoin, hcomma]

end

namespace Clause

variable (clause : Clause)

theorem isSolid : Text.IsSolid clause.text := by
  cases clause with
  | single item => exact item.isSolid
  | group front members comma => exact isSolid_braced front comma

theorem semicolon_not_mem : ';' ∉ clause.text := by
  have hcut : ';' ∈ cuts := by decide
  cases clause with
  | single item => exact item.not_mem_of_mem_cuts hcut
  | group front members comma =>
    apply semicolon_not_mem_braced front comma
    exact List.forall_mem_map.mpr fun m _ => m.not_mem_of_mem_cuts hcut

end Clause

/-- No name goes on in a gap. -/
theorem takeWhile_gap (gap : Gap) {c : Char} (hc : isNameChar c = false) (rest : Text) :
    (gap.text ++ c :: rest).takeWhile isNameChar = [] := by
  cases hgap : gap.text with
  | nil => exact List.takeWhile_cons_of_neg (by simp [hc])
  | cons d more =>
    have hd : Text.isBlank d = true := gap.blank d (hgap ▸ List.mem_cons_self)
    exact List.takeWhile_cons_of_neg (by simp [isNameChar, hd])

/-- A name ends where its characters do. -/
theorem Name.takeWhile_append (n : Name) {rest : Text} (hrest : rest.takeWhile isNameChar = []) :
    (n.text ++ rest).takeWhile isNameChar = n.text := by
  rw [List.takeWhile_append_of_pos n.chars, hrest, List.append_nil]

theorem Item.takeWhile_text (item : Item) {rest : Text} (hrest : rest.takeWhile isNameChar = []) :
    (item.text ++ rest).takeWhile isNameChar = item.name.text := by
  rw [Item.text, List.append_assoc]
  apply item.name.takeWhile_append
  cases item.rename with
  | none => exact hrest
  | some a =>
    show (a.text ++ rest).takeWhile isNameChar = []
    rw [Alias.text, List.append_assoc]
    exact takeWhile_gap a.before (by decide) _

theorem takeWhile_braced (front : Name) (parts : List Text) (comma : Option Gap) (rest : Text) :
    (braced front parts comma ++ rest).takeWhile isNameChar = front.text := by
  rw [braced, List.append_assoc]
  exact front.takeWhile_append (List.takeWhile_cons_of_neg (by decide))

theorem Clause.takeWhile_text (clause : Clause) {rest : Text}
    (hrest : rest.takeWhile isNameChar = []) :
    (clause.text ++ rest).takeWhile isNameChar = clause.first.text := by
  cases clause with
  | single item => exact item.takeWhile_text hrest
  | group front members comma => exact takeWhile_braced front (members.map Member.text) comma rest

/-- A keyword in front of a text would be its first name. -/
theorem isOther_eq_false {s : Text}
    (hs : s.takeWhile isNameChar ∉ ["function".toList, "const".toList]) : isOther s = false := by
  have hchars : ∀ word ∈ ["function".toList, "const".toList], word.all isNameChar = true := by
    decide
  have hkeyword : ∀ word ∈ ["function".toList, "const".toList],
      (word ++ [' ']).isPrefixOf s = false := by
    intro word hword
    rw [Bool.eq_false_iff]
    intro hprefix
    obtain ⟨behind, hbehind⟩ := List.isPrefixOf_iff_prefix.mp hprefix
    have hspace : ([' '] ++ behind).takeWhile isNameChar = [] :=
      List.takeWhile_cons_of_neg (by decide)
    have hname : s.takeWhile isNameChar = word := by
      rw [← hbehind, List.append_assoc,
        List.takeWhile_append_of_pos (List.all_eq_true.mp (hchars word hword)), hspace,
        List.append_nil]
    exact hs (hname ▸ hword)
  rw [isOther, Bool.or_eq_false_iff]
  exact ⟨hkeyword "function".toList (by simp), hkeyword "const".toList (by simp)⟩

/-- What stands between `use` and the semicolon is read, unless it is no type that it names. -/
theorem targets_use {body : Text} (hbody : Text.IsSolid body) (hsemicolon : ';' ∉ body)
    (indent : Gap) (spaces : Nat) (gap : Gap) (behind : Text) :
    targets (indent.text ++ ("use ".toList ++ (List.replicate spaces ' ' ++
        (body ++ (gap.text ++ ';' :: behind))))) =
      if isOther (body ++ (gap.text ++ ';' :: Text.trimEnd behind)) then [] else
        bodyTargets body := by
  have htrim : Text.trim (indent.text ++ ("use ".toList ++ (List.replicate spaces ' ' ++
      (body ++ (gap.text ++ ';' :: behind))))) = "use ".toList ++ (List.replicate spaces ' ' ++
        (body ++ (gap.text ++ ';' :: Text.trimEnd behind))) := by
    have hcut : ∀ behind : Text, "use ".toList ++ (List.replicate spaces ' ' ++
        (body ++ (gap.text ++ ';' :: behind))) =
          ("use ".toList ++ (List.replicate spaces ' ' ++ (body ++ gap.text))) ++
            ';' :: behind := by simp
    rw [Text.trim_append_left indent.blank, Text.trim]
    show Text.trimEnd ("use ".toList ++ _) = _
    rw [hcut, hcut, Text.trimEnd_append_cons (by decide)]
  have hspaces : ∀ c ∈ List.replicate spaces ' ', Text.isBlank c = true := (Gap.spaces spaces).blank
  have hkeyword := Text.after?_eq_some.mpr htrim
  have hfront : (body ++ (gap.text ++ ';' :: Text.trimEnd behind)).takeWhile (· != ';') =
      body ++ gap.text := by
    have hfree : ∀ c ∈ body ++ gap.text, (c != ';') = true := by
      intro c hc
      rw [bne_iff_ne]
      intro heq
      rcases List.mem_append.mp (heq ▸ hc) with hc | hc
      · exact hsemicolon hc
      · exact gap.not_mem (by decide) hc
    rw [← List.append_assoc, List.takeWhile_append_of_pos hfree,
      List.takeWhile_cons_of_neg (by decide), List.append_nil]
  rw [targets, hkeyword]
  simp only [Text.dropBlanks_append hspaces, hbody.dropBlanks_append_eq, hfront,
    Text.trim_append_right gap.blank, hbody.trim_eq]

/-- A statement is read as it is written. -/
theorem targets_statement (s : Statement) : targets s.text = s.clause.names := by
  have hother : isOther (s.clause.text ++ (s.gap.text ++ ';' :: Text.trimEnd s.behind)) = false := by
    apply isOther_eq_false
    rw [s.clause.takeWhile_text (takeWhile_gap s.gap (by decide) _)]
    exact s.notOther
  rw [Statement.text, targets_use s.clause.isSolid s.clause.semicolon_not_mem, hother,
    bodyTargets_text]
  rfl

theorem targets_line (l : Line) : targets l.text = l.names := by
  cases l with
  | statement s => exact targets_statement s
  | other text h =>
    apply targets_eq_nil
    show Text.after? "use ".toList (Text.trim text) = none
    rw [Text.after?, if_neg]
    intro hprefix
    exact h (List.isPrefixOf_iff_prefix.mp hprefix)

theorem endsFreely_targets : EndsFreely targets := by
  constructor
  · rfl
  · intro line
    rw [targets, targets, Text.trim_append_right (List.forall_mem_singleton.mpr (by decide))]

/-- Reading undoes writing. -/
theorem imports_join_text (lines : List Line) (hfeed : ∀ l ∈ lines, '\n' ∉ l.text) :
    Language.php.imports (Text.join ['\n'] (lines.map Line.text)) =
      (lines.zipIdx 1).flatMap fun l => l.1.names.map fun name => ⟨name, l.2⟩ := by
  have htexts : ∀ text ∈ lines.map Line.text, '\n' ∉ text := by
    intro text htext
    obtain ⟨l, hl, heq⟩ := List.mem_map.mp htext
    exact heq ▸ hfeed l hl
  show ofText targets _ = _
  rw [ofText, ofLines_lines_join endsFreely_targets htexts, ofLines, List.zipIdx_map,
    List.flatMap_map]
  simp only [Prod.map_fst, Prod.map_snd, targets_line, id]

/-- An alias in capitals, a line that is no statement, and a group that ends with a comma and
has a member with the name `as`. -/
def mixedLines : List Line :=
  [.statement
      { indent := .mk ['\t']
        spaces := 1
        clause := .single
          { name := .mk "Domains\\User\\Mail".toList
            rename := some (.mk (.mk []) "AS".toList (.mk [' ']) (.mk ['M'])) }
        gap := .mk [' ']
        behind := " // use X;".toList },
    .other "// use Domains\\Order;".toList (by decide),
    .statement
      { indent := .mk []
        spaces := 0
        clause := .group (.mk "Domains\\Order\\".toList)
          [{ before := .mk [' ']
             item :=
              { name := .mk "as".toList
                rename := some (.mk (.mk []) "as".toList (.mk []) (.mk "as".toList)) }
             behind := .mk [] },
            { before := .mk [' ']
              item := { name := .mk "Total".toList, rename := none }
              behind := .mk ['\t'] }]
          (some (.mk [' ']))
        gap := .mk []
        behind := ['\r'] }]

theorem imports_join_mixedLines :
    (∀ l ∈ mixedLines, '\n' ∉ l.text) ∧
      Text.join ['\n'] (mixedLines.map Line.text) =
        ("\tuse  Domains\\User\\Mail AS  M ; // use X;\n// use Domains\\Order;\n" ++
          "use Domains\\Order\\\x7b as as as, Total\t, \x7d;\r").toList ∧
      Language.php.imports (Text.join ['\n'] (mixedLines.map Line.text)) =
        [⟨"Domains\\User\\Mail".toList, 1⟩, ⟨"Domains\\Order\\as".toList, 3⟩,
          ⟨"Domains\\Order\\Total".toList, 3⟩] := by
  have hfeed : ∀ l ∈ mixedLines, '\n' ∉ l.text := by decide
  refine ⟨hfeed, by decide, ?_⟩
  rw [imports_join_text mixedLines hfeed]
  decide

end Use
end Import
end ModuleBoundary
