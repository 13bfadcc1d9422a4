/-
Texts as lists of characters, and the operations on them that the rest of the
library is written with.

A text is a list so that every operation is a recursion on it, and a statement
about a text is a statement about a list.  `Text.lines` is the one rule by which
texts are cut into lines: `pieces` cuts behind every line feed and loses nothing
(`flatten_pieces`), and a line is a piece without its end.
-/

namespace ModuleBoundary

abbrev Text := List Char

instance : Coe String Text := ⟨String.toList⟩

namespace Text

/-! ## Blanks -/

/-- White space: the characters with the property White_Space. -/
def isBlank (c : Char) : Bool :=
  let n := c.toNat
  (0x09 ≤ n && n ≤ 0x0D) || n == 0x20 || n == 0x85 || n == 0xA0 || n == 0x1680 ||
    (0x2000 ≤ n && n ≤ 0x200A) || n == 0x2028 || n == 0x2029 || n == 0x202F ||
    n == 0x205F || n == 0x3000

/-- The blanks of ASCII are blanks. -/
theorem isBlank_of_isWhitespace {c : Char} (h : c.isWhitespace = true) : isBlank c = true := by
  simp only [Char.isWhitespace, Bool.or_eq_true, decide_eq_true_eq] at h
  rcases h with ((rfl | rfl) | rfl) | rfl <;> decide

def dropBlanks (s : Text) : Text := s.dropWhile isBlank

def trimEnd (s : Text) : Text := (dropBlanks s.reverse).reverse

def trim (s : Text) : Text := trimEnd (dropBlanks s)

theorem isSuffix_dropBlanks (s : Text) : dropBlanks s <:+ s := List.dropWhile_suffix _

theorem isPrefix_trimEnd (s : Text) : trimEnd s <+: s := by
  rw [trimEnd, ← List.reverse_suffix, List.reverse_reverse]
  exact isSuffix_dropBlanks _

theorem isInfix_trim (s : Text) : trim s <:+: s :=
  (isPrefix_trimEnd _).isInfix.trans (isSuffix_dropBlanks s).isInfix

/-! ## Parts of a text -/

def hasPart (part : Text) : Text → Bool
  | [] => part.isEmpty
  | c :: s => part.isPrefixOf (c :: s) || hasPart part s

theorem hasPart_iff {part s : Text} : hasPart part s = true ↔ part <:+: s := by
  induction s with
  | nil => cases part <;> simp [hasPart]
  | cons c s ih => rw [hasPart, Bool.or_eq_true, ih, List.isPrefixOf_iff_prefix, List.infix_cons_iff]

/-- What stands before and after the first place at which `head` matches; `head`
gives the rest of the text behind a match. -/
def cutAt? (head : Text → Option Text) : Text → Option (Text × Text)
  | [] => (head []).map fun rest => ([], rest)
  | c :: s =>
    match head (c :: s) with
    | some rest => some ([], rest)
    | none => (cutAt? head s).map fun r => (c :: r.1, r.2)

section Cutting

variable {α : Type} [DecidableEq α]

def cut? (c : α) (s : List α) : Option (List α × List α) :=
  match s.dropWhile (· != c) with
  | [] => none
  | _ :: rest => some (s.takeWhile (· != c), rest)

def cutLast? (c : α) (s : List α) : Option (List α × List α) :=
  (cut? c s.reverse).map fun r => (r.2.reverse, r.1.reverse)

theorem cut?_eq_some {c : α} {s a b : List α} (h : cut? c s = some (a, b)) :
    s = a ++ c :: b ∧ c ∉ a := by
  unfold cut? at h
  split at h
  · simp at h
  · rename_i d rest hd
    simp only [Option.some.injEq, Prod.mk.injEq] at h
    obtain ⟨rfl, rfl⟩ := h
    have hdc : d = c := by
      have := List.head?_dropWhile_not (· != c) s
      rw [hd] at this
      simpa using this
    refine ⟨?_, ?_⟩
    · conv => lhs; rw [← List.takeWhile_append_dropWhile (p := (· != c)) (l := s), hd, hdc]
    · intro hc
      simpa using List.all_eq_true.mp List.all_takeWhile c hc

end Cutting

def after? (head s : Text) : Option Text := if head.isPrefixOf s then some (s.drop head.length) else none

theorem after?_eq_some {head s rest : Text} : after? head s = some rest ↔ s = head ++ rest := by
  rw [after?]
  split
  · rename_i h
    obtain ⟨t, rfl⟩ := List.isPrefixOf_iff_prefix.mp h
    simp [eq_comm]
  · rename_i h
    refine ⟨by simp, ?_⟩
    rintro rfl
    exact absurd (List.isPrefixOf_iff_prefix.mpr (List.prefix_append head rest)) h

/-! ## Letter case -/

/-- ASCII letters in lower case; no other character has a case here. -/
def lower (s : Text) : Text := s.map Char.toLower

def sameIgnoringCase (a b : Text) : Bool := lower a == lower b

/-! ## Lines -/

def addToPieces (c : Char) (ps : List Text) : List Text :=
  if c = '\n' then ['\n'] :: ps
  else match ps with
    | [] => [[c]]
    | p :: ps => (c :: p) :: ps

def pieces (s : Text) : List Text := s.foldr addToPieces []

/-- A piece without the line feed at its end and without one carriage return in
front of that line feed.  A carriage return with no line feed behind it stays. -/
def dropLineEnd (p : Text) : Text :=
  match p.reverse with
  | '\n' :: '\r' :: r => r.reverse
  | '\n' :: r => r.reverse
  | _ => p

/-- The lines of a text.  What follows the last line feed is a line if it is not
empty. -/
def lines (s : Text) : List Text := (pieces s).map dropLineEnd

theorem pieces_cons (c : Char) (s : Text) : pieces (c :: s) = addToPieces c (pieces s) := rfl

theorem flatten_addToPieces (c : Char) (ps : List Text) :
    (addToPieces c ps).flatten = c :: ps.flatten := by
  unfold addToPieces
  split
  · next h => rw [List.flatten_cons, h]; rfl
  · cases ps <;> rfl

/-- Cutting loses nothing. -/
theorem flatten_pieces (s : Text) : (pieces s).flatten = s := by
  induction s with
  | nil => rfl
  | cons c s ih => rw [pieces_cons, flatten_addToPieces, ih]

def line (s : Text) : Text := s ++ ['\n']

def ofNat (n : Nat) : Text := Nat.toDigits 10 n

def join {α : Type} (sep : List α) (parts : List (List α)) : List α := sep.intercalate parts

end Text
end ModuleBoundary
