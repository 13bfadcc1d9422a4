/-
Anchors, tags and directives of a YAML stream.
-/
import ModuleBoundary.Text.Utf8
import ModuleBoundary.Yaml.Token.Basic
import ModuleBoundary.Yaml.Token.Scalar

namespace ModuleBoundary
namespace Yaml

/-! ## Anchors and aliases -/

def takeAnchor (m : Mark) (s : Text) : Option (Taken Text) :=
  let name := s.takeWhile isNameChar
  let rest := s.dropWhile isNameChar
  if name ≠ [] ∧ (atGap rest = true ∨ rest.head?.any (fun c => "?:,]\x7d%@".toList.contains c || c == '\x60') = true)
  then some ⟨name, m.forward name.length, rest⟩
  else none

/-! ## Tags -/

/-- The characters of a tag.  Between angle brackets, and in a directive, three of
the indicators of collections count as well. -/
def isTagChar (wide : Bool) (c : Char) : Bool :=
  isNameChar c || ";/?:@&=+$.%!~*'()".toList.contains c || (wide && ",[]".toList.contains c)

def following? (n : Nat) : Option Nat :=
  if n < 0x80 then some 0
  else if n < 0xC0 then none
  else if n < 0xE0 then some 1
  else if n < 0xF0 then some 2
  else if n < 0xF8 then some 3
  else none

/-- The bytes of a tag.  An escape stands for one byte, and all bytes of a character
beyond ASCII are escapes, one behind the other; `missing` of them are still to come.
Which character they are is not looked at. -/
def tagBytes? : (missing : Nat) → Text → Option Bytes
  | missing, '%' :: a :: b :: s => do
    let n := 16 * (← Text.hexValue? a) + (← Text.hexValue? b)
    let missing ← match missing with
      | 0 => following? n
      | more + 1 => if n / 0x40 = 2 then some more else none
    return UInt8.ofNat n :: (← tagBytes? missing s)
  | _, '%' :: _ => none
  | 0, c :: s => return UInt8.ofNat c.toNat :: (← tagBytes? 0 s)
  | 0, [] => some []
  | _ + 1, _ => none

/-- A tag or the rest of one behind `front`, the part that has been read as a handle
and was none.  The exclamation mark that leads `front` is no part of the text, but
it is enough of a tag.  A zero byte ends the text. -/
def takeTagText (wide : Bool) (front : Text) (m : Mark) (s : Text) : Option (Taken Bytes) := do
  let t := s.takeWhile (isTagChar wide)
  if front = [] ∧ t = [] then none
  let bytes ← tagBytes? 0 (front.tail ++ t)
  some ⟨bytes.takeWhile (· ≠ 0), m.forward t.length, s.dropWhile (isTagChar wide)⟩

def takeHandle (m : Mark) : Text → Option (Taken Text)
  | '!' :: s =>
    let name := s.takeWhile isNameChar
    match s.dropWhile isNameChar with
    | '!' :: rest => some ⟨'!' :: (name ++ ['!']), m.forward (name.length + 2), rest⟩
    | rest => some ⟨'!' :: name, m.forward (name.length + 1), rest⟩
  | _ => none

/-- A tag as a handle and a text.  Between angle brackets there is no handle; a
single exclamation mark is a tag of its own. -/
def takeTag (inFlow : Bool) (m : Mark) (s : Text) : Option (Taken (Text × Bytes)) := do
  let t ← match s with
    | '!' :: '<' :: r => do
      let t ← takeTagText true [] (m.forward 2) r
      match t.rest with
      | '>' :: rest => some (⟨([], t.value), t.mark.next, rest⟩ : Taken (Text × Bytes))
      | _ => none
    | _ => do
      let h ← takeHandle m s
      if h.value.length ≥ 2 ∧ h.value.getLast? = some '!' then
        let t ← takeTagText false [] h.mark h.rest
        some ⟨(h.value, t.value), t.mark, t.rest⟩
      else
        let t ← takeTagText false h.value h.mark h.rest
        some ⟨if t.value = [] then ([], Utf8.encode ['!']) else (['!'], t.value), t.mark, t.rest⟩
  if atGap t.rest = true ∨ (inFlow = true ∧ t.rest.head? = some ',') then some t else none

/-! ## Directives -/

def takeNumber (m : Mark) (s : Text) : Option (Taken Nat) :=
  let digits := s.takeWhile Char.isDigit
  if digits = [] ∨ 9 < digits.length then none
  else some ⟨digits.foldl (fun n c => 10 * n + (c.toNat - 48)) 0, m.forward digits.length, s.dropWhile Char.isDigit⟩

def skipBlanks (m : Mark) (s : Text) : Taken Unit :=
  let blanks := s.takeWhile isSpaceOrTab
  ⟨(), m.forward blanks.length, s.dropWhile isSpaceOrTab⟩

/-- A directive up to the end of its line, from behind the percent sign.  Only the
version and the handles of tags have one. -/
def takeDirective (m : Mark) (s : Text) : Option (Taken Token) := do
  let name := s.takeWhile isNameChar
  let rest := s.dropWhile isNameChar
  if name = [] ∨ atGap rest = false then none
  let b := skipBlanks (m.forward name.length) rest
  let d ←
    if name = "YAML".toList then do
      let major ← takeNumber b.mark b.rest
      match major.rest with
      | '.' :: r =>
        let minor ← takeNumber major.mark.next r
        some (⟨.versionDirective major.value minor.value, minor.mark, minor.rest⟩ : Taken Token)
      | _ => none
    else if name = "TAG".toList then do
      let h ← takeHandle b.mark b.rest
      if h.value ≠ ['!'] ∧ h.value.getLast? ≠ some '!' then none
      if !h.rest.head?.any isSpaceOrTab then none
      let c := skipBlanks h.mark h.rest
      let t ← takeTagText true [] c.mark c.rest
      if !atGap t.rest then none
      some ⟨.tagDirective h.value t.value, t.mark, t.rest⟩
    else none
  let e := skipBlanks d.mark d.rest
  let r := if e.rest.head? = some '#' then e.rest.dropWhile (fun c => !isBreak c) else e.rest
  match r with
  | [] => some ⟨d.value, e.mark, []⟩
  | c :: r => if isBreak c then some ⟨d.value, e.mark.newline, r⟩ else none

end Yaml
end ModuleBoundary
