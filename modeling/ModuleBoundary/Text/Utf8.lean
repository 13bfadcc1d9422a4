/-
UTF-8 as a machine that takes one byte at a time.

`Utf8.run` reads bytes from a state and keeps what it has written so far, so
reading `a ++ b` is reading `b` from the state that `a` leaves (`run_append`).
Bytes that belong to no character are not refused: every longest part that could
have begun a character becomes one gap, and the two readers differ only in what
they make of a gap.
-/
import ModuleBoundary.Text.Basic

namespace ModuleBoundary

abbrev Bytes := List UInt8

namespace Utf8

/-- A character of which the first bytes have been read: its value so far, how
many bytes are missing, and the range of the next one. -/
structure Begun where
  value : Nat
  missing : Nat
  low : Nat
  high : Nat
  deriving DecidableEq, Repr

/-- What has been read: a character, or `none` for a gap. -/
abbrev Item := Option Char

/-- The machine: the character that has begun, if one has, and the items read so
far, the last one first. -/
structure State where
  begun : Option Begun
  items : List Item
  deriving DecidableEq, Repr

def start : State := ⟨none, []⟩

/-- A byte where a character may begin.  The range of the second byte is narrower
after four of the first bytes, which excludes overlong forms, surrogates and
values above U+10FFFF. -/
def first (b : UInt8) : Begun ⊕ Item :=
  let n := b.toNat
  if n < 0x80 then .inr (some (Char.ofNat n))
  else if n < 0xC2 then .inr none
  else if n < 0xE0 then .inl ⟨n - 0xC0, 1, 0x80, 0xBF⟩
  else if n = 0xE0 then .inl ⟨0, 2, 0xA0, 0xBF⟩
  else if n = 0xED then .inl ⟨0xD, 2, 0x80, 0x9F⟩
  else if n < 0xF0 then .inl ⟨n - 0xE0, 2, 0x80, 0xBF⟩
  else if n = 0xF0 then .inl ⟨0, 3, 0x90, 0xBF⟩
  else if n < 0xF4 then .inl ⟨n - 0xF0, 3, 0x80, 0xBF⟩
  else if n = 0xF4 then .inl ⟨4, 3, 0x80, 0x8F⟩
  else .inr none

def begin (items : List Item) (b : UInt8) : State :=
  match first b with
  | .inl begun => ⟨some begun, items⟩
  | .inr item => ⟨none, item :: items⟩

/-- One byte.  A byte that cannot continue the character that has begun leaves a
gap, and is then read as the first byte of the next one. -/
def step (s : State) (b : UInt8) : State :=
  match s.begun with
  | none => begin s.items b
  | some g =>
    if g.low ≤ b.toNat ∧ b.toNat ≤ g.high then
      let value := g.value * 64 + (b.toNat - 0x80)
      if g.missing = 1 then ⟨none, some (Char.ofNat value) :: s.items⟩
      else ⟨some ⟨value, g.missing - 1, 0x80, 0xBF⟩, s.items⟩
    else begin (none :: s.items) b

def run (s : State) (bytes : Bytes) : State := bytes.foldl step s

theorem run_append (s : State) (a b : Bytes) : run s (a ++ b) = run (run s a) b :=
  List.foldl_append

/-- The items, the first one first; a character that has begun and does not end
is a gap. -/
def State.finish (s : State) : List Item :=
  match s.begun with
  | none => s.items.reverse
  | some _ => (none :: s.items).reverse

def items (bytes : Bytes) : List Item := (run start bytes).finish

/-- The text of any bytes, with the replacement character for each gap. -/
def decodeLossy (bytes : Bytes) : Text := (items bytes).map (·.getD '\uFFFD')

def decode? (bytes : Bytes) : Option Text := (items bytes).mapM id

def encode (s : Text) : Bytes := s.flatMap String.utf8EncodeChar

end Utf8

instance : Coe Text Bytes := ⟨Utf8.encode⟩

end ModuleBoundary
