/-
JSON values and the text that is written for them.

The text is indented by two spaces a level, with every item and every field on lines
of its own.  A string escapes the quote, the backslash and the control characters
below U+0020, and nothing else.
-/
import ModuleBoundary.Text.Basic

namespace ModuleBoundary

/-- JSON values with whole numbers.  An object keeps its fields in order. -/
inductive Json
  | null
  | bool (b : Bool)
  | number (n : Nat)
  | string (s : Text)
  | array (items : List Json)
  | object (fields : List (Text × Json))
  deriving Repr, Inhabited

namespace Json

def shortEscape? (c : Char) : Option Char :=
  if c = '\x08' then some 'b'
  else if c = '\t' then some 't'
  else if c = '\n' then some 'n'
  else if c = '\x0c' then some 'f'
  else if c = '\r' then some 'r'
  else none

def writeChar (c : Char) : Text :=
  if c = '"' then ['\\', '"']
  else if c = '\\' then ['\\', '\\']
  else if c.toNat < 0x20 then
    match shortEscape? c with
    | some e => ['\\', e]
    | none => ['\\', 'u', '0', '0', Nat.digitChar (c.toNat / 16), Nat.digitChar (c.toNat % 16)]
  else [c]

def writeString (s : Text) : Text := '"' :: (s.flatMap writeChar ++ ['"'])

def newline (depth : Nat) : Text := '\n' :: List.replicate (2 * depth) ' '

mutual

def write (depth : Nat) : Json → Text
  | .null => "null".toList
  | .bool b => if b then "true".toList else "false".toList
  | .number n => Text.ofNat n
  | .string s => writeString s
  | .array items =>
    match items with
    | [] => ['[', ']']
    | items => '[' :: (writeItems (depth + 1) items ++ (newline depth ++ [']']))
  | .object fields =>
    match fields with
    | [] => ['\x7b', '\x7d']
    | fields => '\x7b' :: (writeFields (depth + 1) fields ++ (newline depth ++ ['\x7d']))

def writeItems (depth : Nat) : List Json → Text
  | [] => []
  | v :: rest =>
    newline depth ++ (write depth v ++ ((if rest.isEmpty then [] else [',']) ++ writeItems depth rest))

def writeFields (depth : Nat) : List (Text × Json) → Text
  | [] => []
  | (name, v) :: rest =>
    newline depth ++ (writeString name ++ (':' :: ' ' :: (write depth v ++
      ((if rest.isEmpty then [] else [',']) ++ writeFields depth rest))))

end

def toText (v : Json) : Text := write 0 v

end Json
end ModuleBoundary
