/-
Reading JSON.

The reader takes any JSON text whose numbers are whole and not negative: blanks
between tokens, every escape, fields in any order.  It knows nothing about how
`Json.toText` lays a value out.
-/
import ModuleBoundary.Json.Basic
import ModuleBoundary.Text.Hex

namespace ModuleBoundary
namespace Json

def isSpace (c : Char) : Bool := c == ' ' || c == '\t' || c == '\n' || c == '\r'

def skipSpace (s : Text) : Text := s.dropWhile isSpace

/-! ## Strings -/

def takeUnit? : Text → Option (Nat × Text)
  | a :: b :: c :: d :: s => do
    let digit := Text.hexValue?
    some (((16 * (← digit a) + (← digit b)) * 16 + (← digit c)) * 16 + (← digit d), s)
  | _ => none

def plainEscape? (c : Char) : Option Char :=
  if c = '"' ∨ c = '\\' ∨ c = '/' then some c
  else if c = 'b' then some '\x08'
  else if c = 'f' then some '\x0c'
  else if c = 'n' then some '\n'
  else if c = 'r' then some '\r'
  else if c = 't' then some '\t'
  else none

/-- The character that a code unit begins, with the second unit that it may need. -/
def joinUnits? (n : Nat) (s : Text) : Option (Char × Text) :=
  if 0xD800 ≤ n ∧ n < 0xDC00 then
    match s with
    | '\\' :: 'u' :: s => do
      let (m, s) ← takeUnit? s
      if 0xDC00 ≤ m ∧ m < 0xE000 then some (Char.ofNat (0x10000 + (n - 0xD800) * 0x400 + (m - 0xDC00)), s)
      else none
    | _ => none
  else (Text.charOf? n).map fun c => (c, s)

def takeChar? : Text → Option (Char × Text)
  | [] => none
  | c :: s =>
    if c = '\\' then
      match s with
      | [] => none
      | e :: s =>
        if e = 'u' then (takeUnit? s).bind fun u => joinUnits? u.1 u.2
        else (plainEscape? e).map fun d => (d, s)
    else if c = '"' ∨ c.toNat < 0x20 then none
    else some (c, s)

/-- The rest of a string, from behind its opening quote. -/
def takeString? : Nat → Text → Option (Text × Text)
  | 0, _ => none
  | fuel + 1, s =>
    match s with
    | '"' :: rest => some ([], rest)
    | s => do
      let (c, s) ← takeChar? s
      let (t, s) ← takeString? fuel s
      some (c :: t, s)

/-! ## Numbers -/

/-- A number; a zero does not lead another digit. -/
def takeNumber? (s : Text) : Option (Nat × Text) :=
  let digits := s.takeWhile Char.isDigit
  let n := digits.foldl (fun n c => 10 * n + (c.toNat - 48)) 0
  if digits = [] ∨ (digits.head? = some '0' ∧ digits.length ≠ 1) then none
  else some (n, s.dropWhile Char.isDigit)

/-! ## Values -/

def word? (word : String) (v : Json) (s : Text) : Option (Json × Text) :=
  (Text.after? word.toList s).map fun rest => (v, rest)

mutual

/-- One value and what follows it.  A character of its own pays for every call, so the
length of the text is fuel enough. -/
def read? : Nat → Text → Option (Json × Text)
  | 0, _ => none
  | fuel + 1, s =>
    match skipSpace s with
    | [] => none
    | c :: s =>
      if c = '"' then (takeString? (s.length + 1) s).map fun r => (.string r.1, r.2)
      else if c = '[' then
        match skipSpace s with
        | ']' :: rest => some (.array [], rest)
        | s => (readItems? fuel s).map fun r => (.array r.1, r.2)
      else if c = '\x7b' then
        match skipSpace s with
        | '\x7d' :: rest => some (.object [], rest)
        | s => (readFields? fuel s).map fun r => (.object r.1, r.2)
      else if c = 'n' then word? "null" .null (c :: s)
      else if c = 't' then word? "true" (.bool true) (c :: s)
      else if c = 'f' then word? "false" (.bool false) (c :: s)
      else (takeNumber? (c :: s)).map fun r => (.number r.1, r.2)

def readItems? : Nat → Text → Option (List Json × Text)
  | 0, _ => none
  | fuel + 1, s => do
    let (v, s) ← read? fuel s
    match skipSpace s with
    | ',' :: s => do
      let (vs, s) ← readItems? fuel s
      some (v :: vs, s)
    | ']' :: s => some ([v], s)
    | _ => none

def readFields? : Nat → Text → Option (List (Text × Json) × Text)
  | 0, _ => none
  | fuel + 1, s =>
    match skipSpace s with
    | '"' :: s => do
      let (name, s) ← takeString? (s.length + 1) s
      match skipSpace s with
      | ':' :: s => do
        let (v, s) ← read? fuel s
        match skipSpace s with
        | ',' :: s => do
          let (fs, s) ← readFields? fuel s
          some ((name, v) :: fs, s)
        | '\x7d' :: s => some ([(name, v)], s)
        | _ => none
      | _ => none
    | _ => none

end

def ofText? (s : Text) : Option Json := do
  let (v, rest) ← read? (s.length + 1) s
  if skipSpace rest = [] then some v else none

/-! ## Fields -/

def field? (name : Text) : Json → Option Json
  | .object fields => (fields.find? fun field => field.1 = name).map Prod.snd
  | _ => none

end Json
end ModuleBoundary
