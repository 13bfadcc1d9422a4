/-
What is left of a text for a terminal when it goes to a file.

Control sequences start with an escape character and are left out, and so are the
control characters that are no white space.  `Control` says which kind of sequence a
reader is in, and `plain` keeps what shows.  A text without control characters is
kept as it is (`plain_eq_self`).
-/
import ModuleBoundary.Text.Basic

namespace ModuleBoundary
namespace Terminal

inductive Control
  /-- No sequence has started. -/
  | none
  /-- The escape character. -/
  | escape
  /-- The start of a sequence that chooses a set of characters. -/
  | charset
  /-- The start of a sequence with parameters, such as one for a colour. -/
  | sequence
  /-- The start of a string for the device, the same behind parameters, and behind the
  signs that follow them. -/
  | device
  | deviceParams
  | deviceSigns
  /-- The inside of a command to the system, which a bell ends. -/
  | command
  /-- The inside of any other string. -/
  | string
  deriving DecidableEq, Repr

def endsString (c : Char) : Bool := (String.utf8EncodeChar c).contains 0x9C

def within (low high : Nat) (c : Char) : Bool := low ≤ c.toNat && c.toNat ≤ high

/-- Behind a character that does not show.  An escape character starts a new sequence
everywhere, and two control characters end every one. -/
def Control.next (k : Control) (c : Char) : Control :=
  if c = '\x1b' then .escape
  else if c = '\x18' ∨ c = '\x1a' then .none
  else match k with
    | .none => .none
    | .escape =>
      if within 0x20 0x2F c then .charset
      else if c = '[' then .sequence
      else if c = ']' then .command
      else if c = 'P' then .device
      else if c = 'X' ∨ c = '^' ∨ c = '_' then .string
      else if within 0x30 0x7E c then .none
      else .escape
    | .charset => if within 0x30 0x7E c then .none else .charset
    | .sequence => if within 0x40 0x7E c then .none else .sequence
    | .device =>
      if within 0x20 0x2F c then .deviceSigns
      else if within 0x30 0x3F c then .deviceParams
      else if within 0x40 0x7E c then .string
      else .device
    | .deviceParams =>
      if within 0x20 0x2F c then .deviceSigns
      else if within 0x3C 0x7E c then .string
      else .deviceParams
    | .deviceSigns => if within 0x30 0x7E c then .string else .deviceSigns
    | .command => if c = '\x07' then .none else .command
    | .string => if endsString c then .none else .string

def isSpacing (c : Char) : Bool := c == '\t' || c == '\n' || c == '\x0c' || c == '\r'

def isShown (c : Char) : Bool := isSpacing c || (0x20 ≤ c.toNat && c != '\x7f')

/-- The character shows.  In a sequence that is no string white space is still carried
out. -/
def Control.shows (k : Control) (c : Char) : Bool :=
  match k with
  | .none => isShown c
  | .escape | .charset | .sequence => isSpacing c
  | _ => false

/-- What shows of a text behind `k`.  `running` says that the character before has
shown: a run of characters that show goes on in any case, and the sequence is taken
up again behind it unless a character beyond ASCII is in the run. -/
def plainFrom (k : Control) (running : Bool) : Text → Text
  | [] => []
  | c :: s =>
    if (if running then isShown c else k.shows c) then
      c :: plainFrom (if c.toNat < 0x80 then k else .none) true s
    else plainFrom (k.next c) false s

def plain (s : Text) : Text := plainFrom .none false s

theorem plainFrom_none {s : Text} (running : Bool) (h : ∀ c ∈ s, isShown c = true) :
    plainFrom .none running s = s := by
  induction s generalizing running with
  | nil => rfl
  | cons c s ih =>
    have hc : isShown c = true := h c List.mem_cons_self
    have hs := ih true fun d hd => h d (List.mem_cons_of_mem c hd)
    simp [plainFrom, Control.shows, hc, hs]

/-- A text without control characters is kept as it is. -/
theorem plain_eq_self {s : Text} (h : ∀ c ∈ s, isShown c = true) : plain s = s :=
  plainFrom_none false h

end Terminal
end ModuleBoundary
