/-
What a plain scalar means.

A plain scalar is null, a truth value, a whole number, a float or, if it is none of
these, a text.  Digits behind a leading zero are a text.  A whole number that needs
more than 64 bits but not more than 128 is refused.
-/
import ModuleBoundary.Yaml.Token.Scalar
import ModuleBoundary.Yaml.Value.Basic

namespace ModuleBoundary
namespace Yaml
namespace Plain

def isNull (s : Text) : Bool :=
  s == "null".toList || s == "Null".toList || s == "NULL".toList || s == "~".toList

def bool? (s : Text) : Option Bool :=
  if s == "true".toList || s == "True".toList || s == "TRUE".toList then some true
  else if s == "false".toList || s == "False".toList || s == "FALSE".toList then some false
  else none

/-! ## Whole numbers -/

/-- A number without a sign in base `base`; it needs a digit. -/
def digits? (base : Nat) (s : Text) : Option Nat :=
  if s = [] then none
  else s.foldlM (fun n c => (Text.hexValue? c).bind fun d => if d < base then some (base * n + d) else none) 0

def isSign (c : Char) : Bool := c == '+' || c == '-'

def hasLeadingZero (s : Text) : Bool :=
  let s := match s with
    | c :: r => if isSign c then r else s
    | [] => []
  match s with
  | '0' :: r => !r.isEmpty && r.all Char.isDigit
  | _ => false

def based? : Text → Option Nat
  | '0' :: 'x' :: r => digits? 16 r
  | '0' :: 'o' :: r => digits? 8 r
  | '0' :: 'b' :: r => digits? 2 r
  | _ => none

def unsigned? (s : Text) : Option Nat :=
  let t := match s with
    | '+' :: r => r
    | _ => s
  (based? t).orElse fun _ => if hasLeadingZero s then none else digits? 10 t

def negated? : Text → Option Nat
  | '-' :: r => (based? r).orElse fun _ => if hasLeadingZero r then none else digits? 10 r
  | _ => none

/-- A whole number: none at all, one that is refused, or one with its value. -/
inductive Whole
  | no
  | refused
  | is (n : Int)
  deriving DecidableEq, Repr

def whole (s : Text) : Whole :=
  match unsigned? s, negated? s with
  | some n, _ =>
    if n < Nat.pow 2 64 then .is n else if n < Nat.pow 2 128 then .refused else .no
  | none, some n =>
    if n ≤ Nat.pow 2 63 then .is (-n) else if n ≤ Nat.pow 2 127 then .refused else .no
  | none, none => .no

/-! ## Floats -/

def exponent? : Text → Option Int
  | [] => some 0
  | c :: s =>
    if c = 'e' ∨ c = 'E' then
      match s with
      | '-' :: r => (digits? 10 r).map fun n => -n
      | '+' :: r => (digits? 10 r).map fun n => n
      | r => (digits? 10 r).map fun n => n
    else none

/-- A decimal without a sign: digits with at most one point among them, and perhaps
an exponent. -/
def decimal? (s : Text) : Option (Nat × Int) :=
  let whole := s.takeWhile Char.isDigit
  let rest := s.dropWhile Char.isDigit
  let (fraction, rest) := match rest with
    | '.' :: r => (r.takeWhile Char.isDigit, r.dropWhile Char.isDigit)
    | _ => ([], rest)
  match digits? 10 (whole ++ fraction), exponent? rest with
  | some n, some e => some (n, e - fraction.length)
  | _, _ => none

def isInfinity (s : Text) : Bool := s == ".inf".toList || s == ".Inf".toList || s == ".INF".toList

def isNan (s : Text) : Bool := s == ".nan".toList || s == ".NaN".toList || s == ".NAN".toList

def float? (s : Text) : Option Binary64 :=
  match s with
  | '-' :: r =>
    if isInfinity r then some (.infinite true)
    else (decimal? r).bind fun d => Binary64.ofDecimal? true d.1 d.2
  | '+' :: r =>
    if isInfinity r then some (.infinite false)
    else (decimal? r).bind fun d => Binary64.ofDecimal? false d.1 d.2
  | _ =>
    if isInfinity s then some (.infinite false)
    else if isNan s then some .nan
    else (decimal? s).bind fun d => Binary64.ofDecimal? false d.1 d.2

/-! ## Scalars -/

def value? (s : Text) : Option Value :=
  if s = [] ∨ isNull s = true then some .null
  else match bool? s with
    | some b => some (.bool b)
    | none =>
      match whole s with
      | .is n => some (.int n)
      | .refused => none
      | .no =>
        match if hasLeadingZero s then none else float? s with
        | some x => some (.float x)
        | none => some (.string s)

/-- The value of a scalar whose tag is a core one asks for a kind of value; other core
tags, such as the one of texts, make a text of it. -/
def forced? (tag s : Text) : Option Value :=
  if tag = "tag:yaml.org,2002:bool".toList then (bool? s).map .bool
  else if tag = "tag:yaml.org,2002:int".toList then
    match whole s with
    | .is n => some (.int n)
    | _ => none
  else if tag = "tag:yaml.org,2002:float".toList then (float? s).map .float
  else if tag = "tag:yaml.org,2002:null".toList then if isNull s then some .null else none
  else some (.string s)

end Plain
end Yaml
end ModuleBoundary
