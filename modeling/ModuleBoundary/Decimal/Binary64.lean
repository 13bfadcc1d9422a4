/-
Binary floating point of 64 bits: reading a decimal and writing one, in exact
arithmetic.

A finite number is `mantissa * 2 ^ exponent` with a sign.  A decimal is read as the
nearest such number, of two equally near ones as the one with the even mantissa.
A number is written with the fewest digits that read back as it; of two decimals
with that many digits the nearer one is taken, and the upper one if both are
equally near.  Nothing here computes with machine floats.
-/
import ModuleBoundary.Text.Basic

namespace ModuleBoundary

/-- A finite mantissa is below `2 ^ 53`, and at least `2 ^ 52` unless the exponent is
the least one, `-1074`.  Zero keeps its sign. -/
inductive Binary64
  | nan
  | infinite (negative : Bool)
  | finite (negative : Bool) (mantissa : Nat) (exponent : Int)
  deriving DecidableEq, Repr

namespace Binary64

def minExponent : Int := -1074

def maxExponent : Int := 971

/-- The quotient to the nearest integer, of two equally near ones the even one. -/
def roundDiv (num den : Nat) : Nat :=
  let q := num / den
  let twice := 2 * (num % den)
  if twice < den ∨ (twice = den ∧ q % 2 = 0) then q else q + 1

/-- An exact division needs no rounding. -/
theorem roundDiv_mul (n : Nat) {den : Nat} (h : 0 < den) : roundDiv (n * den) den = n := by
  simp [roundDiv, Nat.mul_div_cancel n h, Nat.mul_mod_left, h]

def decimalFraction (n : Nat) (e : Int) : Nat × Nat :=
  if 0 ≤ e then (n * Nat.pow 10 e.toNat, 1) else (n, Nat.pow 10 (-e).toNat)

def scaleDown (n d : Nat) (e : Int) : Nat × Nat :=
  if 0 ≤ e then (n, d * Nat.pow 2 e.toNat) else (n * Nat.pow 2 (-e).toNat, d)

/-- The exponent for the fraction `n / d`: the one that leaves 53 binary digits in
front of the point, but not less than the least one. -/
def exponentFor (n d : Nat) : Int :=
  let e : Int := (Nat.log2 n : Int) - (Nat.log2 d : Int) - 52
  let (p, q) := scaleDown n d e
  max minExponent (if p / q < Nat.pow 2 52 then e - 1 else e)

/-- The number nearest to the decimal `±n * 10 ^ e`; `none` if it is too large.
Decimals far outside the range are settled by their number of digits. -/
def ofDecimal? (negative : Bool) (n : Nat) (e : Int) : Option Binary64 :=
  let magnitude : Int := (Nat.toDigits 10 n).length + e
  if n = 0 ∨ magnitude < -400 then some (.finite negative 0 minExponent)
  else if 400 < magnitude then none
  else
    let (num, den) := decimalFraction n e
    let x := exponentFor num den
    let (p, q) := scaleDown num den x
    let m := roundDiv p q
    let (m, x) := if m = Nat.pow 2 53 then (Nat.pow 2 52, x + 1) else (m, x)
    if maxExponent < x then none else some (.finite negative m x)

/-! ## Shortest decimals -/

/-- The reals that read back as `m * 2 ^ e` lie between `low / den` and
`high / den`; the ends count if `closed`. -/
structure Interval where
  low : Nat
  value : Nat
  high : Nat
  den : Nat
  closed : Bool

/-- The interval of a number that is not zero.  Below a power of two the gap to the
next number is half as wide. -/
def interval (m : Nat) (e : Int) : Interval :=
  let narrow := m = Nat.pow 2 52 ∧ minExponent < e
  let v := 4 * m
  let low := if narrow then v - 1 else v - 2
  if 0 ≤ e then
    let s := Nat.pow 2 e.toNat
    ⟨low * s, v * s, (v + 2) * s, 4, m % 2 = 0⟩
  else ⟨low, v, v + 2, 4 * Nat.pow 2 (-e).toNat, m % 2 = 0⟩

/-- The decimal `d * 10 ^ k` reads back as the number. -/
def Interval.holds (i : Interval) (d : Nat) (k : Int) : Bool :=
  let (num, den) := decimalFraction d k
  let x := num * i.den
  if i.closed then i.low * den ≤ x && x ≤ i.high * den
  else i.low * den < x && x < i.high * den

/-- The better of the two decimals next to the number on the grid `10 ^ k`. -/
def Interval.onGrid? (i : Interval) (k : Int) : Option Nat :=
  let (num, den) :=
    if 0 ≤ k then (i.value, i.den * Nat.pow 10 k.toNat)
    else (i.value * Nat.pow 10 (-k).toNat, i.den)
  let d := num / den
  let below := i.holds d k
  let upper := if num % den = 0 then d else d + 1
  let above := i.holds upper k
  if below && above then some (if den ≤ 2 * (num % den) then upper else d)
  else if below then some d
  else if above then some upper
  else none

/-- The first grid, from coarse to fine, on which a decimal reads back. -/
def Interval.search (i : Interval) : Nat → Int → Nat × Int
  | 0, k => (0, k)
  | fuel + 1, k =>
    match i.onGrid? k with
    | some d => if d = 0 then i.search fuel (k - 1) else (d, k)
    | none => i.search fuel (k - 1)

def stripZeros : Nat → Nat × Int → Nat × Int
  | 0, dk => dk
  | fuel + 1, (d, k) => if d ≠ 0 ∧ d % 10 = 0 then stripZeros fuel (d / 10, k + 1) else (d, k)

/-- The shortest decimal `d * 10 ^ k` for `m * 2 ^ e`.  The number has at most 309
digits in front of the point, and its leading digit is at most 324 places behind
it, so the search from `10 ^ 309` ends. -/
def shortest (m : Nat) (e : Int) : Nat × Int := stripZeros 20 ((interval m e).search 660 309)

def positional (d : Nat) (k : Int) : Text :=
  let digits := Nat.toDigits 10 d
  if 0 ≤ k then digits ++ List.replicate k.toNat '0'
  else
    let places := (-k).toNat
    if digits.length ≤ places then
      '0' :: '.' :: List.replicate (places - digits.length) '0' ++ digits
    else
      digits.take (digits.length - places) ++ '.' :: digits.drop (digits.length - places)

/-- The text of a number.  A finite one always has a point. -/
def display : Binary64 → Text
  | .nan => "NaN".toList
  | .infinite negative => if negative then "-inf".toList else "inf".toList
  | .finite negative m e =>
    let (d, k) := if m = 0 then (0, 0) else shortest m e
    let t := positional d k
    let t := if '.' ∈ t then t else t ++ ".0".toList
    if negative then '-' :: t else t

/-- Equality of keys: every NaN is the same, and so are the two zeros. -/
def same : Binary64 → Binary64 → Bool
  | .finite _ 0 _, .finite _ 0 _ => true
  | a, b => a == b

end Binary64
end ModuleBoundary
