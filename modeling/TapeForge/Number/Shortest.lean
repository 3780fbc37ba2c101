import TapeForge.Number.Binary
import TapeForge.Text.Decimal

/-!
# The fewest digits that read back

A finite double is written with the fewest decimal digits that only it is nearest to, and of those
the nearest. Exponents from -5 down and from 6 up are written with `e`.
-/

namespace TapeForge

namespace Shortest

/-- The reals that round to a mantissa and exponent, as numerators over `den`: the value and the
ends of the interval, which belong to it when the mantissa is even. -/
structure Interval where
  low : Nat
  value : Nat
  high : Nat
  den : Nat
  closed : Bool

/-- The interval of a positive double. Below a power of two the next value is only half as far. -/
def interval (m : Nat) (e : Int) : Interval :=
  let down := if m = 0x10000000000000 ∧ -1074 < e then 1 else 2
  let up := if 2 ≤ e then Nat.pow 2 (e - 2).toNat else 1
  let den := if 2 ≤ e then 1 else Nat.pow 2 (2 - e).toNat
  { low := (4 * m - down) * up, value := 4 * m * up, high := (4 * m + 2) * up, den,
    closed := m % 2 = 0 }

/-- Whether `d * 10 ^ k` lies in the interval. -/
def Interval.holds (i : Interval) (d : Nat) (k : Int) : Bool :=
  let x := if 0 ≤ k then d * Nat.pow 10 k.toNat * i.den else d * i.den
  let scale := if 0 ≤ k then 1 else Nat.pow 10 (-k).toNat
  if i.closed then i.low * scale ≤ x && x ≤ i.high * scale
  else i.low * scale < x && x < i.high * scale

/-- The multiple of `10 ^ k` in the interval that is nearest to the value, if there is one. -/
def Interval.onGrid? (i : Interval) (k : Int) : Option Nat :=
  let num := if 0 ≤ k then i.value else i.value * Nat.pow 10 (-k).toNat
  let den := if 0 ≤ k then i.den * Nat.pow 10 k.toNat else i.den
  let d := num / den
  let r := num % den
  let nearer := if 2 * r < den ∨ (2 * r = den ∧ d % 2 = 0) then d else d + 1
  let other := if nearer = d then d + 1 else d
  if i.holds nearer k then some nearer else if i.holds other k then some other else none

/-- Tries ever finer grids. -/
def search (i : Interval) : Nat → Int → Nat × Int
  | 0, k => (i.value / i.den, k)
  | fuel + 1, k =>
    match i.onGrid? k with
    | some d => if d = 0 then search i fuel (k - 1) else (d, k)
    | none => search i fuel (k - 1)

def strip : Nat → Nat → Int → Nat × Int
  | 0, d, k => (d, k)
  | fuel + 1, d, k => if d % 10 = 0 ∧ d ≠ 0 then strip fuel (d / 10) (k + 1) else (d, k)

/-- Digits `d` and an exponent `k` such that `d * 10 ^ k` is the shortest text of a positive
double. -/
def digits (m : Nat) (e : Int) : Nat × Int :=
  let i := interval m e
  -- The factor is the decimal logarithm of two; the grid of `top` is about as coarse as the value.
  let top : Int := Int.fdiv ((Nat.log2 m + e) * 30103) 100000 + 1
  let (d, k) := search i 40 top
  strip 20 d k

/-- The exponent of an `e` notation: a sign and at least two digits. -/
def exponentText (n : Int) : String :=
  let ds := Decimal.ofNat n.natAbs
  (if n < 0 then "e-" else "e+") ++ (if ds.length < 2 then "0" ++ ds else ds)

/-- Digits with a point after the first. -/
def pointed : List Char → String
  | [] => ""
  | [c] => String.singleton c
  | c :: rest => String.ofList (c :: '.' :: rest)

/-- Digits `ds` with the decimal point after `point` of them. -/
def positional (ds : List Char) (point : Int) : String :=
  if point ≤ 0 then String.ofList ('0' :: '.' :: List.replicate (-point).toNat '0' ++ ds)
  else if ds.length ≤ point.toNat then
    String.ofList (ds ++ List.replicate (point.toNat - ds.length) '0')
  else String.ofList (ds.take point.toNat ++ '.' :: ds.drop point.toNat)

/-- The text of a finite double. A whole number has no point. -/
def general (x : Float) : String :=
  let (neg, m, e) := Double.parts x
  let body :=
    if m = 0 then "0"
    else
      let (d, k) := digits m e
      let ds := Nat.toDigits 10 d
      let exp : Int := k + ds.length - 1
      if exp < -4 ∨ 6 ≤ exp then pointed ds ++ exponentText exp
      else positional ds (exp + 1)
  (if neg then "-" else "") ++ body

end Shortest

/-- The text of a double: infinities and NaN by name, and `.0` after a whole number written without
exponent. -/
def Double.text (x : Float) : String :=
  if x.isNaN then "nan"
  else if x.isInf then (if x < 0 then "-inf" else "+inf")
  else
    let s := Shortest.general x
    if s.toList.any (fun c => c = '.' ∨ c = 'e') then s else s ++ ".0"

end TapeForge
