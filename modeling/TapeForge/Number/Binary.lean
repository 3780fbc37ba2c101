/-!
# Binary floating point

A format is a precision and the exponents of its smallest and largest unit. Rounding a positive
fraction to a format goes to the nearest value, a tie to the even mantissa, and can overflow.
-/

namespace TapeForge

/-- A binary floating-point format: `precision` bits of mantissa, units from `2 ^ least` on, and
`width` bits in all. -/
structure BinaryFormat where
  precision : Nat
  least : Int
  width : Nat
  deriving Repr, DecidableEq

namespace BinaryFormat

def double : BinaryFormat := ⟨53, -1074, 64⟩

def single : BinaryFormat := ⟨24, -149, 32⟩

/-- The number of mantissa bits that are stored. -/
def stored (f : BinaryFormat) : Nat := f.precision - 1

/-- The exponent field of an infinity, all ones. -/
def topField (f : BinaryFormat) : Nat := Nat.pow 2 (f.width - f.precision) - 1

/-- The nearest natural number to a fraction, a tie going to the even one. -/
def nearest (num den : Nat) : Nat :=
  let q := num / den
  let r := num % den
  if 2 * r < den then q else if den < 2 * r then q + 1 else q + q % 2

/-- The fraction `num / den` in units of `2 ^ e`, to the nearest. -/
def inUnits (num den : Nat) (e : Int) : Nat :=
  if e < 0 then nearest (num * Nat.pow 2 (-e).toNat) den
  else nearest num (den * Nat.pow 2 e.toNat)

/-- The exponent of the unit in which the fraction has the precision of the format. -/
def unitExponent (f : BinaryFormat) (num den : Nat) : Int :=
  -- The logarithms of the two parts leave this exponent and the next one.
  let guess : Int := (Nat.log2 num : Int) - Nat.log2 den - f.precision
  let up := Nat.pow 2 (guess + 1).toNat
  let down := Nat.pow 2 (-(guess + 1)).toNat
  let e := if num * down < den * up * Nat.pow 2 f.stored
    then guess else guess + 1
  max f.least e

/-- The bits of the positive value nearest to a fraction; none when it is too large. -/
def bits? (f : BinaryFormat) (num den : Nat) : Option Nat :=
  if num = 0 then some 0
  else
    let e := f.unitExponent num den
    let m := inUnits num den e
    -- Rounding up can give the mantissa one bit more.
    let (m, e) := if m = Nat.pow 2 f.precision then (Nat.pow 2 f.stored, e + 1) else (m, e)
    -- Without its leading bit the value is subnormal, and its field is zero.
    let field := if m < Nat.pow 2 f.stored then 0 else (e - f.least + 1).toNat
    if f.topField ≤ field then none
    else some (field * Nat.pow 2 f.stored + (if field = 0 then m else m - Nat.pow 2 f.stored))

def infinityBits (f : BinaryFormat) : Nat := f.topField * Nat.pow 2 f.stored

def nanBits (f : BinaryFormat) : Nat := f.topField * Nat.pow 2 f.stored + Nat.pow 2 (f.stored - 1)

/-- The mantissa and the exponent of the value with some bits, its sign left out. -/
def parts (f : BinaryFormat) (bits : Nat) : Nat × Int :=
  let field := bits / Nat.pow 2 f.stored % (f.topField + 1)
  let m := bits % Nat.pow 2 f.stored
  if field = 0 then (m, f.least) else (m + Nat.pow 2 f.stored, f.least + field - 1)

end BinaryFormat

namespace Double

def ofBits (bits : Nat) : Float := Float.ofBits (UInt64.ofNat bits)

/-- The double nearest to a signed fraction; an infinity when it is too large. -/
def ofFraction (negative : Bool) (num den : Nat) : Float :=
  let b := (BinaryFormat.double.bits? num den).getD BinaryFormat.double.infinityBits
  ofBits (if negative then b + 0x8000000000000000 else b)

def ofInt (n : Int) : Float := ofFraction (n < 0) n.natAbs 1

def isNegative (x : Float) : Bool := 0x8000000000000000 ≤ x.toBits.toNat

/-- A finite double as its sign, mantissa and exponent. -/
def parts (x : Float) : Bool × Nat × Int :=
  let (m, e) := BinaryFormat.double.parts (x.toBits.toNat % 0x8000000000000000)
  (isNegative x, m, e)

def fraction (x : Float) : Int × Nat :=
  let (neg, m, e) := parts x
  let num : Nat := if e < 0 then m else m * Nat.pow 2 e.toNat
  let den : Nat := if e < 0 then Nat.pow 2 (-e).toNat else 1
  (if neg then -(num : Int) else num, den)

def compareInt (n : Int) (x : Float) : Ordering :=
  let (num, den) := fraction x
  compare (n * den) num

end Double

end TapeForge
