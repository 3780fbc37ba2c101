import TapeForge.Number.Shortest

/-!
# Numbers with a fixed number of places

A double written with a given number of digits after the point, with or without an exponent. The
last digit is that of the nearest such number, a tie going to the even one.
-/

namespace TapeForge

namespace Fixed

def pointBefore (places n : Nat) : String :=
  let ds := Nat.toDigits 10 n
  let ds := List.replicate (places + 1 - ds.length) '0' ++ ds
  String.ofList (ds.take (ds.length - places) ++ '.' :: ds.drop (ds.length - places))

def signText (x : Float) : String := if Double.isNegative x then "-" else ""

/-- A finite double with `places` digits after the point. -/
def positional (places : Nat) (x : Float) : String :=
  let (num, den) := Double.fraction x
  signText x ++ pointBefore places (BinaryFormat.nearest (num.natAbs * Nat.pow 10 places) den)

/-- The number of decimal digits before the first one that counts, of a positive fraction: the
greatest `k` for which the fraction is at least `10 ^ k`. -/
def magnitude (num den : Nat) : Int :=
  if den ≤ num then ((Nat.toDigits 10 (num / den)).length : Int) - 1
  else -((Nat.toDigits 10 ((den + num - 1) / num - 1)).length : Int)

/-- A finite double with one digit before the point, `places` after it, and an exponent. -/
def exponential (places : Nat) (x : Float) : String :=
  let (num, den) := Double.fraction x
  let num := num.natAbs
  if num = 0 then signText x ++ pointBefore places 0 ++ Shortest.exponentText 0
  else
    let k := magnitude num den
    let shift : Int := places - k
    let n := if 0 ≤ shift then BinaryFormat.nearest (num * Nat.pow 10 shift.toNat) den
      else BinaryFormat.nearest num (den * Nat.pow 10 (-shift).toNat)
    let (n, k) := if n = Nat.pow 10 (places + 1) then (n / 10, k + 1) else (n, k)
    signText x ++ pointBefore places n ++ Shortest.exponentText k

end Fixed

end TapeForge
