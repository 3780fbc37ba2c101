import TapeForge.Number.Binary
import TapeForge.Text.Blank

/-!
# Numbers as text

Integers are written in decimal or, after `0b`, `0o` or `0x`, in another base; a leading zero alone
means octal. Floating-point numbers are decimal, or hexadecimal with a binary exponent. In both an
underscore may stand between digits.
-/

namespace TapeForge

def digitValue? (b : UInt8) : Option Nat :=
  if 48 ≤ b && b ≤ 57 then some (b.toNat - 48)
  else if 97 ≤ b && b ≤ 102 then some (b.toNat - 87)
  else if 65 ≤ b && b ≤ 70 then some (b.toNat - 55)
  else none

/-- The value of digits in a base; none when one of them is no digit of the base. -/
def digitsValue? (base : Nat) (ds : Bytes) : Option Nat :=
  if ds.isEmpty then none
  else ds.foldl (fun acc d => do
    let n ← acc
    let v ← digitValue? d
    if v < base then some (n * base + v) else none) (some 0)

def isDigitByte (b : UInt8) : Bool := 48 ≤ b && b ≤ 57

inductive NumberFault where
  | invalid
  | outOfRange
  deriving Repr, DecidableEq

def NumberFault.message : NumberFault → String
  | invalid => "invalid syntax"
  | outOfRange => "value out of range"

namespace Notation

inductive Before where
  | digit
  | underscore
  | other
  deriving Repr, DecidableEq

/-- Whether every underscore from here on stands between digits. -/
def underscoresFrom (hex : Bool) : Before → Bytes → Bool
  | before, [] => before ≠ .underscore
  | before, b :: rest =>
    if isDigitByte b || (hex && (digitValue? b).isSome) then underscoresFrom hex .digit rest
    else if b = 95 then before = .digit && underscoresFrom hex .underscore rest
    else before ≠ .underscore && underscoresFrom hex .other rest

def unsigned : Bytes → Bool × Bytes
  | 43 :: rest => (false, rest)
  | 45 :: rest => (true, rest)
  | bs => (false, bs)

/-- The base that a mark after a zero stands for. -/
def markedBase? (b : UInt8) : Option Nat :=
  let b := Bytes.lowerByte b
  if b = 98 then some 2 else if b = 111 then some 8 else if b = 120 then some 16 else none

/-- Whether every underscore of a number stands between digits; the mark of a base counts as one. -/
def underscoresFit (bs : Bytes) : Bool :=
  match (unsigned bs).2 with
  | 48 :: b :: rest =>
    match markedBase? b with
    | some base => underscoresFrom (base = 16) .digit rest
    | none => underscoresFrom false .other (48 :: b :: rest)
  | bs => underscoresFrom false .other bs

def split (bs : Bytes) : Nat × Bytes :=
  match bs with
  | 48 :: b :: c :: rest =>
    match markedBase? b with
    | some base => (base, c :: rest)
    | none => (8, b :: c :: rest)
  | 48 :: rest => (8, rest)
  | bs => (10, bs)

/-- Adds up digits from the left. The first that is no digit, or that makes the number too large,
decides. -/
def sumDigits (base limit : Nat) : Nat → Bytes → Except NumberFault Nat
  | n, [] => .ok n
  | n, b :: rest =>
    if b = 95 then sumDigits base limit n rest
    else
      match digitValue? b with
      | none => .error .invalid
      | some v =>
        if base ≤ v then .error .invalid
        else if limit < n * base + v then .error .outOfRange
        else sumDigits base limit (n * base + v) rest

/-- A natural number of at most `bits` bits. -/
def natural (bits : Nat) (bs : Bytes) : Except NumberFault Nat :=
  if bs.isEmpty then .error .invalid
  else
    let (base, digits) := split bs
    match sumDigits base (Nat.pow 2 bits - 1) 0 digits with
    | .error e => .error e
    | .ok n => if bs.contains 95 && !underscoresFit bs then .error .invalid else .ok n

/-- A signed number of `bits` bits. -/
def integer (bits : Nat) (bs : Bytes) : Except NumberFault Int :=
  let (negative, body) := unsigned bs
  let half := Nat.pow 2 (bits - 1)
  match natural bits body with
  | .error e => .error e
  | .ok n =>
    -- There is one number more below zero than above.
    if negative then (if half < n then .error .outOfRange else .ok (-n))
    else if half ≤ n then .error .outOfRange
    else .ok n

/-- The digits of a number read so far: their value, how many stand after the point, and whether
there was a digit, a point. -/
structure Mantissa where
  value : Nat := 0
  scale : Nat := 0
  digit : Bool := false
  point : Bool := false

def mantissa (base : Nat) : Mantissa → Bytes → Mantissa × Bytes
  | m, [] => (m, [])
  | m, b :: rest =>
    if b = 95 then mantissa base m rest
    else if b = 46 then
      if m.point then (m, b :: rest) else mantissa base { m with point := true } rest
    else
      match digitValue? b with
      | none => (m, b :: rest)
      | some v =>
        if v < base then
          mantissa base
            { m with
              value := m.value * base + v
              scale := if m.point then m.scale + 1 else m.scale
              digit := true } rest
        else (m, b :: rest)

/-- The size of an exponent. Digits after it has reached ten thousand do not count: it is then
beyond every format. -/
def exponentSize (digits : Bytes) : Nat :=
  digits.foldl (fun n d => if n < 10000 then n * 10 + (d.toNat - 48) else n) 0

/-- Reads an exponent after its mark; nothing may follow it. -/
def exponent (bs : Bytes) : Option Int :=
  let (negative, body) := unsigned bs
  let digits := body.filter (· ≠ 95)
  match body with
  | b :: _ =>
    if isDigitByte b ∧ digits.all isDigitByte then
      some (if negative then -(exponentSize digits : Int) else exponentSize digits)
    else none
  | [] => none

/-- The value `digits · base ^ e` in a format, as a double. Values far outside of every format are
not computed: `least` and `most` bound the binary logarithm of the power. -/
def scaled (f : BinaryFormat) (base digits : Nat) (e : Int) : Except NumberFault Float :=
  let (least, most) := if base = 2 then (e, e) else if 0 ≤ e then (3 * e, 4 * e)
    else (10 * e / 3, 3 * e)
  let magnitude : Int := Nat.log2 digits
  if digits = 0 then .ok 0
  else if 5000 < magnitude + least then .error .outOfRange
  else if magnitude + most < -5000 then .ok 0
  else
    let (num, den) := if 0 ≤ e then (digits * Nat.pow base e.toNat, 1)
      else (digits, Nat.pow base (-e).toNat)
    match f.bits? num den with
    | none => .error .outOfRange
    | some b =>
      let (m, x) := f.parts b
      .ok (if 0 ≤ x then Double.ofFraction false (m * Nat.pow 2 x.toNat) 1
        else Double.ofFraction false m (Nat.pow 2 (-x).toNat))

def infinityOf (bs : Bytes) : Float :=
  let infinity := Double.ofBits BinaryFormat.double.infinityBits
  if (unsigned bs).1 then -infinity else infinity

def word? (bs : Bytes) : Option Float :=
  let word := Bytes.lower (unsigned bs).2
  if word = Bytes.ofString "inf" ∨ word = Bytes.ofString "infinity" then some (infinityOf bs)
  else if Bytes.lower bs = Bytes.ofString "nan" then
    some (Double.ofBits BinaryFormat.double.nanBits)
  else none

def finite (f : BinaryFormat) (bs : Bytes) : Except NumberFault Float :=
  let (base, mark, body) := match bs with
    | 48 :: x :: c :: rest =>
      if Bytes.lowerByte x = 120 then (16, (112 : UInt8), c :: rest)
      else (10, 101, 48 :: x :: c :: rest)
    | bs => (10, 101, bs)
  let (m, rest) := mantissa base {} body
  let shift : Int := if base = 16 then 4 * m.scale else m.scale
  let power := if base = 16 then 2 else 10
  if !m.digit then .error .invalid
  else
    match rest with
    | [] => if base = 16 then .error .invalid else scaled f power m.value (-shift)
    | b :: rest =>
      if Bytes.lowerByte b = mark then
        match exponent rest with
        | some e => scaled f power m.value (e - shift)
        | none => .error .invalid
      else .error .invalid

def float (f : BinaryFormat) (bs : Bytes) : Except NumberFault Float :=
  match word? bs with
  | some x => .ok x
  | none =>
    if bs.contains 95 && !underscoresFit bs then .error .invalid
    else
      match finite f (unsigned bs).2 with
      | .ok x => .ok (if (unsigned bs).1 then -x else x)
      | .error e => .error e

/-- A floating-point number, rounded to a format. One that is too large is an infinity; a text that
is no number is zero. -/
def floatD (f : BinaryFormat) (bs : Bytes) : Float :=
  match float f bs with
  | .ok x => x
  | .error .outOfRange => infinityOf bs
  | .error .invalid => 0

end Notation

end TapeForge
