/-!
# Byte strings

Program texts, script strings and outputs are plain sequences of bytes: they need not be UTF-8.
-/

namespace TapeForge

/-- A byte string. -/
abbrev Bytes := List UInt8

namespace Bytes

/-- The UTF-8 bytes of a string. -/
def ofString (s : String) : Bytes := s.toUTF8.data.toList

/-- A byte that stands for an ASCII character. -/
def ofAscii (c : Char) : UInt8 := c.toNat.toUInt8

def times (n : Nat) (bs : Bytes) : Bytes := (List.replicate n bs).flatten

/-- Lexicographic comparison by byte value. -/
def compare : Bytes → Bytes → Ordering
  | [], [] => .eq
  | [], _ :: _ => .lt
  | _ :: _, [] => .gt
  | a :: as, b :: bs => if a < b then .lt else if b < a then .gt else compare as bs

end Bytes

/-- The lower-case hexadecimal digit of a number below sixteen. -/
def hexDigit (n : Nat) : Char :=
  if n < 10 then Char.ofNat (48 + n) else Char.ofNat (87 + n)

/-- `n` in lower-case hexadecimal, padded with zeros to `width` digits. -/
def hexPadded (width n : Nat) : String :=
  let digits := (Nat.toDigits 16 n)
  String.ofList (List.replicate (width - digits.length) '0' ++ digits)

namespace Bytes

/-- The lower-case hexadecimal text of a byte string, two digits a byte. -/
def toHex (bs : Bytes) : String :=
  String.ofList (bs.flatMap fun b => [hexDigit (b.toNat / 16), hexDigit (b.toNat % 16)])

end Bytes

end TapeForge
