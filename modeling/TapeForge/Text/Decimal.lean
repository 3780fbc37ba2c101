/-!
# Decimal text of words

The plain decimal text of signed and unsigned 64-bit words.
-/

namespace TapeForge

namespace Decimal

def ofNat (n : Nat) : String := String.ofList (Nat.toDigits 10 n)

/-- The decimal text of an integer, with a minus sign when it is negative. -/
def ofInt : Int → String
  | .ofNat n => ofNat n
  | .negSucc n => "-" ++ ofNat (n + 1)

def ofInt64 (n : Int64) : String := ofInt n.toInt

def ofUInt64 (n : UInt64) : String := ofNat n.toNat

def padLeft (width : Nat) (s : String) : String :=
  String.ofList (List.replicate (width - s.length) ' ') ++ s

end Decimal

end TapeForge
