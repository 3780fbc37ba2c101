import TapeForge.Text.Bytes

/-!
# Decoding UTF-8

Byte strings are read as characters where they are valid UTF-8; every byte that starts no valid
character stands for itself, so nothing is lost. Overlong forms, surrogates and code points above
`0x10ffff` are invalid.
-/

namespace TapeForge

/-- One unit of a decoded byte string: a character, or a byte that is no UTF-8. -/
inductive Rune where
  | char (c : Char)
  | invalid (b : UInt8)
  deriving Repr, DecidableEq, Inhabited

namespace Rune

def continuation? (b : UInt8) : Option Nat :=
  if 0x80 ≤ b && b ≤ 0xbf then some (b.toNat - 0x80) else none

/-- A code point of at least `least` that is a character. -/
def scalar? (least n : Nat) : Option Char :=
  if least ≤ n ∧ n.isValidChar then some (Char.ofNat n) else none

def decodeFirst? : Bytes → Option (Char × Nat)
  | [] => none
  | a :: rest =>
    if a < 0x80 then some (Char.ofNat a.toNat, 1)
    else if a < 0xc0 then none
    else if a < 0xe0 then
      match rest with
      | b :: _ => do
        let y ← continuation? b
        let c ← scalar? 0x80 ((a.toNat - 0xc0) * 64 + y)
        return (c, 2)
      | _ => none
    else if a < 0xf0 then
      match rest with
      | b :: c :: _ => do
        let y ← continuation? b
        let z ← continuation? c
        let r ← scalar? 0x800 (((a.toNat - 0xe0) * 64 + y) * 64 + z)
        return (r, 3)
      | _ => none
    else if a < 0xf8 then
      match rest with
      | b :: c :: d :: _ => do
        let y ← continuation? b
        let z ← continuation? c
        let w ← continuation? d
        let r ← scalar? 0x10000 ((((a.toNat - 0xf0) * 64 + y) * 64 + z) * 64 + w)
        return (r, 4)
      | _ => none
    else none

/-- Decodes with `skip` bytes of the present character still to pass. -/
def decodeFrom : Nat → Bytes → List Rune
  | _, [] => []
  | skip + 1, _ :: rest => decodeFrom skip rest
  | 0, b :: rest =>
    match decodeFirst? (b :: rest) with
    | some (c, n) => .char c :: decodeFrom (n - 1) rest
    | none => .invalid b :: decodeFrom 0 rest

/-- The characters and stray bytes of a byte string, in order. -/
def decode (bs : Bytes) : List Rune := decodeFrom 0 bs

/-- The character shown for a unit; a stray byte shows as the replacement character. -/
def shown : Rune → Char
  | .char c => c
  | .invalid _ => Char.ofNat 0xfffd

end Rune

/-- A byte string as text, stray bytes shown as replacement characters. -/
def Bytes.toText (bs : Bytes) : String := String.ofList ((Rune.decode bs).map Rune.shown)

def Bytes.isUtf8 (bs : Bytes) : Bool :=
  (Rune.decode bs).all fun | .char _ => true | .invalid _ => false

def Bytes.ofChar (c : Char) : Bytes := Bytes.ofString (String.singleton c)

end TapeForge
