import TapeForge.Number.Notation
import TapeForge.Text.Decimal

/-!
# Escapes of strings

The content of a string literal, from the text between its quotes. Escapes are those of bytes and
of code points; in a string that is not a byte string an escape by byte stands for ASCII only.
-/

namespace TapeForge.Script

/-- Why the escapes of a string are not in order. Every cause holds the text that shows it. -/
inductive BadEscape where
  | truncated (text : Bytes)
  | unknown (b : UInt8)
  | invalid (text : Bytes)
  | octalRange (n : Nat)
  | octalNotAscii (n : Nat)
  | hexNotAscii (text : Bytes) (n : Nat)
  | codePointRange (text : Bytes) (n : Nat)
  | surrogate (n : Nat)
  deriving Repr, DecidableEq

def octalPadded (width n : Nat) : String :=
  let digits := Nat.toDigits 8 n
  String.ofList (List.replicate (width - digits.length) '0' ++ digits)

def BadEscape.message : BadEscape → String
  | truncated text => "truncated escape sequence " ++ text.toText
  | unknown b => "invalid escape sequence \\" ++ String.singleton (Char.ofNat b.toNat)
  | invalid text => "invalid escape sequence " ++ text.toText
  | octalRange n => "invalid escape sequence \\" ++ octalPadded 3 n
  | octalNotAscii n =>
    let code := (hexPadded 4 n).toUpper
    "non-ASCII octal escape \\" ++ octalPadded 0 n ++ " (use \\u" ++ code ++
      " for the UTF-8 encoding of U+" ++ code ++ ")"
  | hexNotAscii text n =>
    let code := (hexPadded 4 n).toUpper
    "non-ASCII hex escape " ++ text.toText ++ " (use \\u" ++ code ++
      " for the UTF-8 encoding of U+" ++ code ++ ")"
  | codePointRange text n =>
    "code point out of range: " ++ text.toText ++ " (max \\U" ++ hexPadded 8 n ++ ")"
  | surrogate n => "invalid Unicode code point U+" ++ (hexPadded 4 n).toUpper

def letterEscape? (b : UInt8) : Option UInt8 :=
  if b = 97 then some 7
  else if b = 98 then some 8
  else if b = 102 then some 12
  else if b = 110 then some 10
  else if b = 114 then some 13
  else if b = 116 then some 9
  else if b = 118 then some 11
  else if b = 92 ∨ b = 39 ∨ b = 34 then some b
  else none

def isOctalByte (b : UInt8) : Bool := 48 ≤ b && b ≤ 55

/-- The bytes of an escape and the number of bytes it takes. The text starts with the backslash. -/
def escape (inBytes : Bool) (bs : Bytes) : Except BadEscape (Bytes × Nat) :=
  match bs.drop 1 with
  | [] => .error (.truncated [92])
  | b :: rest =>
    if b = 10 then .ok ([], 2)
    else
      match letterEscape? b with
      | some c => .ok ([c], 2)
      | none =>
        if isOctalByte b then
          let digits := (b :: rest).take 3 |>.takeWhile isOctalByte
          let n := (digitsValue? 8 digits).getD 0
          if !inBytes && 127 < n then .error (.octalNotAscii n)
          else if 256 ≤ n then .error (.octalRange n)
          else .ok ([UInt8.ofNat n], 1 + digits.length)
        else if b = 120 ∨ b = 117 ∨ b = 85 then
          let size := if b = 120 then 4 else if b = 117 then 6 else 10
          if bs.length < size then .error (.truncated bs)
          else
            match digitsValue? 16 ((bs.take size).drop 2) with
            | none => .error (.invalid (bs.take size))
            | some n =>
              if b = 120 then
                if !inBytes && 127 < n then .error (.hexNotAscii (bs.take size) n)
                else .ok ([UInt8.ofNat n], size)
              else if 0x10ffff < n then .error (.codePointRange (bs.take size) n)
              else if 0xd800 ≤ n ∧ n < 0xe000 then .error (.surrogate n)
              else .ok (Bytes.ofChar (Char.ofNat n), size)
        else .error (.unknown b)

/-- The content of a string literal; the number bounds the escapes. -/
def unescape (inBytes : Bool) : Nat → Bytes → Except BadEscape Bytes
  | 0, _ => .ok []
  | fuel + 1, bs =>
    let plain := bs.takeWhile (· ≠ 92)
    match bs.drop plain.length with
    | [] => .ok plain
    | rest => do
      let (escaped, size) ← escape inBytes rest
      return plain ++ escaped ++ (← unescape inBytes fuel (rest.drop size))

/-- The content of a string literal. A raw string has no escapes. -/
def unquote (raw inBytes : Bool) (body : Bytes) : Except BadEscape Bytes :=
  if raw then .ok body else unescape inBytes (body.length + 1) body

end TapeForge.Script
