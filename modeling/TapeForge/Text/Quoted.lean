import TapeForge.Text.Printable
import TapeForge.Text.Utf8

/-!
# Quoted text

A quoted text stands between quote marks and holds printable characters only. The mark itself and
the backslash are escaped by a backslash, the seven named controls have letters, other characters
are written by number, and a byte that is no UTF-8 as `\xNN`.
-/

namespace TapeForge

namespace Quoted

/-- The letter of a named control character. -/
def controlLetter? (n : Nat) : Option Char :=
  match n with
  | 7 => some 'a'
  | 8 => some 'b'
  | 12 => some 'f'
  | 10 => some 'n'
  | 13 => some 'r'
  | 9 => some 't'
  | 11 => some 'v'
  | _ => none

/-- A character inside text quoted by `mark`. -/
def escapeChar (mark c : Char) : String :=
  if c = mark ∨ c = '\\' then String.ofList ['\\', c]
  else if isPrintable c then String.singleton c
  else
    match controlLetter? c.toNat with
    | some l => String.ofList ['\\', l]
    | none =>
      if c.toNat < 0x20 ∨ c.toNat = 0x7f then "\\x" ++ hexPadded 2 c.toNat
      else if c.toNat < 0x10000 then "\\u" ++ hexPadded 4 c.toNat
      else "\\U" ++ hexPadded 8 c.toNat

def escapeRune (mark : Char) : Rune → String
  | .char c => escapeChar mark c
  | .invalid b => "\\x" ++ hexPadded 2 b.toNat

def text (bs : Bytes) : String :=
  "\"" ++ String.join ((Rune.decode bs).map (escapeRune '"')) ++ "\""

def string (s : String) : String :=
  "\"" ++ String.join (s.toList.map (escapeChar '"')) ++ "\""

def char (c : Char) : String := "'" ++ escapeChar '\'' c ++ "'"

end Quoted

end TapeForge
