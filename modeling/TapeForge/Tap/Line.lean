import TapeForge.Text.Utf8

/-!
# Lines of a session

The standard input of a session is read as it would be typed: a line ends at a line feed or carriage
return, a tab is answered by a bell and left out, and a zero character ends the input. What is no
UTF-8 is read as the replacement character.
-/

namespace TapeForge.Tap

/-- A line, and the number of bells it was answered by. -/
structure Line where
  content : Bytes
  bells : Nat := 0
  deriving Repr, DecidableEq

namespace Line

/-- The characters of a line read so far, the last first, and its bells. -/
structure Pending where
  chars : List Char := []
  bells : Nat := 0

def Pending.line (p : Pending) : Line := ⟨p.chars.reverse.flatMap Bytes.ofChar, p.bells⟩

/-- The lines of characters after those of a pending line. A last line without an end is a line, if
anything was typed. -/
def ofChars (p : Pending) : List Char → List Line
  | [] => if p.chars.isEmpty then [] else [p.line]
  | c :: cs =>
    if c = '\n' ∨ c = '\r' then p.line :: ofChars {} cs
    else if c = '\t' then ofChars { p with bells := p.bells + 1 } cs
    else if c.toNat = 0 then (if p.chars.isEmpty then [] else [p.line])
    else ofChars { p with chars := c :: p.chars } cs

def ofInput (input : Bytes) : List Line := ofChars {} ((Rune.decode input).map Rune.shown)

def bellsOf (lines : List Line) : Bytes := lines.flatMap fun l => List.replicate l.bells 7

end Line

end TapeForge.Tap
