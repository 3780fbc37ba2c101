import TapeForge.Text.Bytes

/-!
# The eight symbols

Program text is written in eight symbols; every other byte of a text is a comment.
-/

namespace TapeForge

inductive Symbol where
  /-- `>` -/
  | right
  /-- `<` -/
  | left
  /-- `+` -/
  | inc
  /-- `-` -/
  | dec
  /-- `.` -/
  | out
  /-- `,` -/
  | inp
  /-- `[` -/
  | opening
  /-- `]` -/
  | closing
  deriving Repr, DecidableEq, Inhabited

namespace Symbol

def char : Symbol → Char
  | right => '>'
  | left => '<'
  | inc => '+'
  | dec => '-'
  | out => '.'
  | inp => ','
  | opening => '['
  | closing => ']'

def byte (s : Symbol) : UInt8 := Bytes.ofAscii s.char

def ofByte? (b : UInt8) : Option Symbol :=
  if b = 62 then some right
  else if b = 60 then some left
  else if b = 43 then some inc
  else if b = 45 then some dec
  else if b = 46 then some out
  else if b = 44 then some inp
  else if b = 91 then some opening
  else if b = 93 then some closing
  else none

end Symbol

def Symbol.text (ss : List Symbol) : Bytes := ss.map Symbol.byte

def Symbol.string (ss : List Symbol) : String := String.ofList (ss.map Symbol.char)

end TapeForge
