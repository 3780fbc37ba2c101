import TapeForge.Text.Blank

/-!
# Searching and splitting byte strings

Where one byte string occurs in another, and the parts between the occurrences of a separator or of
white space.
-/

namespace TapeForge

def Rune.bytes : Rune → Bytes
  | .char c => Bytes.ofChar c
  | .invalid b => [b]

def Bytes.ofRunes (rs : List Rune) : Bytes := rs.flatMap Rune.bytes

namespace Bytes

/-- The place of the first occurrence of a text, counted from `i`. -/
def findFrom? (needle : Bytes) : Nat → Bytes → Option Nat
  | i, [] => if needle.isEmpty then some i else none
  | i, b :: rest =>
    if needle.isPrefixOf (b :: rest) then some i else findFrom? needle (i + 1) rest

def find? (needle s : Bytes) : Option Nat := findFrom? needle 0 s

def findLast? (needle s : Bytes) : Option Nat :=
  (find? needle.reverse s.reverse).map fun i => s.length - i - needle.length

/-- The parts of a text between the first `left` occurrences of a separator; all of them if there is
no limit. The first number bounds the parts. -/
def splitFrom (sep : Bytes) : Nat → Option Nat → Bytes → List Bytes
  | 0, _, s => [s]
  | _, some 0, s => [s]
  | fuel + 1, left, s =>
    match find? sep s with
    | none => [s]
    | some i => s.take i :: splitFrom sep fuel (left.map (· - 1)) (s.drop (i + sep.length))

/-- The parts of a text between occurrences of a separator that is not empty. -/
def split (sep : Bytes) (limit : Option Nat) (s : Bytes) : List Bytes :=
  splitFrom sep (s.length + 1) limit s

def join (sep : Bytes) (parts : List Bytes) : Bytes := (parts.intersperse sep).flatten

/-- The number of occurrences of a text that do not overlap. The empty text occurs around every
character. -/
def countOf (needle s : Bytes) : Nat :=
  if needle.isEmpty then (Rune.decode s).length + 1 else (split needle none s).length - 1

/-- Writes a text before each of the first units, and at the end if there are fewer. -/
def interleave (new : Bytes) : Nat → List Rune → Bytes
  | 0, rs => ofRunes rs
  | n + 1, r :: rs => new ++ r.bytes ++ interleave new n rs
  | _ + 1, [] => new

/-- Replaces the first occurrences of a text; all of them if there is no limit. -/
def replace (old new : Bytes) (limit : Option Nat) (s : Bytes) : Bytes :=
  if old.isEmpty then interleave new (limit.getD (s.length + 1)) (Rune.decode s)
  else join new (split old limit s)

end Bytes

namespace Rune

/-- The parts of a text between white space. After the first `left` of them the rest is one part.
The first number bounds the parts. -/
def fields : Nat → Option Nat → List Rune → List (List Rune)
  | 0, _, _ => []
  | fuel + 1, left, rs =>
    let rs := rs.dropWhile isBlank
    if rs.isEmpty then []
    else
      match left with
      | some 0 => [rs]
      | left =>
        rs.takeWhile (!·.isBlank) :: fields fuel (left.map (· - 1)) (rs.dropWhile (!·.isBlank))

/-- Units without those at the end that belong to a class. -/
def dropEnd (p : Rune → Bool) (rs : List Rune) : List Rune := (rs.reverse.dropWhile p).reverse

end Rune

end TapeForge
