/-!
# Packed words

A packed instruction is one 32-bit word: the kind of work in the low byte, and a signed argument of
24 bits above it.
-/

namespace TapeForge.Packed

/-- The work of a packed instruction. The far jumps hold an index into a table of distances. -/
inductive Verb where
  | add
  | shift
  | clear
  | out
  | inp
  | jumpZero
  | jumpNonZero
  | farJumpZero
  | farJumpNonZero
  deriving Repr, DecidableEq, Inhabited

namespace Verb

def code : Verb → UInt32
  | add => 1
  | shift => 2
  | clear => 3
  | out => 4
  | inp => 5
  | jumpZero => 6
  | jumpNonZero => 7
  | farJumpZero => 8
  | farJumpNonZero => 9

/-- The work with a low byte. -/
def ofCode? (n : UInt32) : Option Verb :=
  match n.toNat with
  | 1 => some add
  | 2 => some shift
  | 3 => some clear
  | 4 => some out
  | 5 => some inp
  | 6 => some jumpZero
  | 7 => some jumpNonZero
  | 8 => some farJumpZero
  | 9 => some farJumpNonZero
  | _ => none

end Verb

structure Word where
  bits : UInt32
  deriving Repr, DecidableEq, Inhabited

def maxArg : Int64 := 8388607

namespace Word

/-- The word of some work and an argument, of which the low 24 bits are kept. -/
def make (v : Verb) (arg : Int64) : Word := ⟨v.code ||| (arg.toUInt64.toUInt32 <<< 8)⟩

def verb? (w : Word) : Option Verb := Verb.ofCode? (w.bits &&& 0xff)

/-- The argument of a word, its sign extended. -/
def arg (w : Word) : Int64 := (w.bits.toInt32 >>> 8).toInt64

end Word

end TapeForge.Packed
