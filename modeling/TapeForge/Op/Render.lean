import TapeForge.Op.Basic
import TapeForge.Symbol

/-!
# The text of an op

Every op has a text in the eight symbols that does the same work one unit at a time. An op of an
undefined kind has none, and then neither has a program that holds it.
-/

namespace TapeForge

namespace Render

/-- `n` times `up`, or `-n` times `down`. The most negative number is its own opposite, which is not
positive, so it writes nothing. -/
def run (up down : Symbol) (n : Int64) : List Symbol :=
  if n < 0 then List.replicate (-n).toInt.toNat down else List.replicate n.toInt.toNat up

def add (n : Int64) : List Symbol := run .inc .dec n

def shift (n : Int64) : List Symbol := run .right .left n

/-- Moves one cell into another, unit by unit. -/
def move (src dest : Offset) : List Symbol :=
  shift src ++ [.opening, .dec] ++ shift (dest - src) ++ [.inc] ++ shift (src - dest) ++
    [.closing] ++ shift (-src)

/-- Moves one cell into two, and the first of them back. -/
def copy (src tmp dest : Offset) : List Symbol :=
  -- The last move starts at the scratch cell, so its offsets are taken from there.
  shift src ++ [.opening, .dec] ++ shift (tmp - src) ++ [.inc] ++ shift (dest - tmp) ++ [.inc] ++
    shift (src - dest) ++ [.closing] ++ shift (tmp - src) ++ move 0 (src - tmp) ++ shift (-tmp)

/-- Emits a byte as often as a cell holds. -/
def writeN (char : UInt8) (count tmp1 tmp2 : Offset) : List Symbol :=
  let c : Int64 := Int64.ofNat char.toNat
  -- One scratch cell is made to hold the byte while the other counts the emissions down; then the
  -- byte is taken off again.
  copy count tmp1 tmp2 ++ shift tmp1 ++ add c ++ shift (tmp2 - tmp1) ++ [.opening, .dec] ++
    shift (tmp1 - tmp2) ++ [.out] ++ shift (tmp2 - tmp1) ++ [.closing] ++ shift (tmp1 - tmp2) ++
    add (-c) ++ shift (-tmp1)

/-- Emits bytes by changing the current cell, which holds `cur`, from each to the next and at last
back to zero. -/
def writeS (cur : Int64) : Bytes → List Symbol
  | [] => add (-cur)
  | b :: rest =>
    let c : Int64 := Int64.ofNat b.toNat
    add (c - cur) ++ [.out] ++ writeS c rest

end Render

namespace Op

mutual

/-- The symbols of an op; an undefined kind has none. -/
def symbols : Op → List Symbol
  | add n => Render.add n
  | shift n => Render.shift n
  | move src dest => Render.move src dest
  | zero => [.opening, .dec, .closing]
  | copy src tmp dest => Render.copy src tmp dest
  | loop body => .opening :: (symbolsAll body ++ [.closing])
  | read => [.inp]
  | write => [.out]
  | writeN char count tmp1 tmp2 => Render.writeN char count tmp1 tmp2
  | writeS text => Render.writeS 0 text
  | assertZero _ => []
  | undefined _ => []

def symbolsAll : List Op → List Symbol
  | [] => []
  | o :: os => symbols o ++ symbolsAll os

end

mutual

/-- The first undefined kind in an op, in the order of its text. -/
def undefinedKind? : Op → Option UInt8
  | undefined kind => some kind
  | loop body => undefinedKindAll? body
  | _ => none

def undefinedKindAll? : List Op → Option UInt8
  | [] => none
  | o :: os => (undefinedKind? o).or (undefinedKindAll? os)

end

/-- An op that cannot be written as text, for it holds a kind without meaning. -/
structure UndefinedKind where
  kind : UInt8
  deriving Repr, DecidableEq

def UndefinedKind.message (e : UndefinedKind) : String := "bad op kind: " ++ kindName e.kind

def render (ops : List Op) : Except UndefinedKind (List Symbol) :=
  match undefinedKindAll? ops with
  | some kind => .error ⟨kind⟩
  | none => .ok (symbolsAll ops)

end Op

end TapeForge
