import TapeForge.Op.Basic

/-!
# Equality test

Runs a body once if the subject cell equals a literal byte, and leaves the subject as it was. The
body starts and ends on the flag cell and must leave it zero.
-/

namespace TapeForge.Gadget

/-- The cells an equality test borrows, relative to its subject. -/
structure EqScratch where
  flag : Offset := -1
  tmp : Offset := 1
  save : Offset := 2
  deriving Repr, DecidableEq

/-- Runs `body` once if the subject equals `lit`. Subtracting the literal leaves zero exactly when
they are equal; the scratch cell `tmp` becomes minus one otherwise, so one more than it is the
flag. -/
def EqScratch.ifEqThen (s : EqScratch) (lit : UInt8) (body : List Op) :
    Except Op.BuildError (List Op) := do
  Op.requireDistinct [0, s.flag, s.tmp, s.save]
  let n : Int64 := Int64.ofNat lit.toNat
  return [
    .assertZero [s.flag, s.tmp, s.save],
    .add (-n),
    .copy 0 s.tmp s.save,
    .loop [.shift s.tmp, .add (-1), .shift (-s.tmp), .zero],
    .move s.save 0,
    .shift s.tmp,
    .add 1,
    .move 0 (s.flag - s.tmp),
    .shift (s.flag - s.tmp),
    .loop (.zero :: body),
    .shift (-s.flag),
    .add n]

/-- The test with the flag to the left of the subject and two scratch cells to its right. -/
def ifEqThen (lit : UInt8) (body : List Op) : Except Op.BuildError (List Op) :=
  EqScratch.ifEqThen {} lit body

end TapeForge.Gadget
