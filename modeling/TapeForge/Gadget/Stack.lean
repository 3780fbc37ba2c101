import TapeForge.Op.Basic

/-!
# Stack

A stack of capacity `c` occupies `c + 2` cells starting at its temp cell:

    [temp, 1 repeated (c - depth) times, 0, top, ..., bottom]

Free slots hold one, a single zero separates them from the values, and the values are stored to the
right of the separator with the top first. Push takes the value from temp; pop needs temp to be zero
and leaves the value there. Values are carried across the free slots one cell at a time, so each
operation needs no scratch besides temp, and zero is a value like any other.
-/

namespace TapeForge.Gadget

/-- Writes the markers of the free slots. It starts and ends on temp; the region must be zero. -/
def initStack (capacity : Int64) : Except Op.BuildError (List Op) :=
  if capacity < 0 then .error (.negativeCapacity capacity)
  else .ok ([.assertZero [0], .shift 1] ++
    (List.replicate capacity.toInt.toNat [.add 1, .shift 1]).flatten ++ [.shift (-(capacity + 1))])

/-- Moves the value in temp onto the stack, which must not be full. -/
def push : List Op := [
  .move 0 1,
  .shift 1,
  .add (-1),
  .shift 1,
  .loop [.add (-1), .move (-1) 0, .shift (-1), .add 1, .shift 2],
  .move (-1) 0,
  .shift (-2),
  .loop [.shift (-1)]]

/-- Moves the top of the stack, which must not be empty, into temp, which must be zero. -/
def pop : List Op := [
  .assertZero [0],
  .shift 1,
  .loop [.shift 1],
  .move 1 0,
  .shift (-1),
  .loop [.add (-1), .move 1 0, .shift 1, .add 1, .shift (-2)],
  .move 1 0,
  .shift 1,
  .add 1,
  .shift (-1)]

end TapeForge.Gadget
