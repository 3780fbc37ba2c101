import TapeForge.Op.Basic
import TapeForge.Sorting.Wrapped

/-!
# Switch

Dispatch on the value of a cell: exactly one case body, or the default, runs. Bodies start and end
on the flag cell, which is cleared before a body runs and must be zero when it returns. The source
cell is consumed. Keys are compared modulo the cell size, so a key above 255 would be mistaken for
a smaller one on byte cells; it is refused.
-/

namespace TapeForge.Gadget

/-- The ops to run for a value. -/
structure Case where
  key : Int64
  body : List Op
  deriving Inhabited

namespace Case

def maxKey : Int64 := 255

/-- Refuses, at the first case in order, a key out of range or equal to the one before it. -/
def check (prev : Option Int64) : List Case → Except Op.BuildError Unit
  | [] => .ok ()
  | c :: rest =>
    if c.key < 0 then .error (.negativeKey c.key)
    else if maxKey < c.key then .error (.keyOutOfRange c.key)
    else if prev = some c.key then .error (.duplicatedKey c.key)
    else check (some c.key) rest

end Case

/-- Compares the source, which holds the value minus `prev`, against the cases left. A loop is
entered when the value is not the key; the flag still set afterwards means that it is. -/
def switchChain (toFlag toSrc : Op) (fallback : List Op) : Int64 → List Case → List Op
  | _, [] => [toFlag, .add (-1)] ++ fallback ++ [toSrc, .zero]
  | prev, c :: rest =>
    [.add (prev - c.key), .loop (switchChain toFlag toSrc fallback c.key rest), toFlag,
      .loop (.add (-1) :: c.body), toSrc]

/-- Dispatch on the cell at `src`, with the cell at `flag` as scratch. -/
def switch (src flag : Offset) (cases : List Case) (fallback : List Op) :
    Except Op.BuildError (List Op) := do
  Op.requireDistinct [src, flag]
  let cases := Sorting.byKeyStable Case.key cases
  Case.check none cases
  return [.assertZero [flag], .shift flag, .add 1, .shift (src - flag)] ++
    switchChain (.shift (flag - src)) (.shift (src - flag)) fallback 0 cases ++ [.shift (-src)]

end TapeForge.Gadget
