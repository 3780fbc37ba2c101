import TapeForge.Op.Basic

/-!
# Branches

A branch is built from loops alone: a cell set to one and cleared by the body that runs is how a
branch is taken exactly once. A gadget starts and ends on its origin cell; the scratch cells it
names are zero on entry and zero again on exit.
-/

namespace TapeForge.Gadget

/-- Runs `yes` if the origin is not zero and `no` otherwise, with the cells at `dist` and twice
`dist` as scratch. -/
def ifConseq (yes no : List Op) (dist : Offset) : Except Op.BuildError (List Op) := do
  Op.requireDistinct [0, dist, 2 * dist]
  return [
    .assertZero [dist, 2 * dist],
    .shift dist,
    .add 1,
    .shift (-dist),
    .loop (yes ++ [.shift dist, .add (-1)]),
    .shift dist,
    .loop ([.shift (-dist)] ++ no ++ [.shift dist, .add (-1), .shift dist]),
    .shift (-2 * dist)]

/-- Runs `yes` if the origin is not zero and `no` otherwise, and keeps the origin. -/
def ifTmps (tmp1 tmp2 : Offset) (yes no : List Op) : Except Op.BuildError (List Op) := do
  Op.requireDistinct [0, tmp1, tmp2]
  return [
    .assertZero [tmp1, tmp2],
    .shift tmp1,
    .add 1,
    .shift (-tmp1),
    .loop (yes ++ [.shift tmp1, .add (-1), .shift (-tmp1), .move 0 tmp2]),
    .move tmp2 0,
    .shift tmp1,
    .loop ([.shift (-tmp1)] ++ no ++ [.shift tmp1, .add (-1)]),
    .shift (-tmp1)]

end TapeForge.Gadget
