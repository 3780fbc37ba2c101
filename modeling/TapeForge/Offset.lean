import TapeForge.Text.Decimal

/-!
# Offsets

Cells are named by their distance from a reference cell. A collision is an offset named twice
where distinct cells are needed.
-/

namespace TapeForge

/-- A distance between cells, in 64-bit arithmetic that wraps around. -/
abbrev Offset := Int64

namespace Offset

/-- The first offset of the list that occurs again later in it. -/
def firstRepeated? : List Offset → Option Offset
  | [] => none
  | a :: rest => if rest.contains a then some a else firstRepeated? rest

/-- No offset is repeated exactly where all are different. -/
theorem firstRepeated?_eq_none_iff (offsets : List Offset) :
    firstRepeated? offsets = none ↔ offsets.Nodup := by
  induction offsets with
  | nil => simp [firstRepeated?]
  | cons a rest ih =>
    by_cases h : a ∈ rest
    · simp [firstRepeated?, h]
    · simp [firstRepeated?, h, ih]

def shifts (reference : Offset) (targets : List Offset) : List Offset :=
  targets.map (· - reference)

end Offset

end TapeForge
