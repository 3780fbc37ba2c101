import TapeForge.Offset
import TapeForge.Text.Quoted

/-!
# Macro-instructions

An op is one macro-instruction. Offsets are relative to the data pointer when the op starts. The
checked constructors refuse ops whose offsets coincide.
-/

namespace TapeForge

/-- A macro-instruction. `undefined` stands for a kind number that names no instruction. -/
inductive Op where
  /-- Adds a number to the current cell. -/
  | add (n : Int64)
  /-- Moves the data pointer. -/
  | shift (n : Int64)
  /-- Adds one cell into another and clears it. -/
  | move (src dest : Offset)
  /-- Clears the current cell. -/
  | zero
  /-- Adds one cell into another through a scratch cell, keeping it. -/
  | copy (src tmp dest : Offset)
  /-- Repeats the body while the current cell is not zero. -/
  | loop (body : List Op)
  /-- Stores the next input byte in the current cell. -/
  | read
  /-- Emits the low byte of the current cell. -/
  | write
  /-- Emits a byte as many times as a cell holds, with two scratch cells. -/
  | writeN (char : UInt8) (count tmp1 tmp2 : Offset)
  /-- Emits a text by means of the current cell. -/
  | writeS (text : Bytes)
  /-- Does nothing, but states that cells are zero. -/
  | assertZero (offsets : List Offset)
  | undefined (kind : UInt8)
  deriving Repr, Inhabited

abbrev Program := List Op

def kindName (kind : UInt8) : String :=
  match kind.toNat with
  | 1 => "add"
  | 2 => "shift"
  | 3 => "move"
  | 4 => "zero"
  | 5 => "copy"
  | 6 => "loop"
  | 7 => "in"
  | 8 => "out"
  | 9 => "out_n"
  | 10 => "out_s"
  | 11 => "assert_zero"
  | n => "Kind(" ++ Decimal.ofNat n ++ ")"

namespace Op

inductive BuildError where
  | collision (offset : Offset)
  | negativeKey (key : Int64)
  | keyOutOfRange (key : Int64)
  | duplicatedKey (key : Int64)
  | negativeCapacity (capacity : Int64)
  deriving Repr, DecidableEq

def BuildError.message : BuildError → String
  | .collision o => "offset collision at " ++ Decimal.ofInt64 o
  | .negativeKey k => "negative switch key: " ++ Decimal.ofInt64 k
  | .keyOutOfRange k => "switch key out of range: " ++ Decimal.ofInt64 k
  | .duplicatedKey k => "duplicated switch key: " ++ Decimal.ofInt64 k
  | .negativeCapacity c => "negative stack capacity: " ++ Decimal.ofInt64 c

/-- Refuses offsets that coincide, naming the first that occurs again. -/
def requireDistinct (offsets : List Offset) : Except BuildError Unit :=
  match Offset.firstRepeated? offsets with
  | some o => .error (.collision o)
  | none => .ok ()

theorem requireDistinct_eq_ok_iff (offsets : List Offset) :
    requireDistinct offsets = .ok () ↔ offsets.Nodup := by
  rw [← Offset.firstRepeated?_eq_none_iff, requireDistinct]
  cases Offset.firstRepeated? offsets with
  | none => simp
  | some o => simp

def move? (src dest : Offset) : Except BuildError Op := do
  requireDistinct [src, dest]
  return .move src dest

def copy? (src tmp dest : Offset) : Except BuildError Op := do
  requireDistinct [src, tmp, dest]
  return .copy src tmp dest

/-- `writeN` over distinct cells. -/
def writeN? (char : UInt8) (count tmp1 tmp2 : Offset) : Except BuildError Op := do
  requireDistinct [count, tmp1, tmp2]
  return .writeN char count tmp1 tmp2

def offsetList (offsets : List Offset) : String :=
  "[" ++ String.intercalate " " (offsets.map Decimal.ofInt64) ++ "]"

def arguments (args : List String) : String :=
  "(" ++ String.intercalate "," args ++ ")"

/-- The text that names an op; a loop shows the number of ops in its body. -/
def label : Op → String
  | add n => "add" ++ arguments [Decimal.ofInt64 n]
  | shift n => "shift" ++ arguments [Decimal.ofInt64 n]
  | move src dest => "move" ++ arguments [Decimal.ofInt64 src, Decimal.ofInt64 dest]
  | zero => "zero()"
  | copy src tmp dest =>
    "copy" ++ arguments [Decimal.ofInt64 src, Decimal.ofInt64 tmp, Decimal.ofInt64 dest]
  | loop body => "loop" ++ arguments [Decimal.ofNat body.length]
  | read => "in()"
  | write => "out()"
  | writeN char count tmp1 tmp2 =>
    "out_n" ++ arguments [Quoted.char (Char.ofNat char.toNat), Decimal.ofInt64 count,
      Decimal.ofInt64 tmp1, Decimal.ofInt64 tmp2]
  | writeS text => "out_s" ++ arguments [Quoted.text text]
  | assertZero offsets => "assert_zero" ++ offsetList offsets
  | undefined kind => kindName kind ++ "()"

end Op

def Program.label (p : Program) : String := String.intercalate " " (p.map Op.label)

end TapeForge
