import TapeForge.Machine.Fault
import TapeForge.Machine.Stream
import TapeForge.Run

/-!
# The tape machine

A machine has a tape of cells of one width, a data pointer that may leave the tape (only an access
out there fails), input that is replayed and may grow line by line from a live reader, an output,
and a count of the primitive steps done so far.
-/

namespace TapeForge

inductive Width where
  | one
  | two
  | four
  | eight
  deriving Repr, DecidableEq, Inhabited

namespace Width

def bytes : Width → Nat
  | one => 1
  | two => 2
  | four => 4
  | eight => 8

/-- The largest value of a cell, all of whose bits are one. -/
def mask : Width → UInt64
  | one => 0xff
  | two => 0xffff
  | four => 0xffffffff
  | eight => 0xffffffffffffffff

def ofBytes? (n : Int64) : Option Width :=
  if n = 1 then some one
  else if n = 2 then some two
  else if n = 4 then some four
  else if n = 8 then some eight
  else none

end Width

/-- What a traced machine notes after an op. -/
structure TraceRecord where
  op : String
  dp : Int64
  tape : String
  deriving Repr, DecidableEq

/-- The machine. `limit` bounds the step count when it is positive. The mask of the cells is no
field of its own, it is that of the width. -/
structure Machine where
  tape : Array UInt64
  dp : Int64 := 0
  width : Width
  input : Array UInt8 := #[]
  cursor : Nat := 0
  live : Option Reader := none
  output : Sink := {}
  steps : Int64 := 0
  limit : Int64 := 0
  checked : Bool := false
  trace : Bool := false
  traceCells : Int64 := 16
  records : Array TraceRecord := #[]

namespace Machine

/-- How a machine is to be made. Zero numbers mean the default; the length counts only when no tape
is given. -/
structure Config where
  tapeLength : Int64 := 0
  cellWidth : Int64 := 0
  tape : Array UInt64 := #[]
  input : Bytes := []
  live : Option Reader := none
  output : Sink := {}
  trace : Bool := false
  traceCells : Int64 := 0
  checked : Bool := false
  stepLimit : Int64 := 0

def defaultTapeLength : Int64 := 30000

def defaultCellWidth : Int64 := 1

def defaultTraceCells : Int64 := 16

/-- `n`, or `fallback` when `n` is zero. -/
def orDefault (n fallback : Int64) : Int64 := if n = 0 then fallback else n

/-- The first tape: the given one, each cell cut to the width, or zeros. -/
def initialTape (c : Config) (w : Width) : Except Fault (Array UInt64) :=
  if c.tape.isEmpty then
    let length := orDefault c.tapeLength defaultTapeLength
    if length < 0 then .error (.tapeLength length)
    else .ok (Array.replicate length.toInt.toNat 0)
  else .ok (c.tape.map (· &&& w.mask))

def ofConfig (c : Config) : Except Fault Machine :=
  let bytes := orDefault c.cellWidth defaultCellWidth
  match Width.ofBytes? bytes with
  | none => .error (.cellWidth bytes)
  | some w =>
    match initialTape c w with
    | .error e => .error e
    | .ok tape =>
      .ok { tape, width := w, input := c.input.toArray, live := c.live, output := c.output,
            limit := c.stepLimit, checked := c.checked, trace := c.trace,
            traceCells := orDefault c.traceCells defaultTraceCells }

/-- The tape index of a position, if it is on the tape. -/
def index? (m : Machine) (pos : Int64) : Option Nat :=
  if 0 ≤ pos ∧ pos.toInt.toNat < m.tape.size then some pos.toInt.toNat else none

def cell (m : Machine) (pos : Int64) : Except Fault UInt64 :=
  match m.index? pos with
  | some i => .ok (m.tape.getD i 0)
  | none => .error (.outOfBounds pos m.tape.size)

/-- The first cells of the tape, each in at least three columns, the data pointer marked by `>`.
No number, or one beyond the tape, means the whole tape. -/
def display (m : Machine) (cells : Int64) : String :=
  let n := if cells ≤ 0 ∨ m.tape.size < cells.toInt.toNat then m.tape.size else cells.toInt.toNat
  String.join ((List.range n).map fun i =>
    (if Int64.ofNat i = m.dp then ">" else " ") ++
      Decimal.padLeft 3 (Decimal.ofUInt64 (m.tape.getD i 0)))

/-- Notes the state after an op, if the machine is traced. -/
def note (m : Machine) (op : Op) : Machine :=
  if m.trace then
    { m with records := m.records.push ⟨op.label, m.dp, m.display m.traceCells⟩ }
  else m

def feed (m : Machine) (bs : Bytes) : Machine := { m with input := m.input ++ bs }

/-- Something a machine does that may fail on the way; the state at the failure is kept. -/
abbrev Action := EStateM Fault Machine

namespace Action

/-- Counts one primitive step, and fails when the count passes a positive limit. -/
def tick : Action Unit := fun m =>
  -- The step that was one too many stays in the count when the limit stops the run.
  let steps := m.steps + 1
  let m := { m with steps }
  if 0 < m.limit ∧ m.limit < steps then .error .stepLimit m else .ok () m

/-- The tape index of the cell at an offset from the data pointer. -/
def locate (offset : Offset) : Action Nat := fun m =>
  -- Positions are words, so the sum wraps around.
  match m.index? (m.dp + offset) with
  | some i => .ok i m
  | none => .error (.outOfBounds (m.dp + offset) m.tape.size) m

/-- The value of a cell. -/
def peek (i : Nat) : Action UInt64 := fun m => .ok (m.tape.getD i 0) m

def poke (i : Nat) (v : UInt64) : Action Unit := fun m =>
  .ok () { m with tape := m.tape.setIfInBounds i v }

/-- Adds to a cell, modulo its size. -/
def bump (i : Nat) (delta : UInt64) : Action Unit := fun m =>
  let v := (m.tape.getD i 0 + delta) &&& m.width.mask
  .ok () { m with tape := m.tape.setIfInBounds i v }

def shift (n : Int64) : Action Unit := fun m => .ok () { m with dp := m.dp + n }

/-- Emits bytes in one write. -/
def emit (bs : Bytes) : Action Unit := fun m =>
  -- A write that fails changes the sink too, for some of the bytes may have been taken.
  let (sink, accepted) := m.output.write bs
  let m := { m with output := sink }
  if accepted then .ok () m else .error .writeFailed m

/-- Pulls one line from the live reader when the input is used up. The reader is dropped at its
end; when it fails, the bytes before the failure are kept. -/
def refill : Action Unit := fun m =>
  if m.cursor < m.input.size then .ok () m
  else
    match m.live with
    | none => .ok () m
    | some r =>
      match r.readLine with
      | (line, .newline, rest) =>
        .ok () { m with input := m.input ++ line, live := some rest }
      | (line, .atEnd, _) => .ok () { m with input := m.input ++ line, live := none }
      | (line, .failure, rest) =>
        .error .readFailed { m with input := m.input ++ line, live := some rest }

/-- The next input byte, zero when there is none. -/
def readByte : Action UInt8 := do
  refill
  fun m =>
    match m.input[m.cursor]? with
    | some b => .ok b { m with cursor := m.cursor + 1 }
    | none => .ok 0 m

end Action

end Machine

end TapeForge
