import TapeForge.Machine.Basic

/-!
# Direct runs

Ops are run as they are, without their text. The work left is a list of tasks, and each task counts
exactly one primitive step before it does anything: so after `n` successful tasks the step count has
grown by `n`, and every loop that does not end counts for ever.
-/

namespace TapeForge

namespace Machine

open TapeForge.Machine.Action

inductive Task where
  /-- Run an op. -/
  | op (o : Op)
  /-- A loop body has been run: see whether it is run again. -/
  | again (body : List Op)
  /-- Emit one byte more, from the cell `char`, counting the cell `left` down; `code` was added to
  `char` and is taken off at the end. -/
  | emitting (code : UInt8) (char left : Nat)

def byteCell (b : UInt8) : UInt64 := b.toUInt64

/-- Fails, in the name of an op, unless the cell at an offset is zero. -/
def expectZero (o : Op) (offset : Offset) : Action Unit := do
  let i ← locate offset
  let v ← peek i
  if v ≠ 0 then throw (.precondition o.label offset v)

def expectZeros (o : Op) : List Offset → Action Unit
  | [] => pure ()
  | offset :: rest => do
    expectZero o offset
    expectZeros o rest

def isChecked : Action Bool := fun m => .ok m.checked m

/-- Adds a cell into another and clears it. The other is touched only if the first is not zero. -/
def doMove (src dest : Offset) : Action Unit := do
  let s ← locate src
  let v ← peek s
  if v ≠ 0 then
    let d ← locate dest
    bump d v
    poke s 0

/-- Adds a cell into two others, and moves the first of them back. -/
def doCopy (o : Op) (src tmp dest : Offset) : Action Unit := do
  if ← isChecked then
    expectZero o tmp
    expectZero o dest
  let s ← locate src
  let v ← peek s
  if v ≠ 0 then
    -- Both cells are found before either is changed.
    let t ← locate tmp
    let d ← locate dest
    bump t v
    bump d v
    poke s 0
  doMove tmp src

/-- Emits a text, each byte added to the current cell, in one write. -/
def doWriteS (o : Op) (text : Bytes) : Action Unit := do
  if text ≠ [] then
    let i ← locate 0
    let v ← peek i
    if (← isChecked) ∧ v ≠ 0 then throw (.precondition o.label 0 v)
    emit (text.map fun b => (v + byteCell b).toUInt8)

/-- A loop at its head: nothing more when the current cell is zero, else the body and back. -/
def loopHead (body : List Op) : Action (List Task) := do
  let i ← locate 0
  let v ← peek i
  return if v = 0 then [] else body.map Task.op ++ [.again body]

/-- Emission at its head: when nothing is left to emit, the character is taken off its cell. -/
def emitHead (code : UInt8) (char left : Nat) : Action (List Task) := do
  let v ← peek left
  if v = 0 then
    bump char (-byteCell code)
    return []
  else return [.emitting code char left]

/-- Runs an op. The result is the work it leaves. -/
def perform (o : Op) : Action (List Task) :=
  match o with
  | .add n => do
    let i ← locate 0
    bump i n.toUInt64
    return []
  | .shift n => do
    shift n
    return []
  | .move src dest => do
    doMove src dest
    return []
  | .zero => do
    let i ← locate 0
    poke i 0
    return []
  | .copy src tmp dest => do
    doCopy o src tmp dest
    return []
  | .loop body => loopHead body
  | .read => do
    let i ← locate 0
    let b ← readByte
    poke i (byteCell b)
    return []
  | .write => do
    let i ← locate 0
    let v ← peek i
    emit [v.toUInt8]
    return []
  | .writeN code count tmp1 tmp2 => do
    doCopy o count tmp1 tmp2
    let char ← locate tmp1
    bump char (byteCell code)
    -- Where this cell is off the tape, the byte stays added to the other one.
    let left ← locate tmp2
    emitHead code char left
  | .writeS text => do
    doWriteS o text
    return []
  | .assertZero offsets => do
    if ← isChecked then expectZeros o offsets
    return []
  | .undefined kind => throw (.undefinedKind kind)

/-- Does one task: one step is counted, then the work is done. -/
def doTask (t : Task) : Action (List Task) := do
  tick
  match t with
  | .op o => perform o
  | .again body => loopHead body
  | .emitting code char left => do
    -- Adding the mask takes one off, modulo the size of a cell.
    bump left (← fun m => .ok m.width.mask m)
    let v ← peek char
    emit [v.toUInt8]
    emitHead code char left

structure Direct where
  tasks : List Task
  machine : Machine

def Direct.step (d : Direct) : Stage Fault Direct :=
  match d.tasks with
  | [] => .halt d
  | t :: rest =>
    match doTask t d.machine with
    | .ok new m => .next ⟨new ++ rest, m⟩
    | .error e m => .fail e ⟨rest, m⟩

def runOp (fuel : Nat) (o : Op) (m : Machine) : Outcome Fault Machine :=
  (iterate Direct.step fuel ⟨[.op o], m⟩).map Direct.machine

/-- Runs ops in order, noting each that succeeded. Each may take `fuel` steps. -/
def exec (fuel : Nat) : List Op → Machine → Outcome Failure Machine
  | [], m => .done m
  | o :: rest, m =>
    match runOp fuel o m with
    | .done m => exec fuel rest (m.note o)
    | .failed e m => .failed ⟨[.op o.label], e⟩ m
    | .pending m => .pending m

end Machine

end TapeForge
