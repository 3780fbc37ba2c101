import TapeForge.Machine.Basic
import TapeForge.Packed.Assembly

/-!
# Packed runs

Packed code runs on a fresh tape of zeros. Output is gathered in a buffer that is handed on before
every read, when it is full, and at the end; the first failure of the destination stays with the
buffer. Input past its end reads as zero.
-/

namespace TapeForge.Packed

def bufferSize : Nat := 4096

/-- A sink behind a buffer. -/
structure Buffer where
  sink : Sink
  held : Array UInt8 := #[]
  broken : Bool := false

namespace Buffer

/-- Hands the held bytes on. Those not accepted stay. -/
def flush (b : Buffer) : Buffer :=
  if b.broken ∨ b.held.isEmpty then b
  else
    let before := b.sink.bytes.size
    match b.sink.write b.held.toList with
    | (sink, true) => { sink, held := #[], broken := false }
    -- What the sink has taken of a refused write is no longer held.
    | (sink, false) =>
      { sink, held := b.held.extract (sink.bytes.size - before) b.held.size, broken := true }

/-- Adds a byte, after handing on a full buffer. Nothing is added to a broken buffer. -/
def put (b : Buffer) (byte : UInt8) : Buffer :=
  let b := if b.held.size < bufferSize then b else b.flush
  if b.broken then b else { b with held := b.held.push byte }

end Buffer

/-- Why a run stops before its end. -/
inductive Stop where
  /-- The run gives an error back. -/
  | fault (e : Fault)
  /-- An index is out of range, and the run gives nothing back. -/
  | panic
  deriving Repr, DecidableEq

structure State where
  ip : Int := 0
  dp : Int64 := 0
  tape : Array UInt64
  width : Width
  input : Option Reader
  output : Buffer

/-- The state with a new value in a cell, at the next word. -/
def State.store (s : State) (i : Nat) (v : UInt64) : State :=
  { s with tape := s.tape.setIfInBounds i v, ip := s.ip + 1 }

def State.jump (s : State) (dist : Int64) : State := { s with ip := s.ip + dist.toInt + 1 }

def State.advance (s : State) : State := { s with ip := s.ip + 1 }

/-- Reads one byte into a cell. Held output is handed on first while there is a reader; the reader
is dropped at its end. -/
def readInto (s : State) (i : Nat) : Stage Stop State :=
  match s.input with
  | none => .next (s.store i 0)
  | some r =>
    let output := s.output.flush
    if output.broken then .fail (.fault .writeFailed) { s with output }
    else
      match r.pending with
      | b :: rest =>
        .next { (s.store i b.toUInt64) with output, input := some { r with pending := rest } }
      | [] =>
        if r.fails then .fail (.fault .readFailed) { s with output }
        else .next { (s.store i 0) with output, input := none }

/-- Jumps by an entry of the far table. -/
def farJump (far : Array Int64) (s : State) (arg : Int64) : Stage Stop State :=
  if arg < 0 then .fail .panic s
  else
    match far[arg.toInt.toNat]? with
    | some dist => .next (s.jump dist)
    | none => .fail .panic s

def doWord (far : Array Int64) (s : State) (v : Verb) (arg : Int64) (i : Nat) :
    Stage Stop State :=
  let cell := s.tape.getD i 0
  match v with
  | .add => .next (s.store i ((cell + arg.toUInt64) &&& s.width.mask))
  | .shift => .next { s with dp := s.dp + arg, ip := s.ip + 1 }
  | .clear => .next (s.store i 0)
  | .out =>
    let output := s.output.put cell.toUInt8
    if output.broken then .fail (.fault .writeFailed) { s with output }
    else .next { s.advance with output }
  | .inp => readInto s i
  | .jumpZero => .next (if cell = 0 then s.jump arg else s.advance)
  | .jumpNonZero => .next (if cell ≠ 0 then s.jump arg else s.advance)
  | .farJumpZero => if cell = 0 then farJump far s arg else .next s.advance
  | .farJumpNonZero => if cell ≠ 0 then farJump far s arg else .next s.advance

def State.index? (s : State) : Option Nat :=
  if 0 ≤ s.dp ∧ s.dp.toInt.toNat < s.tape.size then some s.dp.toInt.toNat else none

/-- Does one word. Only a shift may be done with the data pointer off the tape; a word without
meaning does nothing. -/
def step (code : Assembly) (s : State) : Stage Stop State :=
  if s.ip < 0 then .fail .panic s
  else
    match code.words[s.ip.toNat]? with
    | none => .halt s
    | some w =>
      match w.verb? with
      | some .shift => .next { s with dp := s.dp + w.arg, ip := s.ip + 1 }
      -- Even a word without meaning needs its cell on the tape.
      | v =>
        match s.index? with
        | none => .fail (.fault (.outOfBounds s.dp s.tape.size)) s
        | some i =>
          match v with
          | none => .next s.advance
          | some v => doWord code.far s v w.arg i

/-- Hands on what is left in the buffer, after a panic too. A failure then counts only if there was
none before. -/
def finish : Outcome Stop State → Outcome Stop State
  | .done s =>
    let output := s.output.flush
    if output.broken then .failed (.fault .writeFailed) { s with output }
    else .done { s with output }
  | .failed e s => .failed e { s with output := s.output.flush }
  | .pending s => .pending s

def run (fuel : Nat) (code : Assembly) (s : State) : Outcome Stop State :=
  finish (iterate (step code) fuel s)

/-- Runs a text on a fresh tape. The width is checked first, then the tape length, then the
brackets. -/
def execute (fuel : Nat) (tapeLength cellWidth : Int64) (src : Bytes) (input : Option Reader)
    (sink : Sink) : Outcome Stop Sink :=
  match Width.ofBytes? cellWidth with
  | none => .failed (.fault (.cellWidth cellWidth)) sink
  | some width =>
    if tapeLength ≤ 0 then .failed (.fault .emptyTape) sink
    else
      match compile src with
      | .error e => .failed (.fault (.unmatched e)) sink
      | .ok code =>
        let tape := Array.replicate tapeLength.toInt.toNat 0
        (run fuel code { tape, width, input, output := { sink } }).map (·.output.sink)

end TapeForge.Packed
