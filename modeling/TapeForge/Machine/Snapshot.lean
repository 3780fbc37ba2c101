import TapeForge.Machine.Basic

/-!
# Snapshots

A snapshot is the part of a machine that a later run depends on. How it is written as bytes is left
to a codec, of which no more is asked than that it reads back what it wrote. Restoring checks the
width and the cursor, and changes nothing on failure.
-/

namespace TapeForge

/-- The resumable part of a machine. -/
structure Snapshot where
  tape : Array UInt64 := #[]
  dp : Int64 := 0
  cellWidth : Int64 := 0
  input : Array UInt8 := #[]
  cursor : Int64 := 0
  steps : Int64 := 0
  deriving Repr, DecidableEq

namespace Snapshot

/-- A way to write snapshots as bytes. What it reads of bytes that it has not written is open. -/
class Codec where
  write : Snapshot → Bytes
  read : Bytes → Except Fault Snapshot
  read_write (s : Snapshot) : read (write s) = .ok s

variable [Codec]

def encode (s : Snapshot) : Bytes := Codec.write s

def decode (bs : Bytes) : Except Fault Snapshot := Codec.read bs

theorem decode_encode (s : Snapshot) : decode s.encode = .ok s := Codec.read_write s

end Snapshot

namespace Machine

def snapshot (m : Machine) : Snapshot :=
  { tape := m.tape, dp := m.dp, cellWidth := Int64.ofNat m.width.bytes, input := m.input,
    cursor := Int64.ofNat m.cursor, steps := m.steps }

def change (f : Machine → Machine) : Action Unit := fun m => .ok () (f m)

/-- Puts the machine into the state of a snapshot, one field after the other, once the width and the
cursor have been checked. Cells are taken as they are. -/
def resume (s : Snapshot) : Action Unit :=
  match Width.ofBytes? s.cellWidth with
  | none => throw (.cellWidth s.cellWidth)
  | some width =>
    if s.cursor < 0 ∨ s.input.size < s.cursor.toInt.toNat then throw (.inputCursor s.cursor)
    else do
      change fun m => { m with tape := s.tape }
      change fun m => { m with dp := s.dp }
      change fun m => { m with width }
      change fun m => { m with input := s.input }
      change fun m => { m with cursor := s.cursor.toInt.toNat }
      change fun m => { m with steps := s.steps }

section Resume

variable {s : Snapshot} {width : Width} (m : Machine)

theorem resume_of_width (hw : Width.ofBytes? s.cellWidth = none) :
    resume s m = .error (.cellWidth s.cellWidth) m := by
  simp only [resume, hw]
  rfl

theorem resume_of_cursor (hw : Width.ofBytes? s.cellWidth = some width)
    (hc : s.cursor < 0 ∨ s.input.size < s.cursor.toInt.toNat) :
    resume s m = .error (.inputCursor s.cursor) m := by
  simp only [resume, hw, if_pos hc]
  rfl

theorem resume_of_checks (hw : Width.ofBytes? s.cellWidth = some width)
    (hc : ¬ (s.cursor < 0 ∨ s.input.size < s.cursor.toInt.toNat)) :
    resume s m = .ok () { m with tape := s.tape, dp := s.dp, width, input := s.input,
                                 cursor := s.cursor.toInt.toNat, steps := s.steps } := by
  simp only [resume, hw, if_neg hc]
  rfl

end Resume

variable [Snapshot.Codec]

/-- Reads a snapshot and puts the machine into its state. -/
def load (bs : Bytes) : Action Unit :=
  match Snapshot.decode bs with
  | .error e => throw e
  | .ok s => resume s

def restore (m : Machine) (bs : Bytes) : Except Fault Machine :=
  match load bs m with
  | .ok _ n => .ok n
  | .error e _ => .error e

def save (m : Machine) (sink : Sink) : Except Fault Sink :=
  let (sink, accepted) := sink.write m.snapshot.encode
  if accepted then .ok sink else .error .writeFailed

end Machine

end TapeForge
