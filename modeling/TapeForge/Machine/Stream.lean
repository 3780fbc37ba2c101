import TapeForge.Text.Bytes

/-!
# Readers and sinks

A reader is the bytes it will still deliver, finitely many, and whether it fails or ends after them.
A sink keeps the bytes it accepted, and how many more it accepts before it fails.
-/

namespace TapeForge

/-- A source of bytes. After its bytes it is at its end, or, if `fails`, every read fails. -/
structure Reader where
  pending : Bytes
  fails : Bool := false
  deriving Repr, DecidableEq

/-- What a read of a line came upon after its bytes. -/
inductive LineEnd where
  | newline
  | atEnd
  | failure
  deriving Repr, DecidableEq

namespace Reader

def splitLine : Bytes → Bytes × Option Bytes
  | [] => ([], none)
  | b :: rest =>
    if b = 10 then ([b], some rest)
    else
      let (line, after) := splitLine rest
      (b :: line, after)

/-- Reads through the next newline, or else all that is left. -/
def readLine (r : Reader) : Bytes × LineEnd × Reader :=
  match splitLine r.pending with
  | (line, some rest) => (line, .newline, { r with pending := rest })
  | (line, none) => (line, if r.fails then .failure else .atEnd, { r with pending := [] })

end Reader

/-- A destination of bytes. `room` is the number of bytes it still accepts; none means no limit. -/
structure Sink where
  bytes : Array UInt8 := #[]
  room : Option Nat := none
  deriving Repr, DecidableEq

namespace Sink

/-- Writes bytes. A write that goes beyond the room keeps the bytes that fit and fails. -/
def write (s : Sink) (bs : Bytes) : Sink × Bool :=
  match s.room with
  | none => ({ s with bytes := s.bytes ++ bs }, true)
  | some k =>
    if bs.length ≤ k then ({ bytes := s.bytes ++ bs, room := some (k - bs.length) }, true)
    else ({ bytes := s.bytes ++ bs.take k, room := some 0 }, false)

end Sink

end TapeForge
