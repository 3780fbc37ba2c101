import TapeForge.Code
import TapeForge.Op.Render

/-!
# Faults

Why a machine cannot be made, or a run stops before its end. A failure is a fault with the places
it passed through on its way out, the outermost first.
-/

namespace TapeForge

inductive Fault where
  | outOfBounds (pos : Int64) (length : Nat)
  | precondition (op : String) (offset : Offset) (value : UInt64)
  | stepLimit
  | undefinedKind (kind : UInt8)
  | unmatched (bracket : Unmatched)
  | readFailed
  | writeFailed
  | cellWidth (width : Int64)
  | tapeLength (length : Int64)
  | emptyTape
  | inputCursor (cursor : Int64)
  | emptyStream
  | truncatedStream
  deriving Repr, DecidableEq

namespace Fault

def message : Fault → String
  | outOfBounds pos length =>
    "cell " ++ Decimal.ofInt64 pos ++ " out of tape bounds [0, " ++ Decimal.ofNat length ++ ")"
  | precondition op offset value =>
    op ++ ": cell at offset " ++ Decimal.ofInt64 offset ++ " must be zero, got " ++
      Decimal.ofUInt64 value
  | stepLimit => "step limit exceeded"
  | undefinedKind kind => Op.UndefinedKind.message ⟨kind⟩
  | unmatched bracket => bracket.message
  | readFailed => "read failed"
  | writeFailed => "write failed"
  | cellWidth width => "bad cell width: " ++ Decimal.ofInt64 width
  | tapeLength length => "bad tape length: " ++ Decimal.ofInt64 length
  | emptyTape => "bad tape length"
  | inputCursor cursor => "bad input cursor " ++ Decimal.ofInt64 cursor
  | emptyStream => "EOF"
  | truncatedStream => "unexpected end of snapshot"

end Fault

/-- A place that a fault passed through. -/
inductive Place where
  /-- The run of a top-level op. -/
  | op (label : String)
  /-- The symbol of compiled text with an index. -/
  | symbol (index : Nat)
  deriving Repr, DecidableEq

structure Failure where
  places : List Place := []
  fault : Fault
  deriving Repr, DecidableEq

namespace Failure

/-- A failure seen from a place around it. -/
def inside (p : Place) (f : Failure) : Failure := { f with places := p :: f.places }

def placeMessage : Place → String
  | .op label => "exec " ++ label ++ ": "
  | .symbol index => "at " ++ Decimal.ofNat index ++ ": "

def message (f : Failure) : String :=
  String.join (f.places.map placeMessage) ++ f.fault.message

end Failure

end TapeForge
