import TapeForge.Symbol
import TapeForge.Text.Decimal

/-!
# Compiled text

Compiling drops the comments of a text and pairs its brackets in a jump table. A text compiles
exactly when its brackets balance; positions in errors count the bytes of the text.
-/

namespace TapeForge

/-- A bracket without partner and the byte of the text at which it stands. -/
inductive Unmatched where
  | opening (pos : Nat)
  | closing (pos : Nat)
  deriving Repr, DecidableEq

def Unmatched.message : Unmatched → String
  | .opening pos => "unmatched [ at " ++ Decimal.ofNat pos
  | .closing pos => "unmatched ] at " ++ Decimal.ofNat pos

/-- The symbols of a text, and for each bracket the index of its partner. -/
structure Code where
  symbols : Array Symbol
  jumps : Array (Option Nat)
  deriving Repr, DecidableEq

namespace Code

/-- A text read so far. `opens` holds the index and the position of each open bracket, the innermost
first; `pos` is the number of bytes read. -/
structure Scan where
  symbols : Array Symbol := #[]
  jumps : Array (Option Nat) := #[]
  opens : List (Nat × Nat) := []
  pos : Nat := 0

def Scan.feed (s : Scan) (b : UInt8) : Except Unmatched Scan :=
  match Symbol.ofByte? b with
  | none => .ok { s with pos := s.pos + 1 }
  | some .opening =>
    -- The index is taken before the array grows, which then has one owner and grows in place.
    let i := s.symbols.size
    .ok { symbols := s.symbols.push .opening, jumps := s.jumps.push none,
          opens := (i, s.pos) :: s.opens, pos := s.pos + 1 }
  | some .closing =>
    match s.opens with
    | [] => .error (.closing s.pos)
    | (i, _) :: outer =>
      -- The opening bracket was entered without a partner; it learns of it only here.
      let j := s.symbols.size
      .ok { symbols := s.symbols.push .closing,
            jumps := (s.jumps.setIfInBounds i (some j)).push (some i),
            opens := outer, pos := s.pos + 1 }
  | some sym =>
    .ok { s with symbols := s.symbols.push sym, jumps := s.jumps.push none, pos := s.pos + 1 }

/-- Reads bytes up to the first closing bracket without partner. -/
def Scan.feedAll : Bytes → Scan → Except Unmatched Scan
  | [], s => .ok s
  | b :: rest, s =>
    match s.feed b with
    | .ok s => feedAll rest s
    | .error e => .error e

/-- The code of a text that has been read to its end. -/
def Scan.finish (s : Scan) : Except Unmatched Code :=
  match s.opens with
  | [] => .ok ⟨s.symbols, s.jumps⟩
  -- Of several open brackets the one read last is named.
  | (_, pos) :: _ => .error (.opening pos)

/-- The code of a text, or its bracket without partner. -/
def compile (src : Bytes) : Except Unmatched Code :=
  match Scan.feedAll src {} with
  | .ok s => s.finish
  | .error e => .error e

end Code

end TapeForge
