import TapeForge.Config.Path

/-!
# Configuration documents

A document is a constraint that does not contradict itself. What it says is taken as a number, a
text, a truth value or a list of numbers.
-/

namespace TapeForge.Config

/-- The document that a text writes; none if it is not well formed or contradicts itself. -/
def Constraint.ofDocument? (bs : Bytes) : Option Constraint :=
  (Constraint.ofText? bs).filter fun c => !c.isBad

namespace Constraint

/-- The plain value that a constraint leaves: its own, or that of the alternative which is meant. -/
def toAtom? : Constraint → Option Atom
  | atom a => some a
  | choice alternatives =>
    match chosen? alternatives with
    | some (atom a) => some a
    | _ => none
  | _ => none

/-- A value as a word. The least word is out of reach, as numbers are read by their magnitude. -/
def toWord? (c : Constraint) : Option Int64 :=
  match c.toAtom? with
  | some (.int n) => if n.natAbs < 0x8000000000000000 then some (Int64.ofInt n) else none
  | _ => none

def toText? (c : Constraint) : Option Bytes :=
  match c.toAtom? with
  | some (.text s) => some s
  | _ => none

def toBool? (c : Constraint) : Option Bool :=
  match c.toAtom? with
  | some (.bool b) => some b
  | _ => none

/-- A value as a list of words. Null stands for no list, and so does what leaves values open. -/
def toWords? : Constraint → Option (Option (List Int64))
  | list elems _ => (elems.mapM toWord?).map some
  | kind _ _ => some none
  | choice alternatives =>
    match chosen? alternatives with
    | some (list elems _) => (elems.mapM toWord?).map some
    | some (atom a) => if a = .null then some none else none
    | some (fields _) => none
    | _ => some none
  | atom a => if a = .null then some none else none
  | _ => none

end Constraint

end TapeForge.Config
