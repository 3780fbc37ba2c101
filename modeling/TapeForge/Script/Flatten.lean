import TapeForge.Script.Datum
import TapeForge.Script.Reply

/-!
# Ops in data

A program is written as ops in lists, tuples and ranges nested to any depth, with `None` for
nothing. Flattening gives the ops from left to right, or the first leaf that is neither. The
elements of a string are no ops, so only an empty view of them holds none. A list that it comes to
inside itself is gone over again and again, and there is no end to that.
-/

namespace TapeForge

/-- A leaf that is no op. -/
inductive NotOps where
  | text (s : Bytes)
  | bytes (s : Bytes)
  | type (name : String)
  deriving Repr, DecidableEq

def NotOps.message : NotOps → String
  | .text s => "want op or list of ops, got string " ++ Quoted.text s
  | .bytes s => "want op or list of ops, got bytes " ++ Quoted.text s
  | .type name => "want op or list of ops, got " ++ name

namespace Datum

mutual

/-- The ops of a datum, from left to right. A string is one leaf, and so are bytes. -/
def ops : Datum → Reply NotOps (List Op)
  | op o => .ok [o]
  | none => .ok []
  | text s => .error (.text s)
  | bytes s => .error (.bytes s)
  | list elems => opsOf elems
  | tuple elems => opsOf elems
  | range start stop step =>
    if rangeLength start stop step = 0 then .ok [] else .error (.type "int")
  | view .elems s =>
    match s with
    | [] => .ok []
    | b :: _ => .error (.text [b])
  | view .elemOrds s => if s.isEmpty then .ok [] else .error (.type "int")
  | again .list => .endless
  | d => .error (.type d.typeName)

def opsOf : List Datum → Reply NotOps (List Op)
  | [] => .ok []
  | d :: ds => do
    let os ← ops d
    return os ++ (← opsOf ds)

end

def ofOps (os : List Op) : Datum := .list (os.map .op)

end Datum

end TapeForge
