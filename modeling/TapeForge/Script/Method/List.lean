import TapeForge.Script.Method.Basic

/-!
# Methods of lists

A list that is frozen or being gone over cannot change. A failure of a method names it.
-/

namespace TapeForge.Script.ListMethod

open Store

def append : Method Nat := fun name ref args named => do
  taking name (takePositional [.any] args named)
  naming name (mutable ref "append to")
  changeList ref (·.push (argAt args 0))
  return .none

def clear : Method Nat := fun name ref args named => do
  taking name (takePositional [] args named)
  naming name (mutable ref "clear")
  changeList ref fun _ => #[]
  return .none

def extend : Method Nat := fun name ref args named => do
  taking name (takePositional [.iterable] args named)
  naming name (mutable ref "extend")
  let more := (← itemsOf (argAt args 0)).toList
  changeList ref (· ++ more)
  return .none

/-- The place of the first element that equals a value, counted from `i`. -/
def placeOf? (v : Value) : Nat → List Value → Eval (Option Nat)
  | _, [] => return none
  | i, e :: es => do if ← compare .eq e v then return some i else placeOf? v (i + 1) es

def index : Method Nat := fun name ref args named => do
  taking name (takeAtLeast 1 [.any, .any, .any] args named)
  let es := (← listElems ref).toList
  naming name do
    let (start, stop) ← forwardBounds (argAt args 1) (argAt args 2) es.length
    let part := (es.drop start.toNat).take (stop - start).toNat
    match ← placeOf? (argAt args 0) start.toNat part with
    | some i => return .int i
    | none => raise (.plain "value not in list")

/-- Inserts an element before the one with an index; beyond the ends, at the end. -/
def insert : Method Nat := fun name ref args named => do
  taking name (takePositional [.int, .any] args named)
  naming name (mutable ref "insert into")
  let es := (← listElems ref).toList
  let i := intArg args 0 0
  let place := (if i < 0 then i + es.length else i).toNat
  changeList ref fun _ => (es.take place ++ argAt args 1 :: es.drop place).toArray
  return .none

/-- Removes the element with an index, or the last one, and gives it. -/
def pop : Method Nat := fun name ref args named => do
  taking name (takeAtLeast 0 [.int] args named)
  let es ← listElems ref
  naming name do
    let i ← Script.placeOf "list" (intArg args 0 ((es.size : Int) - 1)) es.size
    mutable ref "pop from"
    changeList ref (·.eraseIdxIfInBounds i)
    return es.getD i .none

def remove : Method Nat := fun name ref args named => do
  taking name (takePositional [.any] args named)
  naming name do
    mutable ref "remove from"
    match ← placeOf? (argAt args 0) 0 (← listElems ref).toList with
    | some i =>
      changeList ref (·.eraseIdxIfInBounds i)
      return .none
    | none => raise (.plain "element not found")

def table : MethodTable Nat :=
  [("append", append), ("clear", clear), ("extend", extend), ("index", index),
    ("insert", insert), ("pop", pop), ("remove", remove)]

end TapeForge.Script.ListMethod
