import TapeForge.Script.Method.Basic

/-!
# Methods of sets

The elements of a set stand in the order in which they were first added. Other sets can be given as
any collection.
-/

namespace TapeForge.Script.SetMethod

open Store

def insertAll (ref : Nat) (vs : List Value) : Eval Unit :=
  vs.forM fun v => do
    mutable ref "insert into"
    setSet ref (← withElem (← setTable ref) v)

def add : Method Nat := fun name ref args named => do
  taking name (takePositional [.any] args named)
  naming name do
    if ← holds (← setTable ref) (argAt args 0) then return .none
    insertAll ref [argAt args 0]
    return .none

def clear : Method Nat := fun name ref args named => do
  taking name (takePositional [] args named)
  if 0 < (← setTable ref).size then
    naming name (mutable ref "clear")
    setSet ref {}
  return .none

def delete (ref : Nat) (v : Value) : Eval Bool := do
  mutable ref "delete from"
  let (t, found) ← withoutElem (← setTable ref) v
  setSet ref t
  return found

def discard : Method Nat := fun name ref args named => do
  taking name (takePositional [.any] args named)
  naming name do
    if ← holds (← setTable ref) (argAt args 0) then
      let _ ← delete ref (argAt args 0)
    return .none

def remove : Method Nat := fun name ref args named => do
  taking name (takePositional [.any] args named)
  naming name do
    if ← delete ref (argAt args 0) then return .none else raise (.plain "missing key")

def pop : Method Nat := fun name ref args named => do
  taking name (takePositional [] args named)
  match (← setTable ref).values with
  | [] => refuse name "empty set"
  | v :: _ =>
    let _ ← naming name (delete ref v)
    return v

/-- A method that makes something of the set and the elements of a collection. Without one there is
nothing to be done. -/
def against (f : Table Value → List Value → Eval Value) : Method Nat :=
  fun name ref args named => do
    taking name (takeAtLeast 0 [.iterable] args named)
    match args with
    | [] => raise .aborted
    | v :: _ =>
      let other := (← itemsOf v).toList
      naming name (f (← setTable ref) other)

/-- Whether a collection has all of some number of elements that are left. Once it has, the rest of
it does not matter. -/
def covers (left : Table Value) : List Value → Eval Bool
  | [] => return left.size = 0
  | v :: rest => do
    if left.size = 0 then return true
    let (left, _) ← withoutElem left v
    covers left rest

/-- Whether a set has all elements of a collection. -/
def holdsAll (t : Table Value) : List Value → Eval Bool
  | [] => return true
  | v :: rest => do if ← holds t v then holdsAll t rest else return false

def enterAll (ref : Nat) (args : List Value) (named : List (Bytes × Value)) : Eval Unit := do
  if !named.isEmpty then raise (.noKeywords "update")
  for (v, i) in args.zipIdx do
    if !v.isIterable then raise (.notIterableAt (i + 1) v.typeName)
    let other := (← itemsOf v).toList
    holding v (insertAll ref other)

def union : Method Nat := fun name ref args named => do
  let copy ← alloc (.set (← setTable ref) false 0)
  naming name (enterAll copy args named)
  return .set copy

def update : Method Nat := fun name ref args named => do
  naming name (enterAll ref args named)
  return .none

def table : MethodTable Nat :=
  [("add", add), ("clear", clear),
    ("difference", against fun t vs => do newSet (← differenceOf t vs)),
    ("discard", discard),
    ("intersection", against fun t vs => do newSet (← intersectionOf t vs)),
    ("issubset", against fun t vs => do return .bool (← covers t vs)),
    ("issuperset", against fun t vs => do return .bool (← holdsAll t vs)),
    ("pop", pop), ("remove", remove),
    ("symmetric_difference", against fun t vs => do newSet (← symmetricOf t vs)),
    ("union", union), ("update", update)]

end TapeForge.Script.SetMethod
