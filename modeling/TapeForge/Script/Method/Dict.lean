import TapeForge.Script.Method.Basic

/-!
# Methods of dicts

The entries of a dict stand in the order in which their keys were first entered.
-/

namespace TapeForge.Script.DictMethod

open Store

/-- Enters a pair given as a collection of two elements; `i` is its number. -/
def enterPair (ref : Nat) (i : Nat) (pair : Value) : Eval Unit := do
  let length ← lengthOf pair
  if length < 0 then raise (.pairUnknownLength i pair.typeName)
  if length ≠ 2 then raise (.pairLength i length)
  let s ← itemsOf pair
  insertKey ref (s.item 0) (s.item 1)

/-- Enters pairs. None of them can change until all have been entered. -/
def enterPairs (ref : Nat) : Nat → List Value → Eval Unit
  | _, [] => return ()
  | i, pair :: rest => do
    if !pair.isIterable then raise (.pairNotIterable i pair.typeName)
    holding pair do
      enterPair ref i pair
      enterPairs ref (i + 1) rest

def repeated? : List Bytes → Option Bytes
  | names => go [] names
where
  /-- The first name that is among those before it. -/
  go (seen : List Bytes) : List Bytes → Option Bytes
    | [] => none
    | x :: xs => if seen.contains x then some x else go (x :: seen) xs

/-- Enters the entries of a dict or pairs, if they are given, and then named values. -/
def enterAll (ref : Nat) (args : List Value) (named : List (Bytes × Value)) : Eval Unit := do
  match args with
  | .dict other :: _ =>
    for (k, v) in (← dictTable other).values do insertKey ref k v
  | v :: _ =>
    if !v.isIterable then raise (.wantType v.typeName "iterable")
    let pairs := (← itemsOf v).toList
    holding v (enterPairs ref 0 pairs)
  | [] => pure ()
  let before := (← dictTable ref).size
  for (k, v) in named do insertKey ref (.text k) v
  if (← dictTable ref).size < before + named.length then
    if let some name := repeated? (named.map Prod.fst) then raise (.duplicateKeyword name)

def clear : Method Nat := fun name ref args named => do
  taking name (takePositional [] args named)
  mutable ref "clear"
  setDict ref {}
  return .none

def get : Method Nat := fun name ref args named => do
  taking name (takeAtLeast 1 [.any, .any] args named)
  return (← naming name (lookup ref (argAt args 0))).getD (argAt args 1)

def listing (f : Value × Value → Value) : Method Nat :=
  .ofOwner fun ref => do newList ((← dictTable ref).values.map f)

/-- Removes a key and gives its value, or another value if it is not there. -/
def pop : Method Nat := fun name ref args named => do
  taking name (takeAtLeast 1 [.any, .any] args named)
  match ← naming name (removeKey ref (argAt args 0)) with
  | some v => return v
  | none =>
    match args with
    | _ :: v :: _ => return v
    | _ => refuse name "missing key"

/-- Removes the first entry and gives it. -/
def popItem : Method Nat := fun name ref args named => do
  taking name (takePositional [] args named)
  let t ← dictTable ref
  match t.values with
  | [] => refuse name "empty dict"
  | (k, v) :: _ =>
    naming name (mutable ref "delete from")
    setDict ref (t.eraseAt 0)
    return .tuple [k, v]

def setDefault : Method Nat := fun name ref args named => do
  taking name (takeAtLeast 1 [.any, .any] args named)
  naming name do
    match ← lookup ref (argAt args 0) with
    | some v => return v
    | none =>
      insertKey ref (argAt args 0) (argAt args 1)
      return argAt args 1

def update : Method Nat := fun name ref args named => do
  if 1 < args.length then raise (.argumentCount name args.length "at most 1")
  naming name (enterAll ref args named)
  return .none

def table : MethodTable Nat :=
  [("clear", clear), ("get", get), ("items", listing fun (k, v) => .tuple [k, v]),
    ("keys", listing Prod.fst), ("pop", pop), ("popitem", popItem), ("setdefault", setDefault),
    ("update", update), ("values", listing Prod.snd)]

end TapeForge.Script.DictMethod
