import TapeForge.Script.Universe.Collection

/-!
# Names that every script has

The constants and functions that are bound before anything else.
-/

namespace TapeForge.Script

namespace Universe

open Store

def bool : Native := fun _ name args named => do
  taking name (takeAtLeast 0 [.any] args named)
  return .bool (← truth (args.headD (.bool false)))

def dir : Native := fun _ name args named => do
  let v ← onlyArg name "1" args named
  newList (((methodNames? v).getD []).map Value.string)

def separator (name : String) (named : List (Bytes × Value)) : Eval Bytes := do
  match ← taking name (takeNamed [⟨"sep", .text, true⟩] [] named) with
  | [some (.text s)] => return s
  | _ => return [32]

def fail : Native := fun _ name args named => do
  let sep ← separator name named
  raise (.failed (Bytes.join sep (← args.mapM bareText)))

def print : Native := fun _ name args named => do
  let sep ← separator name named
  let line := Bytes.join sep ((← args.mapM toDatum).map Datum.shown)
  modify fun s => { s with prints := s.prints.push line }
  return .none

def getattr : Native := fun _ name args named => do
  taking name (takeAtLeast 2 [.any, .text, .any] args named)
  let x := argAt args 0
  match ← method? x (textArg args 1).toText with
  | some m => return m
  | none =>
    match args with
    | [_, _, v] => return v
    | _ => naming name (raise (.noField x.typeName (textArg args 1).toText none))

def hasattr : Native := fun _ name args named => do
  taking name (takePositional [.any, .text] args named)
  return .bool (← method? (argAt args 0) (textArg args 1).toText).isSome

/-- The text of a value as an expression would write it. -/
def repr : Native := fun _ name args named => do
  taking name (takePositional [.any] args named)
  return .string (← reprOf (argAt args 0))

def str : Native := fun _ name args named => do
  match ← onlyArg name "exactly 1" args named with
  | .bytes s => return .text (TextMethod.ofChars (TextMethod.chars s))
  | v => return .text (← bareText v)

def type : Native := fun _ name args named => do
  return .string (← onlyArg name "exactly 1" args named).typeName

def table : List (String × Native) :=
  [("abs", abs), ("all", search false false), ("any", search true true), ("bool", bool),
    ("bytes", bytes), ("chr", chr), ("dict", dict), ("dir", dir), ("enumerate", enumerate),
    ("fail", fail), ("float", float), ("getattr", getattr), ("hasattr", hasattr),
    ("hash", hash), ("int", int), ("len", len), ("list", list), ("max", extreme .gt),
    ("min", extreme .lt), ("ord", ord), ("print", print), ("range", range), ("repr", repr),
    ("reversed", reversed), ("set", set), ("sorted", sorted), ("str", str), ("tuple", tuple),
    ("type", type), ("zip", zip)]

end Universe

def universe? (x : String) : Option Value :=
  if x = "None" then some .none
  else if x = "True" then some (.bool true)
  else if x = "False" then some (.bool false)
  else if (Universe.table.lookup x).isSome then some (.native x)
  else none

def callNative (call : Caller) (name : String) (args : List Value)
    (named : List (Bytes × Value)) : Eval Value :=
  match Universe.table.lookup name with
  | some f => f call name args named
  | none => raise (.notCallable "function")

end TapeForge.Script
