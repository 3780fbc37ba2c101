import TapeForge.Script.Argument
import TapeForge.Script.Key
import TapeForge.Script.Tree

/-!
# Values with identity

While a script runs, lists, dicts and sets can change and are shared, so a value refers to them by
their place in a store. Ops do not change, but each has its own identity.
-/

namespace TapeForge.Script

/-- A value of a running script. `native` is a function of the language, `host` one that the script
was given under a key; `method` is a function of its owner. -/
inductive Value where
  | none
  | bool (b : Bool)
  | int (n : Int)
  | float (x : Float)
  | text (s : Bytes)
  | bytes (s : Bytes)
  | tuple (elems : List Value)
  | list (ref : Nat)
  | dict (ref : Nat)
  | set (ref : Nat)
  | range (start stop step : Int64)
  | view (v : View) (s : Bytes)
  | op (o : Op) (id : Nat)
  | function (ref : Nat) (name : String)
  | native (name : String)
  | host (key shown : String)
  | method (owner : Value) (name : String) (id : Nat)
  deriving Inhabited

namespace Value

def string (s : String) : Value := .text (Bytes.ofString s)

def typeName : Value → String
  | none => "NoneType"
  | bool _ => "bool"
  | int _ => "int"
  | float _ => "float"
  | text _ => "string"
  | bytes _ => "bytes"
  | tuple _ => "tuple"
  | list _ => "list"
  | dict _ => "dict"
  | set _ => "set"
  | range .. => "range"
  | view v _ => v.typeName
  | op .. => "op"
  | function .. => "function"
  | native _ => "builtin_function_or_method"
  | host .. => "builtin_function_or_method"
  | method .. => "builtin_function_or_method"

def isCallable : Value → Bool
  | function .. | native _ | host .. | method .. => true
  | _ => false

def isIterable : Value → Bool
  | tuple _ | list _ | dict _ | set _ | range .. | view .. => true
  | _ => false

instance : Passable Value where
  typeName := typeName
  int?
    | int n => some n
    | _ => Option.none
  fits
    | .int, int _ => true
    | .text, text _ => true
    | .bool, bool _ => true
    | .dict, dict _ => true
    | .callable, v => v.isCallable
    | .iterable, v => v.isIterable
    | .any, _ => true
    | _, _ => false

mutual

/-- A value as a key. Those that change are no keys. -/
def toKey : Value → Except KeyFault Key
  | none => .ok .none
  | bool b => .ok (.bool b)
  | int n => .ok (.int n)
  | float x => .ok (.float x)
  | text s => .ok (.text s)
  | bytes s => .ok (.bytes s)
  | tuple elems => (toKeys elems).map .tuple
  | function ref name => .ok (.function name ref)
  | native name => .ok (.builtin name 0)
  | host key _ => .ok (.builtin key 1)
  | method _ name id => .ok (.builtin name (id + 2))
  | range .. => .error (.unhashable "range")
  | view v _ => .error (.unhashable v.typeName)
  | list _ => .error (.unhashableType "list")
  | dict _ => .error (.unhashableType "dict")
  | set _ => .error (.unhashableType "set")
  | op .. => .error (.unhashableType "op")

def toKeys : List Value → Except KeyFault (List Key)
  | [] => .ok []
  | v :: vs => do
    let k ← toKey v
    return k :: (← toKeys vs)

end

end Value

abbrev Scope := List (String × Nat)

/-- The blocks around an expression, the innermost first; the last is that of the script. `frame` is
where the blocks of the comprehensions of the present function are kept, `script` the number of the
script. -/
structure Env where
  scopes : List Scope
  frame : Nat
  script : Nat

inductive Body where
  | block (stmts : List Stmt)
  | value (e : Expr)

/-- A function with the blocks around it. `named` parameters are given by name only. `script` and
`pos` tell which function of which script it is. -/
structure Closure where
  name : String
  script : Nat
  pos : Position
  positional : List String
  named : List String
  rest : Option String
  restNamed : Option String
  defaults : List (String × Value)
  locals : List String
  body : Body
  scopes : List Scope

/-- A thing in the store. `busy` counts the loops that go over a collection. A `frame` keeps the
blocks of the comprehensions of a function that is being called, by the places of their brackets. -/
inductive Object where
  | list (elems : Array Value) (frozen : Bool) (busy : Nat)
  | dict (table : Table (Value × Value)) (frozen : Bool) (busy : Nat)
  | set (table : Table Value) (frozen : Bool) (busy : Nat)
  | cell (v : Option Value)
  | function (f : Closure)
  | frame (scopes : List (Position × Scope))

instance : Inhabited Object := ⟨.cell none⟩

end TapeForge.Script
