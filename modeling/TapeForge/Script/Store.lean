import TapeForge.Script.EvalError
import TapeForge.Script.Value

/-!
# The store

Everything that a running script can change, and the computations on it. A computation that fails
keeps what it has changed, and tells where it failed in each of the functions that were being
called.
-/

namespace TapeForge.Script

/-- A function that was being called when something failed, and where in it. A function that is not
written in a script has no places. -/
structure Frame where
  name : String
  native : Bool
  place : Option Position
  deriving Repr, DecidableEq

/-- A failure: its cause, the place in the present function if it is known yet, and the functions
that this one was calling, the outermost first. -/
structure Raised where
  why : EvalError
  place : Option Position := none
  inner : List Frame := []

structure Store where
  objects : Array Object := #[]
  prints : Array Bytes := #[]
  fresh : Nat := 0
  /-- The functions being called, by script and place, for scripts without recursion. -/
  active : List (Nat × Position) := []

/-- A computation of a script. -/
abbrev Eval := EStateM Raised Store

def raise {α : Type} (why : EvalError) : Eval α := throw { why }

def locate {α : Type} (pos : Position) (act : Eval α) : Eval α := fun s =>
  match act s with
  | .ok a s => .ok a s
  | .error e s => .error { e with place := e.place.or (some pos) } s

/-- Does something at a place that is looked for only when that fails. -/
def locateBy {α : Type} (place : Unit → Option Position) (act : Eval α) : Eval α := fun s =>
  match act s with
  | .ok a s => .ok a s
  | .error e s => .error { e with place := e.place.or (place ()) } s

def inFrame {α : Type} (name : String) (native : Bool) (act : Eval α) : Eval α := fun s =>
  match act s with
  | .ok a s => .ok a s
  | .error e s => .error { why := e.why, inner := ⟨name, native, e.place⟩ :: e.inner } s

def naming {α : Type} (callee : String) (act : Eval α) : Eval α := fun s =>
  match act s with
  | .ok a s => .ok a s
  | .error e s => .error { why := .inCall callee e.why } s

def taking {α : Type} (callee : String) (r : Except CallFault α) : Eval α :=
  match r with
  | .ok a => return a
  | .error fault => raise (.call ⟨callee, fault⟩)

def keyed {α : Type} (r : Except KeyFault α) : Eval α :=
  match r with
  | .ok a => return a
  | .error fault => raise (.key fault)

namespace Store

def alloc (o : Object) : Eval Nat := fun s =>
  .ok s.objects.size { s with objects := s.objects.push o }

def read (ref : Nat) : Eval Object := fun s => .ok (s.objects.getD ref default) s

def change (ref : Nat) (f : Object → Object) : Eval Unit := fun s =>
  .ok () { s with objects := s.objects.modify ref f }

def update (ref : Nat) (o : Object) : Eval Unit := change ref fun _ => o

def freshId : Eval Nat := fun s => .ok s.fresh { s with fresh := s.fresh + 1 }

def newList (elems : List Value) : Eval Value := do
  return .list (← alloc (.list elems.toArray false 0))

def newDict (table : Table (Value × Value)) : Eval Value := do
  return .dict (← alloc (.dict table false 0))

def newSet (table : Table Value) : Eval Value := do
  return .set (← alloc (.set table false 0))

def listElems (ref : Nat) : Eval (Array Value) := do
  match ← read ref with
  | .list elems _ _ => return elems
  | _ => return #[]

def dictTable (ref : Nat) : Eval (Table (Value × Value)) := do
  match ← read ref with
  | .dict table _ _ => return table
  | _ => return {}

def setTable (ref : Nat) : Eval (Table Value) := do
  match ← read ref with
  | .set table _ _ => return table
  | _ => return {}

/-- Fails if a collection may not change; `what` says what is to be done to it. -/
def mutable (ref : Nat) (what : String) : Eval Unit := do
  let check := fun (kind : String) (frozen : Bool) (busy : Nat) => (do
    if frozen then raise (.frozen (what ++ " frozen " ++ kind))
    if 0 < busy then raise (.busy (what ++ " " ++ kind)) : Eval Unit)
  match ← read ref with
  | .list _ frozen busy => check "list" frozen busy
  | .dict _ frozen busy => check "hash table" frozen busy
  | .set _ frozen busy => check "hash table" frozen busy
  | _ => return ()

def changeList (ref : Nat) (f : Array Value → Array Value) : Eval Unit :=
  change ref fun
    | .list elems frozen busy => .list (f elems) frozen busy
    | o => o

def setDict (ref : Nat) (table : Table (Value × Value)) : Eval Unit :=
  change ref fun
    | .dict _ frozen busy => .dict table frozen busy
    | o => o

def setSet (ref : Nat) (table : Table Value) : Eval Unit :=
  change ref fun
    | .set _ frozen busy => .set table frozen busy
    | o => o

/-- Counts a loop over a collection in or out. -/
def occupy (ref : Nat) (enter : Bool) : Eval Unit :=
  let count := fun (n : Nat) => if enter then n + 1 else n - 1
  change ref fun
    | .list es f n => .list es f (count n)
    | .set t f n => .set t f (count n)
    | .dict t f n => .dict t f (count n)
    | o => o

/-- Counts a loop over a value in or out, if it is a collection that can change. -/
def hold (v : Value) (enter : Bool) : Eval Unit :=
  match v with
  | .list ref => occupy ref enter
  | .dict ref => occupy ref enter
  | .set ref => occupy ref enter
  | _ => return ()

/-- Does something while a value is held; afterwards it is free again, also when that fails. -/
def holding {α : Type} (v : Value) (act : Eval α) : Eval α := do
  hold v true
  -- A failure inside must not leave the value held.
  let r ← try act catch e => do
    hold v false
    throw e
  hold v false
  return r

mutual

/-- A value as a datum. `path` holds the collections around it, so that a collection inside itself
is seen; the depth is bounded by the fuel. -/
def datum (objects : Array Object) : Nat → List Nat → Value → Datum
  | 0, _, _ => .again .list
  | _ + 1, _, .none => .none
  | _ + 1, _, .bool b => .bool b
  | _ + 1, _, .int n => .int n
  | _ + 1, _, .float x => .float x
  | _ + 1, _, .text s => .text s
  | _ + 1, _, .bytes s => .bytes s
  | fuel + 1, path, .tuple elems => .tuple (data objects fuel path elems)
  | fuel + 1, path, .list ref =>
    if path.contains ref then .again .list
    else
      match objects.getD ref default with
      | .list elems _ _ => .list (data objects fuel (ref :: path) elems.toList)
      | _ => .list []
  | fuel + 1, path, .dict ref =>
    if path.contains ref then .again .dict
    else
      match objects.getD ref default with
      | .dict table _ _ => .dict (dataEntries objects fuel (ref :: path) table.values)
      | _ => .dict []
  | fuel + 1, path, .set ref =>
    match objects.getD ref default with
    | .set table _ _ => .set (data objects fuel (ref :: path) table.values)
    | _ => .set []
  | _ + 1, _, .range a b c => .range a b c
  | _ + 1, _, .view v s => .view v s
  | _ + 1, _, .op o _ => .op o
  | _ + 1, _, .function _ name => .function name
  | _ + 1, _, .native name => .builtin name
  | _ + 1, _, .host _ shown => .builtin shown
  | _ + 1, _, .method owner name _ => .method name owner.typeName

def data (objects : Array Object) : Nat → List Nat → List Value → List Datum
  | 0, _, _ => []
  | _ + 1, _, [] => []
  | fuel + 1, path, v :: vs => datum objects fuel path v :: data objects fuel path vs

def dataEntries (objects : Array Object) :
    Nat → List Nat → List (Value × Value) → List (Datum × Datum)
  | 0, _, _ => []
  | _ + 1, _, [] => []
  | fuel + 1, path, (k, v) :: rest =>
    (datum objects fuel path k, datum objects fuel path v) :: dataEntries objects fuel path rest

end

/-- The largest number of values and levels of a datum. -/
def datumFuel : Nat := 1000000000

def toDatum (v : Value) : Eval Datum := fun s => .ok (datum s.objects datumFuel [] v) s

def reprOf (v : Value) : Eval String := do return (← toDatum v).repr

mutual

/-- A datum as a new value. Collections are made frozen when asked. -/
def ofDatum (frozen : Bool) : Datum → Eval Value
  | .none => return .none
  | .bool b => return .bool b
  | .int n => return .int n
  | .float x => return .float x
  | .text s => return .text s
  | .bytes s => return .bytes s
  | .list elems => do
    let vs ← ofData frozen elems
    return .list (← alloc (.list vs.toArray frozen 0))
  | .tuple elems => do return .tuple (← ofData frozen elems)
  | .dict es => do return .dict (← alloc (.dict (← ofDataEntries frozen {} es) frozen 0))
  | .set elems => do
    let vs ← ofData frozen elems
    let table ← vs.foldlM (fun t v => do keyed (t.enter (← keyed v.toKey) v id)) {}
    return .set (← alloc (.set table frozen 0))
  | .range a b c => return .range a b c
  | .view v s => return .view v s
  | .op o => do return .op o (← freshId)
  | .function name => return .native name
  | .builtin name => return .native name
  | .method name _ => return .native name
  | .again _ => return .none

def ofData (frozen : Bool) : List Datum → Eval (List Value)
  | [] => return []
  | d :: ds => do
    let v ← ofDatum frozen d
    return v :: (← ofData frozen ds)

def ofDataEntries (frozen : Bool) (t : Table (Value × Value)) :
    List (Datum × Datum) → Eval (Table (Value × Value))
  | [] => return t
  | (k, v) :: rest => do
    let k ← ofDatum frozen k
    let v ← ofDatum frozen v
    ofDataEntries frozen (← keyed (t.enter (← keyed k.toKey) (k, v) fun _ => (k, v))) rest

end

end Store

end TapeForge.Script
