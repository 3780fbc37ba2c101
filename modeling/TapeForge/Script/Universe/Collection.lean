import TapeForge.Script.Method
import TapeForge.Script.Universe.Number
import TapeForge.Sorting.Merge

/-!
# Functions of collections

Making collections of others, and going over them. A collection cannot change while a function goes
over it.
-/

namespace TapeForge.Script.Universe

open Store

def anyItem (wanted : Bool) (s : Items) : Nat → Nat → Eval Bool
  | 0, _ => return false
  | n + 1, i => do
    if (← truth (s.item i)) == wanted then return true else anyItem wanted s n (i + 1)

/-- Whether one element of a collection tests as `wanted`; the answer is `found` then. -/
def search (wanted found : Bool) : Native := fun _ name args named => do
  taking name (takePositional [.iterable] args named)
  let s ← itemsOf (argAt args 0)
  return .bool (if ← anyItem wanted s s.count 0 then found else !found)

/-- The elements of a value that has to fit into memory. -/
def elementsOf (v : Value) : Eval (List Value) := do
  roomFor (← lengthOf v)
  return (← itemsOf v).toList

def optionalElements (name : String) (args : List Value) (named : List (Bytes × Value)) :
    Eval (List Value) := do
  taking name (takeAtLeast 0 [.iterable] args named)
  match args with
  | [] => return []
  | v :: _ => elementsOf v

def bytes : Native := fun _ name args named => do
  let v ← onlyArg name "exactly 1" args named
  match v with
  | .bytes s => return .bytes s
  | .text s => return .bytes (TextMethod.ofChars (TextMethod.chars s))
  | v =>
    if !v.isIterable then
      naming name (raise (.wantType v.typeName "string, bytes, or iterable of ints"))
    roomFor (← lengthOf v)
    return .bytes (← forEach v byteAt)
where
  /-- The byte that an element is. -/
  byteAt (i : Nat) (v : Value) : Eval UInt8 := fun s =>
    match byteInt v s with
    | .ok b s => .ok b s
    | .error e s => .error { why := .byteAt i e.why } s

def dict : Native := fun _ name args named => do
  if 1 < args.length then raise (.argumentCount name args.length "at most 1")
  let ref ← alloc (.dict {} false 0)
  naming name (DictMethod.enterAll ref args named)
  return .dict ref

def enumerate : Native := fun _ name args named => do
  taking name (takeAtLeast 1 [.iterable, .int] args named)
  let first := Int64.ofInt (intArg args 1 0)
  let pairs := (← elementsOf (argAt args 0)).zipIdx.map fun (v, i) =>
    Value.tuple [.int (first + Int64.ofNat i).toInt, v]
  newList pairs

def len : Native := fun _ name args named => do
  taking name (takePositional [.any] args named)
  let v := argAt args 0
  let n ← lengthOf v
  if n < 0 then raise (.noLength v.typeName)
  return .int n

def list : Native := fun _ name args named => do newList (← optionalElements name args named)

def tuple : Native := fun _ name args named => return .tuple (← optionalElements name args named)

def reversed : Native := fun _ name args named => do
  taking name (takePositional [.iterable] args named)
  newList (← elementsOf (argAt args 0)).reverse

def set : Native := fun _ name args named => do
  taking name (takeAtLeast 0 [.iterable] args named)
  let vs := (← itemsOf (argAt args 0)).toList
  newSet (← naming name (unionOf {} vs))

/-- The numbers from a first one on, a step apart, before a last one. -/
def range : Native := fun _ name args named => do
  taking name (takeAtLeast 1 [.int, .int, .int] args named)
  let n := fun (i : Nat) (fallback : Int) => Int64.ofInt (intArg args i fallback)
  let (start, stop) := if args.length = 1 then (0, n 0 0) else (n 0 0, n 1 0)
  let step := n 2 1
  if step = 0 then refuse name "step argument must not be zero"
  return .range start stop step

/-- Goes over values from the one with a number on and keeps the one whose key comes first by a
comparison. -/
def extremeFrom (name : String) (op : BinaryOp) (keyOf : Value → Eval Value) (s : Items) :
    Nat → Nat → Value → Value → Eval Value
  | 0, _, best, _ => return best
  | n + 1, i, best, bestKey => do
    let v := s.item i
    let key ← keyOf v
    if ← naming name (compare op key bestKey) then extremeFrom name op keyOf s n (i + 1) v key
    else extremeFrom name op keyOf s n (i + 1) best bestKey

/-- The extreme one of the arguments, or of the elements of the only argument. -/
def extreme (op : BinaryOp) : Native := fun call name args named => do
  if args.isEmpty then raise (.noArgument name)
  let given ← taking name (takeNamed [⟨"key", .callable, true⟩] [] named)
  let keyOf := fun (v : Value) =>
    match given with
    | [some f] => call f [v] []
    | _ => return v
  let source := match args with
    | [v] => v
    | args => .tuple args
  if !source.isIterable then naming name (raise (.notIterable source.typeName))
  let s ← itemsOf source
  if s.count = 0 then refuse name "argument is an empty sequence"
  holding source do
    let first := s.item 0
    extremeFrom name op keyOf s (s.count - 1) 1 first (← keyOf first)

/-- Compares keys, and keeps why that failed last. Keys that cannot be compared are in order. -/
def keyBefore (reverse : Bool) (a b : Value × Value) : StateT (Option EvalError) Eval Bool :=
  fun last s =>
    let (x, y) := if reverse then (b.1, a.1) else (a.1, b.1)
    match compare .lt x y s with
    | .ok before s => .ok (before, last) s
    | .error e s => .ok (false, some e.why) s

/-- The elements of a collection in ascending order of their keys; those with equal keys keep their
order. -/
def sorted : Native := fun call name args named => do
  let given ← taking name (takeNamed
    [⟨"iterable", .iterable, false⟩, ⟨"key", .callable, true⟩, ⟨"reverse", .bool, true⟩] args named)
  let (source, key, reverse) := match given with
    | [some v, key, some (.bool b)] => (v, key, b)
    | [some v, key, _] => (v, key, false)
    | _ => (.none, none, false)
  let vs ← elementsOf source
  let keyed ← holding source (vs.mapM fun v => do
    match key with
    | some f => return (← call f [v] [], v)
    | none => return (v, v))
  let (ordered, fault) ← (Sorting.mergeM (keyBefore reverse) keyed).run none
  match fault with
  | some why => raise why
  | none => newList (ordered.map Prod.snd)

def needIterables (name : String) : Nat → List Value → Eval Unit
  | _, [] => return ()
  | i, v :: rest => do
    if !v.isIterable then naming name (raise (.notIterableAt i v.typeName))
    needIterables name (i + 1) rest

def zip : Native := fun _ name args named => do
  if !named.isEmpty then raise (.noKeywords name)
  needIterables name 1 args
  let columns ← args.mapM itemsOf
  let rows : Nat := match columns with
    | [] => 0
    | c :: cs => cs.foldl (fun n c => min n c.count) c.count
  roomFor rows
  newList ((List.range rows).map fun i => .tuple (columns.map fun c => c.item i))

end TapeForge.Script.Universe
