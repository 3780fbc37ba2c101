import TapeForge.Script.Datum

/-!
# Keys

What can be a key of a dict or an element of a set. Keys are told apart by a hash first; those with
the same hash are compared, numbers by value, down to a depth. A table keeps its entries in the
order in which their keys were first entered.
-/

namespace TapeForge.Script

/-- A value as a key. Functions are told apart by a number, builtins by name and number. -/
inductive Key where
  | none
  | bool (b : Bool)
  | int (n : Int)
  | float (x : Float)
  | text (s : Bytes)
  | bytes (s : Bytes)
  | tuple (elems : List Key)
  | function (name : String) (id : Nat)
  | builtin (name : String) (id : Nat)
  deriving Inhabited

/-- Why something is no key, or why keys cannot be compared. -/
inductive KeyFault where
  | unhashableType (type : String)
  | unhashable (type : String)
  | tooDeep
  deriving Repr, DecidableEq

def KeyFault.message : KeyFault → String
  | unhashableType type => "unhashable type: " ++ type
  | unhashable type => "unhashable: " ++ type
  | tooDeep => "comparison exceeded maximum recursion depth"

/-- The order of two doubles; NaN is equal to itself and above all others. -/
def orderFloats (a b : Float) : Ordering :=
  if a.isNaN then (if b.isNaN then .eq else .gt)
  else if b.isNaN then .lt
  else if a < b then .lt
  else if a > b then .gt
  else .eq

/-- The order of an integer and a double; NaN is above all others. -/
def orderIntFloat (n : Int) (x : Float) : Ordering :=
  if x.isNaN then .lt
  else if x.isInf then (if x > 0 then .lt else .gt)
  else Double.compareInt n x

def wholePart? (x : Float) : Option Int :=
  if x.isNaN || x.isInf then none
  else
    let (p, q) := Double.fraction x
    some (Int.tdiv p q)

namespace Key

def hashBytes (s : Bytes) : UInt32 :=
  s.foldl (fun (h : UInt32) b => (h ^^^ b.toUInt32) * 16777619) 2166136261

/-- The hash of an integer. One that does not fit 32 bits is known by the low word of its size. -/
def hashInt (n : Int) : UInt32 :=
  let low := if -0x80000000 ≤ n ∧ n < 0x80000000 then UInt32.ofInt n
    else UInt32.ofNat (n.natAbs % 0x100000000)
  12582917 * (low + 3)

mutual

/-- The hash of a key. Equal keys have the same. -/
def hash : Key → UInt32
  | none => 0
  | bool b => if b then 1 else 0
  | int n => hashInt n
  | float x =>
    match wholePart? x with
    | some n => hashInt n
    | Option.none => 1618033
  | text s => hashBytes s
  | bytes s => hashBytes s
  | tuple elems =>
    hashAll (82520 + 2 * UInt32.ofNat elems.length) 0x345678 1000003 elems
  | function name _ => hashBytes (Bytes.ofString name)
  | builtin name _ => hashBytes (Bytes.ofString name)

/-- Goes on with the hash of a tuple. -/
def hashAll (stride : UInt32) (acc factor : UInt32) : List Key → UInt32
  | [] => acc
  | k :: ks => hashAll stride (acc ^^^ hash k * factor) (factor + stride) ks

end

/-- Whether two lists are equal by a comparison of their elements, from left to right. -/
def allEqual (equal : Key → Key → Except KeyFault Bool) : List Key → List Key → Except KeyFault Bool
  | a :: as, b :: bs => do if ← equal a b then allEqual equal as bs else return false
  | as, bs => .ok (as.isEmpty && bs.isEmpty)

def equalTo : Nat → Key → Key → Except KeyFault Bool
  | 0, _, _ => .error .tooDeep
  | depth + 1, a, b =>
    match a, b with
    | none, none => .ok true
    | bool a, bool b => .ok (a == b)
    | int a, int b => .ok (a == b)
    | float a, float b => .ok (orderFloats a b == .eq)
    | int a, float b => .ok (orderIntFloat a b == .eq)
    | float a, int b => .ok (orderIntFloat b a == .eq)
    | text a, text b => .ok (a == b)
    | bytes a, bytes b => .ok (a == b)
    | tuple as, tuple bs =>
      if as.length = bs.length then allEqual (equalTo depth) as bs else .ok false
    | function _ i, function _ j => .ok (i == j)
    | builtin a i, builtin b j => .ok (a == b && i == j)
    | _, _ => .ok false

/-- The depth down to which values are compared. -/
def depthLimit : Nat := 10

def equal (a b : Key) : Except KeyFault Bool := equalTo depthLimit a b

end Key

structure Entry (α : Type) where
  key : Key
  hash : UInt32
  value : α
  deriving Inhabited

/-- Entries with distinct keys, in the order of their first entry. -/
structure Table (α : Type) where
  entries : Array (Entry α) := #[]
  deriving Inhabited

namespace Table

variable {α : Type}

def size (t : Table α) : Nat := t.entries.size

def values (t : Table α) : List α := t.entries.toList.map Entry.value

def placeIn (k : Key) (h : UInt32) : Nat → List (Entry α) → Except KeyFault (Option Nat)
  | _, [] => .ok none
  | i, e :: es => do
    -- Keys with different hashes are not compared at all, so they cannot be too deep for it.
    if e.hash = h then
      if ← Key.equal k e.key then return some i
    placeIn k h (i + 1) es

def place? (t : Table α) (k : Key) : Except KeyFault (Option Nat) :=
  placeIn k k.hash 0 t.entries.toList

def get? (t : Table α) (k : Key) : Except KeyFault (Option α) := do
  match ← t.place? k with
  | some i => return t.entries[i]?.map Entry.value
  | none => return none

/-- Enters a value under a key. An entry that is there keeps its place, and `update` makes its new
value. -/
def enter (t : Table α) (k : Key) (v : α) (update : α → α) : Except KeyFault (Table α) := do
  match ← t.place? k with
  | some i => return ⟨t.entries.modify i fun e => { e with value := update e.value }⟩
  | none => return ⟨t.entries.push ⟨k, k.hash, v⟩⟩

def eraseAt (t : Table α) (i : Nat) : Table α := ⟨t.entries.eraseIdxIfInBounds i⟩

end Table

end TapeForge.Script

namespace TapeForge.Datum

open Script

mutual

/-- A datum as a key. Those that change are no keys. -/
def toKey : Datum → Except KeyFault Key
  | none => .ok .none
  | bool b => .ok (.bool b)
  | int n => .ok (.int n)
  | float x => .ok (.float x)
  | text s => .ok (.text s)
  | bytes s => .ok (.bytes s)
  | tuple elems => (toKeys elems).map .tuple
  | function name => .ok (.function name 0)
  | builtin name => .ok (.builtin name 0)
  | method name _ => .ok (.builtin name 0)
  | range .. => .error (.unhashable "range")
  | view v _ => .error (.unhashable v.typeName)
  | list _ => .error (.unhashableType "list")
  | dict _ => .error (.unhashableType "dict")
  | set _ => .error (.unhashableType "set")
  | op _ => .error (.unhashableType "op")
  | again what => .error (.unhashableType (again what).typeName)

def toKeys : List Datum → Except KeyFault (List Key)
  | [] => .ok []
  | d :: ds => do
    let k ← toKey d
    return k :: (← toKeys ds)

end

/-- Enters a value into a table under a key. A key that is there stays. -/
def enter (key value : Datum) (t : Table (Datum × Datum)) :
    Except KeyFault (Table (Datum × Datum)) := do
  t.enter (← key.toKey) (key, value) fun (k, _) => (k, value)

def insert (elem : Datum) (t : Table Datum) : Except KeyFault (Table Datum) := do
  t.enter (← elem.toKey) elem id

end TapeForge.Datum
