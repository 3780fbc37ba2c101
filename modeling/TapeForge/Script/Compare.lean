import TapeForge.Script.Store

/-!
# Comparison

When values are true, equal or ordered. Collections are compared by their elements, down to a depth;
what has no order of its own is equal only to itself.
-/

namespace TapeForge.Script

open Store

def truth (v : Value) : Eval Bool := do
  match v with
  | .list ref => return (← listElems ref).size ≠ 0
  | .dict ref => return (← dictTable ref).size ≠ 0
  | .set ref => return (← setTable ref).size ≠ 0
  | .tuple elems => return !elems.isEmpty
  | v => return (← toDatum v).truth

def satisfies (op : BinaryOp) (o : Ordering) : Bool :=
  match op with
  | .eq => o == .eq
  | .ne => o != .eq
  | .lt => o == .lt
  | .le => o != .gt
  | .gt => o == .gt
  | .ge => o != .lt
  | _ => false

def identical : Value → Value → Bool
  | .none, .none => true
  | .op _ i, .op _ j => i == j
  | .function i _, .function j _ => i == j
  | .native a, .native b => a == b
  | .host a _, .host b _ => a == b
  | .method _ _ i, .method _ _ j => i == j
  | .view v s, .view w t => v == w && s == t
  | _, _ => false

def sameRange (a b c a' b' c' : Int64) : Bool :=
  let n := Datum.rangeCount a b c
  n == Datum.rangeCount a' b' c' && (n == 0 || a == a' && (n == 1 || c == c'))

/-- The outcome for values that are known to be equal or not, and that have no order. -/
def unordered (op : BinaryOp) (same : Bool) (x y : Value) : Eval Bool :=
  match op with
  | .eq => return same
  | .ne => return !same
  | op => raise (.notComparable x.typeName op.mark y.typeName)

/-- Compares lists by their first difference, then by length. `compare` compares two elements. -/
def compareLists (compare : BinaryOp → Value → Value → Eval Bool) (op : BinaryOp) :
    List Value → List Value → Eval Bool
  | a :: as, b :: bs => do
    if ← compare .eq a b then compareLists compare op as bs
    else
      match op with
      | .eq => return false
      | .ne => return true
      | op => compare op a b
  | as, bs => return satisfies op (Ord.compare as.length bs.length)

/-- Compares lists. Those of different length are not equal, whatever they hold. -/
def compareElems (compare : BinaryOp → Value → Value → Eval Bool) (op : BinaryOp)
    (as bs : List Value) : Eval Bool :=
  if as.length ≠ bs.length ∧ (op = .eq ∨ op = .ne) then return op == .ne
  else compareLists compare op as bs

/-- Whether every entry of the first dict has an equal one in the second. A key that cannot be
looked up is not there. -/
def entriesWithin (compare : BinaryOp → Value → Value → Eval Bool) (t : Table (Value × Value)) :
    List (Entry (Value × Value)) → Eval Bool
  | [] => return true
  | e :: rest => do
    match t.get? e.key with
    | .ok (some (_, w)) =>
      if ← compare .eq e.value.2 w then entriesWithin compare t rest else return false
    | _ => return false

def holdsAll {α β : Type} (t : Table α) : List (Entry β) → Except KeyFault Bool
  | [] => .ok true
  | e :: rest => do
    match ← t.get? e.key with
    | some _ => holdsAll t rest
    | none => return false

/-- Compares sets: a smaller set is one that is held by a larger one. -/
def compareSets (op : BinaryOp) (a b : Table Value) : Except KeyFault Bool := do
  let subset := fun (s t : Table Value) => holdsAll t s.entries.toList
  -- For equality, what cannot be compared is not equal and no failure.
  let same := match subset a b with
    | .ok b => b
    | .error _ => false
  match op with
  | .eq => return a.size = b.size && same
  | .ne => return !(a.size = b.size && same)
  | .le => if b.size < a.size then return false else subset a b
  | .lt => if b.size ≤ a.size then return false else subset a b
  | .ge => if a.size < b.size then return false else subset b a
  | .gt => if a.size ≤ b.size then return false else subset b a
  | _ => return false

def compareDepth : Nat → BinaryOp → Value → Value → Eval Bool
  | 0, _, _, _ => raise (.key .tooDeep)
  | depth + 1, op, x, y =>
    let inner := compareDepth depth
    match x, y with
    | .bool a, .bool b => return satisfies op (Ord.compare a.toNat b.toNat)
    | .int a, .int b => return satisfies op (Ord.compare a b)
    | .float a, .float b => return satisfies op (orderFloats a b)
    | .int a, .float b => return satisfies op (orderIntFloat a b)
    | .float a, .int b => return satisfies op (orderIntFloat b a).swap
    | .text a, .text b => return satisfies op (Bytes.compare a b)
    | .bytes a, .bytes b => return satisfies op (Bytes.compare a b)
    | .tuple a, .tuple b => compareElems inner op a b
    | .list a, .list b => do
      compareElems inner op (← listElems a).toList (← listElems b).toList
    | .dict a, .dict b => do
      if op = .eq ∨ op = .ne then
        let s ← dictTable a
        let t ← dictTable b
        let same ← if s.size = t.size then entriesWithin inner t s.entries.toList else pure false
        unordered op same x y
      else unordered op false x y
    | .set a, .set b => do keyed (compareSets op (← setTable a) (← setTable b))
    | .range a b c, .range a' b' c' => unordered op (sameRange a b c a' b' c') x y
    | x, y => unordered op (identical x y) x y

def compare (op : BinaryOp) (x y : Value) : Eval Bool := compareDepth Key.depthLimit op x y

def equalsOne (x : Value) : List Value → Eval Bool
  | [] => return false
  | e :: es => do if ← compare .eq e x then return true else equalsOne x es

namespace Store

def lookup (ref : Nat) (k : Value) : Eval (Option Value) := do
  let found ← keyed ((← dictTable ref).get? (← keyed k.toKey))
  return found.map Prod.snd

/-- Sets a key of a dict. A key that is there stays. -/
def insertKey (ref : Nat) (k v : Value) : Eval Unit := do
  mutable ref "insert into"
  let key ← keyed k.toKey
  setDict ref (← keyed ((← dictTable ref).enter key (k, v) fun (k, _) => (k, v)))

def removeKey (ref : Nat) (k : Value) : Eval (Option Value) := do
  mutable ref "delete from"
  let t ← dictTable ref
  if t.size = 0 then return none
  match ← keyed (t.place? (← keyed k.toKey)) with
  | none => return none
  | some i =>
    setDict ref (t.eraseAt i)
    return t.entries[i]?.map (·.value.2)

def holds (t : Table Value) (v : Value) : Eval Bool := do
  return (← keyed (t.get? (← keyed v.toKey))).isSome

def withElem (t : Table Value) (v : Value) : Eval (Table Value) := do
  keyed (t.enter (← keyed v.toKey) v id)

/-- A table without an element, and whether that was there. -/
def withoutElem (t : Table Value) (v : Value) : Eval (Table Value × Bool) := do
  if t.size = 0 then return (t, false)
  match ← keyed (t.place? (← keyed v.toKey)) with
  | some i => return (t.eraseAt i, true)
  | none => return (t, false)

end Store

end TapeForge.Script
