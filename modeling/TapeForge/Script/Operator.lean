import TapeForge.Script.Format
import TapeForge.Script.Iterate

/-!
# Operators

Arithmetic and membership on values. Integers have any size; division rounds down.
-/

namespace TapeForge.Script

open Store

def smallInt (v : Value) : Eval Int := do
  match v with
  | .int n => if -0x80000000 ≤ n ∧ n < 0x80000000 then return n else raise (.smallIntRange n)
  | v => raise (.wantInt v.typeName)

def byteInt (v : Value) : Eval UInt8 := do
  match v with
  | .int n => if 0 ≤ n ∧ n ≤ 255 then return UInt8.ofNat n.toNat else raise (.byteRange n)
  | v => raise (.wantInt v.typeName)

def numberToInt (v : Value) : Eval Int :=
  match integerOf? v with
  | some n => return n
  | none => raise (.noInteger (noInteger v))

def toFloat (n : Int) : Eval Float := do
  let x := Double.ofInt n
  if x.isInf then raise .tooLargeForFloat else return x

/-- The remainder of doubles, with the sign of the first. -/
def floatRemainder (a b : Float) : Float :=
  if a.isInf || a.isNaN || b.isNaN then Double.ofBits BinaryFormat.double.nanBits
  else if b.isInf then a
  else
    let (p, q) := Double.fraction a
    let (r, s) := Double.fraction b
    Double.ofFraction (Double.isNegative a) (Int.tmod (p * s) (r * q)).natAbs (q * s)

/-- The remainder of doubles, with the sign of the second unless it is zero. -/
def floatMod (a b : Float) : Float :=
  let z := floatRemainder a b
  if (a < 0) != (b < 0) && z != 0 then z + b else z

/-- A list may not have this many elements. -/
def maxElements : Nat := 0x40000000

/-- `n` copies of a list; none if `n` is negative. -/
def repeatList {α : Type} (n : Int) (xs : List α) : Eval (List α) := do
  if xs.isEmpty then return []
  if n < -0x80000000 ∨ 0x80000000 ≤ n then raise (.repeatTooLarge n)
  if maxElements ≤ xs.length * n.toNat then raise (.excessiveRepeat xs.length n)
  return (List.replicate n.toNat xs).flatten

def occursIn (needle : Bytes) : Bytes → Bool
  | [] => needle.isEmpty
  | b :: bs => needle.isPrefixOf (b :: bs) || occursIn needle bs

/-- Whether a range holds an integer. One that does not fit 32 bits is in none. -/
def inRange (n : Int) (start stop step : Int64) : Bool :=
  let delta := Int64.ofInt n - start
  let steps := delta / step
  decide (-0x80000000 ≤ n ∧ n < 0x80000000) && delta % step == 0 && 0 ≤ steps &&
    steps < Datum.rangeCount start stop step

def isIn (x y : Value) : Eval Bool := do
  match y with
  | .list ref => equalsOne x (← listElems ref).toList
  | .tuple es => equalsOne x es
  | .dict ref =>
    match x.toKey with
    | .error _ => return false
    | .ok key =>
      match (← dictTable ref).get? key with
      | .ok found => return found.isSome
      | .error _ => return false
  | .set ref => holds (← setTable ref) x
  | .text s =>
    match x with
    | .text needle => return occursIn needle s
    | x => raise (.badNeedle "<string>" "string" x.typeName)
  | .bytes s =>
    match x with
    | .bytes needle => return occursIn needle s
    | .int n =>
      if n < 0 ∨ 255 < n then raise (.byteNeedle (.byteRange n))
      return s.any fun b => (b.toNat : Int) = n
    | x => raise (.badNeedle "bytes" "bytes or int" x.typeName)
  | .range a b c =>
    match integerOf? x with
    | some n => return inRange n a b c
    | none => raise (.badNeedle "<range>" "integer" x.typeName)
  | y => raise (.unknownBinary x.typeName "in" y.typeName)

def floatArith (op : BinaryOp) (a b : Float) : Eval Value :=
  match op with
  | .add => return .float (a + b)
  | .sub => return .float (a - b)
  | .mul => return .float (a * b)
  | .div => if b == 0 then raise .divisionByZero else return .float (a / b)
  | .floorDiv => if b == 0 then raise .floorDivisionByZero else return .float (a / b).floor
  | .mod => if b == 0 then raise .floatModuloByZero else return .float (floatMod a b)
  | op => raise (.unknownBinary "float" op.mark "float")

/-- The bitwise operation on integers of any size that does `f` on bits, in two's complement. -/
def bitwise (f : Bool → Bool → Bool) (a b : Int) : Int :=
  -- Wide enough for both with a bit for the sign.
  let width := max (Nat.log2 a.natAbs) (Nat.log2 b.natAbs) + 2
  let bit := fun (x : Int) (i : Nat) => Int.emod (Int.fdiv x (Int.pow 2 i)) 2 == 1
  let digits := (List.range width).map fun i => f (bit a i) (bit b i)
  let value := digits.zipIdx.foldl
    (fun (acc : Int) (d, i) => if d then acc + Int.pow 2 i else acc) 0
  if f (a < 0) (b < 0) then value - Int.pow 2 width else value

def shiftLeft (a : Int) (y : Value) : Eval Value := do
  let n ← smallInt y
  if n < 0 then raise (.negativeShift n)
  if 512 ≤ n then raise (.largeShift n)
  return .int (a * Int.pow 2 n.toNat)

def shiftRight (a : Int) (y : Value) : Eval Value := do
  let n ← smallInt y
  if n < 0 then raise (.negativeShift n)
  -- All digits are shifted out: only the sign is left, and no large power is computed.
  return .int (if Nat.log2 a.natAbs < n.toNat then (if a < 0 then -1 else 0)
    else Int.fdiv a (Int.pow 2 n.toNat))

def intArith (op : BinaryOp) (a b : Int) : Eval Value :=
  match op with
  | .add => return .int (a + b)
  | .sub => return .int (a - b)
  | .mul => return .int (a * b)
  | .div => do
    let x ← toFloat a
    let y ← toFloat b
    if y == 0 then raise .divisionByZero else return .float (x / y)
  | .floorDiv => if b = 0 then raise .floorDivisionByZero else return .int (Int.fdiv a b)
  | .mod => if b = 0 then raise .moduloByZero else return .int (Int.fmod a b)
  | .and => return .int (bitwise (· && ·) a b)
  | .or => return .int (bitwise (· || ·) a b)
  | .xor => return .int (bitwise (· != ·) a b)
  | .shiftLeft => shiftLeft a (.int b)
  | .shiftRight => shiftRight a (.int b)
  | op => raise (.unknownBinary "int" op.mark "int")

/-- Whether an operator takes a double on either side. -/
def isFloatOp (op : BinaryOp) : Bool :=
  op == .add || op == .sub || op == .mul || op == .div || op == .floorDiv || op == .mod

def unionOf (t : Table Value) (vs : List Value) : Eval (Table Value) := vs.foldlM withElem t

def differenceOf (t : Table Value) (vs : List Value) : Eval (Table Value) :=
  vs.foldlM (fun t v => do return (← withoutElem t v).1) t

def intersectionOf (t : Table Value) (vs : List Value) : Eval (Table Value) :=
  vs.foldlM (fun r v => do if ← holds t v then withElem r v else return r) {}

/-- A set in which some elements are removed if they are there, and added if not. What is no key is
not added to an empty set. -/
def symmetricOf (t : Table Value) (vs : List Value) : Eval (Table Value) :=
  vs.foldlM (fun t v => do
    let (rest, found) ← withoutElem t v
    if found then return rest
    match v.toKey with
    | .error _ => return t
    | .ok key => keyed (t.enter key v id)) t

def setArith (op : BinaryOp) (a b : Nat) : Eval Value := do
  let t ← setTable a
  let vs := (← setTable b).values
  match op with
  | .or => newSet (← unionOf t vs)
  | .and => newSet (← intersectionOf t vs)
  | .sub => newSet (← differenceOf t vs)
  | .xor => newSet (← symmetricOf t vs)
  | op => raise (.unknownBinary "set" op.mark "set")

/-- Enters all entries of a dict into another. Entries that cannot be compared are left out. -/
def mergeInto (t s : Table (Value × Value)) : Table (Value × Value) :=
  s.entries.foldl (fun t e =>
    match t.enter e.key e.value fun (k, _) => (k, e.value.2) with
    | .ok t => t
    | .error _ => t) t

def arith (op : BinaryOp) (x y : Value) : Eval Value := do
  let unknown : Eval Value := raise (.unknownBinary x.typeName op.mark y.typeName)
  match x, y with
  | .int a, .int b => intArith op a b
  | .float a, .float b => if isFloatOp op then floatArith op a b else unknown
  | .int a, .float b =>
    if isFloatOp op then floatArith op (← toFloat a) b
    else if op = .shiftLeft ∨ op = .shiftRight then raise (.wantInt "float")
    else unknown
  | .float a, .int b => if isFloatOp op then floatArith op a (← toFloat b) else unknown
  | .set a, .set b =>
    if op = .or ∨ op = .and ∨ op = .sub ∨ op = .xor then setArith op a b else unknown
  | .dict a, .dict b =>
    if op = .or then newDict (mergeInto (← dictTable a) (← dictTable b)) else unknown
  | x, y =>
    match op, x, y with
    | .add, .text a, .text b => return .text (a ++ b)
    | .add, .tuple a, .tuple b => return .tuple (a ++ b)
    | .add, .list a, .list b => newList ((← listElems a).toList ++ (← listElems b).toList)
    | .mul, .int n, .text s => return .text (← repeatList n s)
    | .mul, .text s, .int n => return .text (← repeatList n s)
    | .mul, .int n, .bytes s => return .bytes (← repeatList n s)
    | .mul, .bytes s, .int n => return .bytes (← repeatList n s)
    | .mul, .int n, .tuple es => return .tuple (← repeatList n es)
    | .mul, .tuple es, .int n => return .tuple (← repeatList n es)
    | .mul, .int n, .list ref => newList (← repeatList n (← listElems ref).toList)
    | .mul, .list ref, .int n => newList (← repeatList n (← listElems ref).toList)
    -- An integer is made a double before the other operand is looked at, and that may fail.
    | .div, .int a, _ => do
      let _ ← toFloat a
      unknown
    | .mod, .text form, y => interpolate form y
    | .shiftLeft, .int _, y => raise (.wantInt y.typeName)
    | .shiftRight, .int _, y => raise (.wantInt y.typeName)
    | _, _, _ => unknown

def binary (op : BinaryOp) (x y : Value) : Eval Value :=
  match op with
  | .eq | .ne | .lt | .le | .gt | .ge => do return .bool (← compare op x y)
  | .isIn => do return .bool (← isIn x y)
  | .notIn => do return .bool (!(← isIn x y))
  | op => arith op x y

def unary (op : UnaryOp) (x : Value) : Eval Value :=
  match op, x with
  | .not, x => do return .bool (!(← truth x))
  | .plus, .int n => return .int n
  | .minus, .int n => return .int (-n)
  | .invert, .int n => return .int (-n - 1)
  | .plus, .float a => return .float a
  | .minus, .float a => return .float (-a)
  | op, x => raise (.unknownUnary op.mark x.typeName)

/-- The operator of an augmented assignment. Lists and dicts are extended in place. -/
def augment (op : BinaryOp) (x y : Value) : Eval Value := do
  match op, x, y with
  | .add, .list ref, y =>
    match ← items? y with
    | some vs =>
      mutable ref "apply += to"
      let more := vs.toList
      changeList ref (· ++ more)
      return x
    | none => binary op x y
  | .or, .dict a, .dict b =>
    mutable a "apply |= to"
    setDict a (mergeInto (← dictTable a) (← dictTable b))
    return x
  | op, x, y => binary op x y

end TapeForge.Script
