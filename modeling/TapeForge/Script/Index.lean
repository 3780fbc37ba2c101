import TapeForge.Script.Operator

/-!
# Indices and slices

An index counts from the end when it is negative. The bounds of a slice are kept within the value.
-/

namespace TapeForge.Script

open Store

def placeOf (type : String) (i length : Int) : Eval Nat := do
  let j := if i < 0 then i + length else i
  if j < 0 ∨ length ≤ j then raise (.indexOutOfRange type i length)
  return j.toNat

def indexInt (type : String) (y : Value) : Eval Int := fun s =>
  match smallInt y s with
  | .ok i s => .ok i s
  | .error e s => .error { why := .badIndex type e.why } s

def indexValue (x y : Value) : Eval Value := do
  let place := fun (length : Int) => do
    placeOf x.typeName (← indexInt x.typeName y) length
  match x with
  | .dict ref =>
    match ← lookup ref y with
    | some v => return v
    | none => raise (.missingKey (← reprOf y))
  | .text s => return .text ((s.drop (← place s.length)).take 1)
  | .bytes s => return .bytes ((s.drop (← place s.length)).take 1)
  | .list ref =>
    let es ← listElems ref
    return es.getD (← place es.size) .none
  | .tuple es => return es.getD (← place es.length) .none
  | .range a b c =>
    let i ← place (Datum.rangeCount a b c).toInt
    return (rangeItems a b c).item i
  | .view .elems s => return (viewItems .elems s).item (← place s.length)
  | .view .elemOrds s => return (viewItems .elemOrds s).item (← place s.length)
  | x => raise (.unhandledIndex x.typeName y.typeName)

/-- A bound of a slice, counted from the end when negative. -/
def sliceBound (part : String) (v : Value) (length fallback : Int) : Eval Int := fun s =>
  match v with
  | .none => .ok fallback s
  | v =>
    match smallInt v s with
    | .ok i s => .ok (if i < 0 then i + length else i) s
    | .error e s => .error { why := .badBound part e.why } s

def clamp (length i : Int) : Int := if i < 0 then 0 else if length < i then length else i

/-- The first and the last place of a slice that goes forward. -/
def forwardBounds (low high : Value) (length : Int) : Eval (Int × Int) := do
  let start ← sliceBound "start index" low length 0
  let stop ← sliceBound "end index" high length length
  return (clamp length start, clamp length stop)

/-- The places from a first one on, a step apart, before a last one. -/
structure Stride where
  start : Int
  stop : Int
  step : Int

def Stride.count (s : Stride) : Nat :=
  if 0 < s.step then (if s.start < s.stop then ((s.stop - 1 - s.start) / s.step + 1).toNat else 0)
  else (if s.stop < s.start then ((s.start - 1 - s.stop) / (-s.step) + 1).toNat else 0)

def Stride.places (s : Stride) : List Nat :=
  (List.range s.count).map fun (i : Nat) => (s.start + (i : Int) * s.step).toNat

def sliceStride (length : Int) (low high step : Value) : Eval Stride := do
  let step ← match step with
    | .none => pure 1
    | v => sliceStep v
  if step = 0 then raise .zeroSliceStep
  if 0 < step then
    let (start, stop) ← forwardBounds low high length
    return ⟨start, max start stop, step⟩
  else
    let start ← sliceBound "start index" low length (length - 1)
    let stop ← sliceBound "end index" high length (-1)
    let start := min (length - 1) start
    let stop := max (-1) stop
    return ⟨max start stop, stop, step⟩
where
  /-- The step that a value is. -/
  sliceStep (v : Value) : Eval Int := fun s =>
    match smallInt v s with
    | .ok i s => .ok i s
    | .error e s => .error { why := .badBound "slice step" e.why } s

def pickSlice {α : Type} (xs : Array α) (low high step : Value) : Eval (List α) := do
  let stride ← sliceStride xs.size low high step
  return stride.places.filterMap fun i => xs[i]?

def sliceValue (x low high step : Value) : Eval Value := do
  match x with
  | .text s => return .text (← pickSlice s.toArray low high step)
  | .bytes s => return .bytes (← pickSlice s.toArray low high step)
  | .tuple es => return .tuple (← pickSlice es.toArray low high step)
  | .list ref => newList (← pickSlice (← listElems ref) low high step)
  | .range a b c => do
    let stride ← sliceStride (Datum.rangeCount a b c).toInt low high step
    let nth := fun (i : Int) => a + c * Int64.ofInt i
    return .range (nth stride.start) (nth stride.stop) (c * Int64.ofInt stride.step)
  | x => raise (.unhandledSlice x.typeName)

def setIndex (x y z : Value) : Eval Unit := do
  match x with
  | .dict ref => insertKey ref y z
  | .list ref =>
    let n := (← listElems ref).size
    let i ← placeOf "list" (← smallInt y) n
    mutable ref "assign to element of"
    changeList ref (·.setIfInBounds i z)
  | x => raise (.noItemAssignment x.typeName)

end TapeForge.Script
