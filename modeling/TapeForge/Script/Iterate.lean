import TapeForge.Script.Compare

/-!
# Going over values

The elements of a value one by one, and the number of them. The elements of a range are not made
before they are needed.
-/

namespace TapeForge.Script

open Store

/-- A number of values. -/
structure Items where
  count : Nat
  item : Nat → Value

namespace Items

def ofArray (vs : Array Value) : Items := ⟨vs.size, fun i => vs.getD i .none⟩

def ofList (vs : List Value) : Items := ofArray vs.toArray

def toList (s : Items) : List Value := (List.range s.count).map s.item

def take (s : Items) (n : Nat) : List Value := (List.range (min n s.count)).map s.item

end Items

def rangeItems (start stop step : Int64) : Items :=
  ⟨Datum.rangeLength start stop step, fun i => .int (start + Int64.ofNat i * step).toInt⟩

def viewItems (v : View) (s : Bytes) : Items :=
  match v with
  | .elems => .ofList (s.map fun b => .text [b])
  | .elemOrds | .bytesElems => .ofList (s.map fun b => .int b.toNat)
  | .codepoints => .ofList ((Rune.decode s).map fun r => .text (Bytes.ofChar r.shown))
  | .codepointOrds => .ofList ((Rune.decode s).map fun r => .int r.shown.toNat)

/-- The elements of a value that can be gone over; of a dict, the keys. -/
def items? (v : Value) : Eval (Option Items) := do
  match v with
  | .list ref => return some (.ofArray (← listElems ref))
  | .dict ref => return some (.ofList ((← dictTable ref).values.map Prod.fst))
  | .set ref => return some (.ofList (← setTable ref).values)
  | .tuple elems => return some (.ofList elems)
  | .range a b c => return some (rangeItems a b c)
  | .view v s => return some (viewItems v s)
  | _ => return none

/-- The elements of a value; none if it cannot be gone over. -/
def itemsOf (v : Value) : Eval Items := do return (← items? v).getD ⟨0, fun _ => .none⟩

/-- The length of a value; fewer than none if it has no length. -/
def lengthOf (v : Value) : Eval Int := do
  match v with
  | .text s => return s.length
  | .bytes s => return s.length
  | .range a b c => return (Datum.rangeCount a b c).toInt
  | .view .elems s | .view .elemOrds s => return s.length
  | .view _ _ => return -1
  | v =>
    match ← items? v with
    | some s => return s.count
    | none => return -1

/-- Does `f` for a number of values from the one with a number on, and gathers what it gives, the
last first. -/
def gather {α : Type} (s : Items) (f : Nat → Value → Eval α) : Nat → Nat → List α → Eval (List α)
  | 0, _, acc => return acc.reverse
  | n + 1, i, acc => do gather s f n (i + 1) ((← f i (s.item i)) :: acc)

/-- Does `f` for each element of a value, which cannot change meanwhile, and gathers what it
gives. -/
def forEach {α : Type} (v : Value) (f : Nat → Value → Eval α) : Eval (List α) := do
  let s ← itemsOf v
  holding v (gather s f s.count 0 [])

end TapeForge.Script
