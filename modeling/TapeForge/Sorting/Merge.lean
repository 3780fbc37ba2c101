import TapeForge.Sorting.Insertion

/-!
# Stable sorting by symmetric merges

Runs of twenty elements are sorted by insertion. Neighbouring runs are then merged, in passes over
runs of doubling length, by exchanging the middle parts of two runs and merging each half again. A
comparison may have effects, so the order of the comparisons is part of the definition.
-/

namespace TapeForge.Sorting

variable {α : Type} {m : Type → Type} [Monad m]

/-- Puts `x` into a list held in descending order, behind every element it comes before. -/
def insertDescendingM (before : α → α → m Bool) (x : α) : List α → m (List α)
  | [] => return [x]
  | y :: ys => do
    if ← before x y then return y :: (← insertDescendingM before x ys)
    else return x :: y :: ys

/-- Insertion sort: each element moves left past its larger left neighbours. -/
def insertionM (before : α → α → m Bool) (xs : List α) : m (List α) := do
  return (← xs.foldlM (fun acc x => insertDescendingM before x acc) []).reverse

/-- The least place of `lo ≤ i < hi` at which `here` is false, or `hi`, if `here` holds first at
some places and then at none. -/
def firstPlace (here : Nat → m Bool) : Nat → Nat → Nat → m Nat
  | 0, lo, _ => return lo
  | fuel + 1, lo, hi =>
    if lo < hi then do
      let mid := (lo + hi) / 2
      if ← here mid then firstPlace here fuel (mid + 1) hi else firstPlace here fuel lo mid
    else return lo

def beforeAt (before : α → α → m Bool) (xs : Array α) (i j : Nat) : m Bool :=
  match xs[i]?, xs[j]? with
  | some x, some y => before x y
  | _, _ => return false

/-- Merges the sorted runs `xs` and `ys`. The number bounds the depth of halving. -/
def symMerge (before : α → α → m Bool) : Nat → List α → List α → m (List α)
  | 0, xs, ys => return xs ++ ys
  | fuel + 1, xs, ys => do
    let all := (xs ++ ys).toArray
    let start := xs.length
    match xs, ys with
    | [], ys => return ys
    | xs, [] => return xs
    | [x], ys =>
      -- The element goes before its equals in the other run, for it came before them.
      let n ← firstPlace (fun i => beforeAt before all (i + 1) 0) ys.length 0 ys.length
      return ys.take n ++ x :: ys.drop n
    | xs, [y] =>
      -- Here it goes behind its equals.
      let n ← firstPlace (fun i => do return !(← beforeAt before all start i)) xs.length 0 xs.length
      return xs.take n ++ y :: xs.drop n
    | xs, ys =>
      let m := xs.length
      let b := all.size
      let mid := b / 2
      let n := mid + m
      let (lo, hi) := if mid < m then (n - b, mid) else (0, m)
      let start ← firstPlace (fun c => do return !(← beforeAt before all (n - 1 - c) c)) b lo hi
      let stop := n - start
      let moved := xs.take start ++ ys.take (stop - m) ++ xs.drop start ++ ys.drop (stop - m)
      let low := moved.take mid
      let high := moved.drop mid
      return (← symMerge before fuel (low.take start) (low.drop start)) ++
        (← symMerge before fuel (high.take (stop - mid)) (high.drop (stop - mid)))

def runs (n : Nat) : Nat → List α → List (List α)
  | 0, _ => []
  | fuel + 1, xs => if xs.isEmpty then [] else xs.take n :: runs n fuel (xs.drop n)

/-- Merges the first run with the second, the third with the fourth, and so on. -/
def mergePairs (before : α → α → m Bool) : List (List α) → m (List (List α))
  | xs :: ys :: rest => do
    let merged ← symMerge before (xs.length + ys.length) xs ys
    return merged :: (← mergePairs before rest)
  | rest => return rest

/-- Merges pairs of runs until one is left. -/
def mergeAll (before : α → α → m Bool) : Nat → List (List α) → m (List α)
  | 0, rs => return rs.flatten
  | fuel + 1, rs =>
    match rs with
    | [] => return []
    | [r] => return r
    | rs => do mergeAll before fuel (← mergePairs before rs)

/-- The stable sort, by a comparison that may have effects. -/
def mergeM (before : α → α → m Bool) (xs : List α) : m (List α) := do
  let rs ← (runs 20 xs.length xs).mapM (insertionM before)
  mergeAll before rs.length rs

def merge (before : α → α → Bool) (xs : List α) : List α :=
  Id.run (mergeM (fun a b => pure (before a b)) xs)

end TapeForge.Sorting
