import TapeForge.Sorting.Merge

/-!
# Quicksort that adapts to patterns

Short ranges are sorted by insertion. A longer one is split around the median of a few elements; a
range that looks sorted is tried by a few insertions first, one that looks reversed is turned
around, many equal elements are split off together, and after unbalanced splits some elements are
scattered. Too many bad splits lead to heapsort. Elements are only ever exchanged.
-/

namespace TapeForge.Sorting

variable {α : Type}

/-- Elements in an array with the comparison that sorts them. -/
structure Bench (α : Type) where
  before : α → α → Bool
  items : Array α

namespace Bench

def less (s : Bench α) (i j : Nat) : Bool :=
  match s.items[i]?, s.items[j]? with
  | some x, some y => s.before x y
  | _, _ => false

def swap (s : Bench α) (i j : Nat) : Bench α :=
  { s with items := s.items.swapIfInBounds i j }

/-- Moves the element at `j` left while it comes before its left neighbour, not below `a`. -/
def sinkLeft (s : Bench α) (a : Nat) : Nat → Bench α
  | 0 => s
  | j + 1 => if a < j + 1 ∧ s.less (j + 1) j then sinkLeft (s.swap (j + 1) j) a j else s

/-- Moves the element at `j - 1` right while its right neighbour comes before it; `n` places are
left. -/
def sinkRight (s : Bench α) : Nat → Nat → Bench α
  | 0, _ => s
  | n + 1, j => if s.less j (j - 1) then sinkRight (s.swap j (j - 1)) n (j + 1) else s

def insertRange (s : Bench α) (a b : Nat) : Bench α :=
  (List.range' (a + 1) (b - a - 1)).foldl (fun s i => s.sinkLeft a i) s

/-- Lets the root of a heap at `first` sink to its place among `hi` elements. -/
def siftDown (s : Bench α) (hi first : Nat) : Nat → Nat → Bench α
  | 0, _ => s
  | fuel + 1, root =>
    let child := 2 * root + 1
    if hi ≤ child then s
    else
      let child := if child + 1 < hi ∧ s.less (first + child) (first + child + 1) then child + 1
        else child
      if s.less (first + root) (first + child) then
        siftDown (s.swap (first + root) (first + child)) hi first fuel child
      else s

def heapRange (s : Bench α) (a b : Nat) : Bench α :=
  let n := b - a
  let s := (List.range ((n - 1) / 2 + 1)).reverse.foldl (fun s i => s.siftDown n a n i) s
  (List.range n).reverse.foldl (fun s i => (s.swap a (a + i)).siftDown i a n 0) s

/-- The first place from `i` on, at most `n` places further, where `here` fails. -/
def skipUp (here : Nat → Bool) : Nat → Nat → Nat
  | 0, i => i
  | n + 1, i => if here i then skipUp here n (i + 1) else i

/-- The last place from `j` down, at most `n` places lower, where `here` fails. -/
def skipDown (here : Nat → Bool) : Nat → Nat → Nat
  | 0, j => j
  | n + 1, j => if here j then skipDown here n (j - 1) else j

/-- Exchanges, from both ends, elements of `i ≤ k ≤ j` that stand on the wrong side: `low` holds of
those that stay on the left, `high` of those that stay on the right. Gives the places where the two
ends met and the number of exchanges. -/
def splitBy (low high : Bench α → Nat → Bool) :
    Nat → Bench α → Nat → Nat → Nat → Bench α × Nat × Nat × Nat
  | 0, s, i, j, n => (s, i, j, n)
  | fuel + 1, s, i, j, n =>
    let i := skipUp (low s) (j + 1 - i) i
    let j := skipDown (high s) (j + 1 - i) j
    if j < i then (s, i, j, n) else splitBy low high fuel (s.swap i j) (i + 1) (j - 1) (n + 1)

/-- Splits a range around an element: those before it, it, the others. Gives its place and whether
the range was split already. -/
def partition (s : Bench α) (a b pivot : Nat) : Bench α × Nat × Bool :=
  let (s, _, j, n) := splitBy (fun s k => s.less k a) (fun s k => !s.less k a) (b - a)
    (s.swap a pivot) (a + 1) (b - 1) 0
  (s.swap j a, j, n = 0)

/-- Splits a range without elements before the pivot into those that the pivot is not before and
the others. Gives the place of the first of the others. -/
def partitionEqual (s : Bench α) (a b pivot : Nat) : Bench α × Nat :=
  let (s, i, _, _) := splitBy (fun s k => !s.less a k) (fun s k => s.less a k) (b - a)
    (s.swap a pivot) (a + 1) (b - 1) 0
  (s, i)

/-- Tries to sort a nearly sorted range by moving a few elements. Gives whether it is sorted. -/
def mend (a b : Nat) : Nat → Bench α → Nat → Bench α × Bool
  | 0, s, _ => (s, false)
  | steps + 1, s, i =>
    let i := skipUp (fun i => i < b ∧ !s.less i (i - 1)) (b - i) i
    if b ≤ i then (s, true)
    else if b - a < 50 then (s, false)
    else
      let s := s.swap i (i - 1)
      -- Not bounded by `a`: in an order, what stands left of the range stops the element.
      let s := if 2 ≤ i - a then s.sinkLeft 0 (i - 1) else s
      let s := if 2 ≤ b - i then s.sinkRight (b - i - 1) (i + 1) else s
      mend a b steps s i

/-- The next number of the xorshift sequence. -/
def scramble (r : UInt64) : UInt64 :=
  let r := r ^^^ (r <<< 13)
  let r := r ^^^ (r >>> 7)
  r ^^^ (r <<< 17)

/-- Scatters three elements around the middle of a range. -/
def scatter (s : Bench α) (a b : Nat) : Bench α :=
  let n := b - a
  -- A power of two above `n` and at most twice as large: one subtraction is enough below.
  let modulus := Nat.pow 2 (Nat.log2 n + 1)
  let place := a + n / 4 * 2 - 1
  let (s, _) := (List.range 3).foldl (fun (s, r) i =>
    let r := scramble r
    let other := r.toNat % modulus
    let other := if n ≤ other then other - n else other
    (s.swap (place - 1 + i) (a + other), r)) (s, n.toUInt64)
  s

/-- The two places in the order of their elements, with one more exchange counted if they turn. -/
def order (s : Bench α) (swaps i j : Nat) : Nat × Nat × Nat :=
  if s.less j i then (swaps + 1, j, i) else (swaps, i, j)

/-- The place of the median of three elements, with the exchanges counted. -/
def median (s : Bench α) (swaps i j k : Nat) : Nat × Nat :=
  let (swaps, i, j) := s.order swaps i j
  let (swaps, j, _) := s.order swaps j k
  let (swaps, _, j) := s.order swaps i j
  (swaps, j)

/-- How the elements looked at lie: in order, in reverse, or neither. -/
inductive Hint where
  | increasing
  | decreasing
  | unknown
  deriving Repr, DecidableEq

/-- The place of the element to split around, and how the elements looked at lie. -/
def pivot (s : Bench α) (a b : Nat) : Nat × Hint :=
  let n := b - a
  let i := a + n / 4
  let j := a + n / 4 * 2
  let k := a + n / 4 * 3
  let (swaps, i, j, k) :=
    if 50 ≤ n then
      let (swaps, i) := s.median 0 (i - 1) i (i + 1)
      let (swaps, j) := s.median swaps (j - 1) j (j + 1)
      let (swaps, k) := s.median swaps (k - 1) k (k + 1)
      (swaps, i, j, k)
    else (0, i, j, k)
  let (swaps, j) := s.median swaps i j k
  (j, if swaps = 0 then .increasing else if swaps = 12 then .decreasing else .unknown)

def reverseRange (s : Bench α) (a b : Nat) : Bench α :=
  (List.range ((b - a) / 2)).foldl (fun s i => s.swap (a + i) (b - 1 - i)) s

/-- Sorts the range `a ≤ i < b`. `bad` is how many unbalanced splits are still taken; the last two
flags say whether the last split was balanced and whether it had nothing to do. -/
def sortRange : Nat → Bench α → Nat → Nat → Nat → Bool → Bool → Bench α
  | 0, s, _, _, _, _, _ => s
  | fuel + 1, s, a, b, bad, balanced, split =>
    let n := b - a
    if n ≤ 12 then s.insertRange a b
    else if bad = 0 then s.heapRange a b
    else
      let (s, bad) := if balanced then (s, bad) else (s.scatter a b, bad - 1)
      let (p, hint) := s.pivot a b
      let (s, p, hint) := if hint = .decreasing then
          (s.reverseRange a b, (b - 1) - (p - a), .increasing)
        else (s, p, hint)
      let (s, sorted) := if balanced ∧ split ∧ hint = .increasing then mend a b 5 s (a + 1)
        else (s, false)
      if sorted then s
      -- The element before the range is an earlier pivot: not less than this one, it equals it.
      else if 0 < a ∧ !s.less (a - 1) p then
        let (s, mid) := s.partitionEqual a b p
        sortRange fuel s mid b bad balanced split
      else
        let (s, mid, split) := s.partition a b p
        -- The shorter part is sorted first.
        if mid - a < b - mid then
          sortRange fuel (sortRange fuel s a mid bad true true) (mid + 1) b bad
            (n / 8 ≤ mid - a) split
        else
          sortRange fuel (sortRange fuel s (mid + 1) b bad true true) a mid bad
            (n / 8 ≤ b - mid) split

end Bench

/-- The quicksort. It is not stable. -/
def quick (before : α → α → Bool) (xs : List α) : List α :=
  let n := xs.length
  (Bench.sortRange (n + 1) ⟨before, xs.toArray⟩ 0 n (Nat.log2 n + 1) true true).items.toList

end TapeForge.Sorting
