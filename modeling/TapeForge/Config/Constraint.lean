import TapeForge.Text.Decimal
import TapeForge.Text.Utf8

/-!
# Constraints

A document and a schema say the same sort of thing: which values are meant. A plain value means
itself alone, a kind all values of that kind, a structure those that have its fields. Two
constraints are joined by what satisfies both; where nothing does, they contradict each other.
-/

namespace TapeForge.Config

/-- A plain value. A decimal fraction is a mantissa and a power of ten. -/
inductive Atom where
  | null
  | bool (b : Bool)
  | int (n : Int)
  | fraction (mantissa exponent : Int)
  | text (s : Bytes)
  deriving Repr, DecidableEq, Inhabited

/-- A decimal fraction without zeros at the end of its mantissa. -/
def Atom.ofFraction (mantissa exponent : Int) : Atom :=
  let zeros := ((Nat.toDigits 10 mantissa.natAbs).reverse.takeWhile (· = '0')).length
  if mantissa = 0 then fraction 0 0
  else fraction (Int.tdiv mantissa (Int.pow 10 zeros)) (exponent + zeros)

/-- A number as a mantissa and a power of ten. -/
def Atom.number? : Atom → Option (Int × Int)
  | int n => some (n, 0)
  | fraction m e => some (m, e)
  | _ => none

/-- A kind of plain values; `any` is the kind of all values. -/
inductive Kind where
  | any
  | null
  | bool
  | int
  | fraction
  | number
  | text
  | bytes
  deriving Repr, DecidableEq

namespace Kind

def ofAtom : Atom → Kind
  | .null => null
  | .bool _ => bool
  | .int _ => int
  | .fraction .. => fraction
  | .text _ => text

/-- What is of two kinds; none if nothing is. -/
def meet? : Kind → Kind → Option Kind
  | any, k => some k
  | k, any => some k
  | number, int => some int
  | int, number => some int
  | number, fraction => some fraction
  | fraction, number => some fraction
  | j, k => if j = k then some j else none

end Kind

inductive Bound where
  | above
  | atLeast
  | below
  | atMost
  | different
  deriving Repr, DecidableEq

def magnitude (x : Int × Int) : Int := (Nat.toDigits 10 x.1.natAbs).length + x.2

/-- The order of two numbers. Their signs and magnitudes are looked at first, so that no power is
larger than the mantissas ask for. -/
def compareNumbers (a b : Int × Int) : Ordering :=
  let aligned :=
    let e := min a.2 b.2
    compare (a.1 * Int.pow 10 (a.2 - e).toNat) (b.1 * Int.pow 10 (b.2 - e).toNat)
  if a.1.sign ≠ b.1.sign then compare a.1.sign b.1.sign
  else if a.1 = 0 then .eq
  else
    match compare (magnitude a) (magnitude b) with
    | .eq => aligned
    | o => if 0 < a.1 then o else o.swap

/-- The order of two plain values, if they have one. -/
def Atom.order? : Atom → Atom → Option Ordering
  | .text s, .text t => some (Bytes.compare s t)
  | a, b => do return compareNumbers (← a.number?) (← b.number?)

namespace Bound

def admits : Bound → Ordering → Bool
  | above, o => o == .gt
  | atLeast, o => o != .lt
  | below, o => o == .lt
  | atMost, o => o != .gt
  | different, o => o != .eq

def holds (b : Bound) (limit v : Atom) : Bool :=
  match v.order? limit with
  | some o => b.admits o
  | none => b = .different && v ≠ limit

/-- The kind of values that a bound speaks of. -/
def kind (b : Bound) (limit : Atom) : Kind :=
  match Kind.ofAtom limit with
  | .int | .fraction => .number
  | .null => if b = .different then .any else .null
  | k => k

end Bound

/-- The largest integer that is not above a number. -/
def floorOf (x : Int × Int) : Int :=
  if 0 ≤ x.2 then x.1 * Int.pow 10 x.2.toNat else Int.fdiv x.1 (Int.pow 10 (-x.2).toNat)

/-- The least integer that is not below a number. -/
def ceilingOf (x : Int × Int) : Int := -floorOf (-x.1, x.2)

/-- The least integer that a lower bound admits, or the largest that an upper one does. -/
def Bound.extreme (b : Bound) (limit : Int × Int) : Int :=
  match b with
  | above => floorOf limit + 1
  | atLeast => ceilingOf limit
  | below => ceilingOf limit - 1
  | _ => floorOf limit

/-- Whether a lower and an upper bound leave no value between them. -/
def contradict (k : Kind) (low high : Bound × Atom) : Bool :=
  match low.2.number?, high.2.number? with
  | some a, some b =>
    -- Between two integers there may be fractions, but none that counts.
    if k = .int then high.1.extreme b < low.1.extreme a
    else
      match compareNumbers a b with
      | .lt => false
      -- Equal limits leave that one value, if both of them admit it.
      | .eq => !(low.1 = .atLeast && high.1 = .atMost)
      | .gt => true
  | _, _ => false

/-- Whether some bounds on values of a kind contradict each other. -/
def Kind.hasNone (k : Kind) (bounds : List (Bound × Atom)) : Bool :=
  let low := bounds.filter fun (b, _) => b = .above || b = .atLeast
  let high := bounds.filter fun (b, _) => b = .below || b = .atMost
  low.any fun l => high.any fun h => contradict k l h

/-- The name of a field. A hidden one and a definition are no part of what a document shows. -/
inductive Label where
  | plain (s : Bytes)
  | hidden (s : Bytes)
  | definition (s : Bytes)
  deriving Repr, DecidableEq

/-- What a value has to satisfy. A list may have more elements than are named if there is something
that they have to satisfy. A field is optional if it need not be there, and an alternative may be a
default. -/
inductive Constraint where
  | never
  | atom (a : Atom)
  | kind (k : Kind) (bounds : List (Bound × Atom))
  | list (elems : List Constraint) (rest : Option Constraint)
  | fields (entries : List (Label × Bool × Constraint))
  | choice (alternatives : List (Bool × Constraint))

namespace Constraint

instance : Inhabited Constraint := ⟨never⟩

def any : Constraint := kind .any []

mutual

/-- A bound for the depth of a constraint. -/
def size : Constraint → Nat
  | list elems rest => 1 + sizeAll elems + sizeRest rest
  | fields entries => 1 + sizeEntries entries
  | choice alternatives => 1 + sizeChoices alternatives
  | _ => 1

def sizeAll : List Constraint → Nat
  | [] => 0
  | c :: cs => size c + sizeAll cs

def sizeRest : Option Constraint → Nat
  | none => 0
  | some c => size c

def sizeEntries : List (Label × Bool × Constraint) → Nat
  | [] => 0
  | (_, _, c) :: rest => size c + sizeEntries rest

def sizeChoices : List (Bool × Constraint) → Nat
  | [] => 0
  | (_, c) :: rest => size c + sizeChoices rest

end

mutual

/-- Whether a constraint contradicts itself somewhere. A field that need not be there does not
matter. -/
def isBad : Constraint → Bool
  | never => true
  | list elems _ => areBad elems
  | fields entries => haveBad entries
  | _ => false

/-- Whether one of some constraints contradicts itself. -/
def areBad : List Constraint → Bool
  | [] => false
  | c :: cs => isBad c || areBad cs

def haveBad : List (Label × Bool × Constraint) → Bool
  | [] => false
  | (_, optional, c) :: rest => (!optional && isBad c) || haveBad rest

end

/-- Alternatives without those that contradict themselves. -/
def ofChoices (alternatives : List (Bool × Constraint)) : Constraint :=
  match alternatives.filter fun (_, c) => !c.isBad with
  | [] => never
  | [(_, c)] => c
  | cs => choice cs

/-- A kind with bounds, unless nothing satisfies them. -/
def ofKind (k : Kind) (bounds : List (Bound × Atom)) : Constraint :=
  if k.hasNone bounds then never else kind k bounds

/-- A plain value of a kind within bounds. -/
def ofAtom (k : Kind) (bounds : List (Bound × Atom)) (a : Atom) : Constraint :=
  if (k.meet? (Kind.ofAtom a)) = some (Kind.ofAtom a) ∧ bounds.all fun (b, l) => b.holds l a then
    atom a
  else never

/-- The elements of two lists, joined by `join`. A list goes on as its rest says. -/
def joinElems (join : Constraint → Constraint → Constraint) (restA restB : Option Constraint) :
    List Constraint → List Constraint → Option (List Constraint)
  -- Where one list is shorter, its rest says what the other elements have to satisfy.
  | [], [] => some []
  | a :: as, b :: bs => (joinElems join restA restB as bs).map (join a b :: ·)
  | as, [] => restB.map fun r => as.map (join · r)
  | [], bs => restA.map fun r => bs.map (join r ·)

def joinEntry (join : Constraint → Constraint → Constraint) (label : Label) (optional : Bool)
    (c : Constraint) : List (Label × Bool × Constraint) → List (Label × Bool × Constraint)
  | [] => [(label, optional, c)]
  | (l, o, d) :: rest =>
    if l = label then (l, o && optional, join d c) :: rest
    else (l, o, d) :: joinEntry join label optional c rest

/-- What two constraints say together, down to a depth. -/
def joinTo : Nat → Constraint → Constraint → Constraint
  | 0, _, _ => never
  | depth + 1, a, b =>
    let join := joinTo depth
    match a, b with
    | never, _ => never
    | _, never => never
    | choice as, b => ofChoices (as.map fun (d, a) => (d, join a b))
    | a, choice bs => ofChoices (bs.map fun (d, b) => (d, join a b))
    | kind j as, kind k bs =>
      match j.meet? k with
      | some k => ofKind k (as ++ bs)
      | none => never
    | kind k bounds, atom a => ofAtom k bounds a
    | atom a, kind k bounds => ofAtom k bounds a
    | kind k _, c => if k = .any then c else never
    | c, kind k _ => if k = .any then c else never
    | atom a, atom b => if a = b then atom a else never
    | list as r, list bs s =>
      match joinElems join r s as bs with
      | some cs => list cs (do return join (← r) (← s))
      | none => never
    | fields as, fields bs => fields (bs.foldl (fun es (l, o, c) => joinEntry join l o c es) as)
    | _, _ => never

/-- What two constraints say together. -/
def join (a b : Constraint) : Constraint := joinTo (a.size + b.size) a b

/-- The one of some alternatives that is meant: the only one, or the only default. -/
def chosen? (alternatives : List (Bool × Constraint)) : Option Constraint :=
  match alternatives.filter Prod.fst, alternatives with
  | [(_, c)], _ => some c
  | _, [(_, c)] => some c
  | _, _ => none

end Constraint

end TapeForge.Config
