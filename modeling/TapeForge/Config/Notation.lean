import TapeForge.Config.Constraint
import TapeForge.Config.Token

/-!
# The notation of constraints

Documents and schemas are written alike. A body has fields, and constraints that it joins; a field
may stand more than once, which says all of it together. `&` joins two constraints and `|` leaves a
choice, of which a star marks the default.
-/

namespace TapeForge.Config

/-- Reads something from the front of the tokens. -/
abbrev Parse := StateT (List Token) Option

namespace Parse

def peek : Parse (Option Token) := do return (← get).head?

def next : Parse Token := do
  match ← get with
  | t :: rest => set rest; return t
  | [] => failure

/-- Takes a mark if it is next. -/
def mark? (m : Mark) : Parse Bool := do
  if (← peek) = some (.mark m) then
    let _ ← next
    return true
  else return false

def mark (m : Mark) : Parse Unit := do if !(← mark? m) then failure

/-- Takes a comma, or the end of a line, if it is next. -/
def separator? : Parse Bool := do
  if (← peek) = some .lineEnd then
    let _ ← next
    return true
  else mark? .comma

end Parse

/-- The label that a name is. One underscore hides a field, and two are reserved. -/
def Label.ofName? (s : Bytes) : Option Label :=
  match s with
  | [95] => none
  | 95 :: 95 :: _ => none
  | 95 :: _ => some (.hidden s)
  | 35 :: _ => some (.definition s)
  | _ => some (.plain s)

def Label.ofToken? : Token → Option Label
  | .name s => Label.ofName? s
  | .text s => some (.plain s)
  | _ => none

def Constraint.between (low high : Int) : Constraint :=
  .ofKind .int [(.atLeast, .int low), (.atMost, .int high)]

def namedConstraints : List (String × Constraint) :=
  [("_", .any), ("true", .atom (.bool true)), ("false", .atom (.bool false)), ("null", .atom .null),
    ("bool", .kind .bool []), ("int", .kind .int []), ("float", .kind .fraction []),
    ("number", .kind .number []), ("string", .kind .text []), ("bytes", .kind .bytes []),
    ("uint", .kind .int [(.atLeast, .int 0)]), ("rune", .between 0 0x10ffff)] ++
  [8, 16, 32, 64, 128].flatMap fun (n : Nat) =>
    [("uint" ++ Decimal.ofNat n, .between 0 (Int.pow 2 n - 1)),
      ("int" ++ Decimal.ofNat n, .between (-(Int.pow 2 (n - 1))) (Int.pow 2 (n - 1) - 1))]

def Constraint.ofName? (s : Bytes) : Option Constraint :=
  (namedConstraints.find? fun (n, _) => Bytes.ofString n = s).map Prod.snd

namespace Constraint

def negate? : Constraint → Option Constraint
  | atom (.int n) => some (atom (.int (-n)))
  | atom (.fraction m e) => some (atom (.fraction (-m) e))
  | _ => none

def unsigned? : Constraint → Option Constraint
  | atom a => if a.number?.isSome then some (atom a) else none
  | _ => none

def invert? : Constraint → Option Constraint
  | atom (.bool b) => some (atom (.bool !b))
  | _ => none

/-- The values that a bound leaves. -/
def bounded? (b : Bound) : Constraint → Option Constraint
  | atom a => some (ofKind (b.kind a) [(b, a)])
  | _ => none

end Constraint

/-- What a mark before a constraint does to it. -/
def Mark.operator? : Mark → Option (Constraint → Option Constraint)
  | .minus => some Constraint.negate?
  | .plus => some Constraint.unsigned?
  | .not => some Constraint.invert?
  | .above => some (Constraint.bounded? .above)
  | .atLeast => some (Constraint.bounded? .atLeast)
  | .below => some (Constraint.bounded? .below)
  | .atMost => some (Constraint.bounded? .atMost)
  | .different => some (Constraint.bounded? .different)
  | _ => none

/-- What a body says: its fields, if it has any, and what it joins. -/
structure Body where
  entries : List (Label × Bool × Constraint) := []
  joined : List Constraint := []

namespace Body

def addField (b : Body) (label : Label) (optional : Bool) (c : Constraint) : Body :=
  { b with entries := Constraint.joinEntry Constraint.join label optional c b.entries }

/-- The constraint that a body is. One without fields that joins others is what they say. -/
def constraint (b : Body) : Constraint :=
  match b.entries, b.joined with
  | [], c :: cs => cs.foldl Constraint.join c
  | es, cs => cs.foldl Constraint.join (.fields es)

end Body

namespace Parse

/-- Takes the label of a field, and its colon, if that is next. A question mark or an exclamation
mark says that the field need not be there. -/
def label? : Parse (Option (Label × Bool)) := do
  let take := fun (t : Token) (optional : Bool) (rest : List Token) =>
    match Label.ofToken? t with
    | some l => do set rest; return some (l, optional)
    | none => failure
  match ← get with
  | t :: .mark .colon :: rest => take t false rest
  | t :: .mark .question :: .mark .colon :: rest => take t true rest
  | t :: .mark .not :: .mark .colon :: rest => take t true rest
  | _ => return none

mutual

/-- A choice of constraints. Only an alternative can be a default. -/
def choice : Nat → Parse Constraint
  | 0 => failure
  | fuel + 1 => do
    match ← alternatives fuel with
    | [(false, c)] => return c
    -- A star needs a bar: nothing is chosen where there is one thing.
    | [(true, _)] => failure
    | cs => return .ofChoices cs

def alternatives : Nat → Parse (List (Bool × Constraint))
  | 0 => failure
  | fuel + 1 => do
    let isDefault ← mark? .star
    let c ← joined fuel
    if ← mark? .either then return (isDefault, c) :: (← alternatives fuel)
    else return [(isDefault, c)]

def joined : Nat → Parse Constraint
  | 0 => failure
  | fuel + 1 => do
    let c ← single fuel
    if ← mark? .both then return c.join (← joined fuel) else return c

/-- A constraint with the marks before it. -/
def single : Nat → Parse Constraint
  | 0 => failure
  | fuel + 1 => do
    match ← next with
    | .text s => return .atom (.text s)
    | .int n => return .atom (.int n)
    | .fraction m e => return .atom (.ofFraction m e)
    | .name s => liftM (Constraint.ofName? s)
    | .mark .openParen =>
      let c ← choice fuel
      mark .closeParen
      return c
    | .mark .openBracket =>
      let (elems, rest) ← elements fuel
      return .list elems rest
    | .mark .openBrace =>
      let b ← body fuel {}
      mark .closeBrace
      return b.constraint
    | .mark m =>
      match m.operator? with
      | some f => do
        let c ← single fuel
        liftM (f c)
      | none => failure
    | _ => failure

/-- The elements of a list, to its closing bracket, and what more of them have to satisfy. -/
def elements : Nat → Parse (List Constraint × Option Constraint)
  | 0 => failure
  | fuel + 1 => do
    if ← mark? .closeBracket then return ([], none)
    else if ← mark? .ellipsis then
      let rest ← match ← peek with
        | some (.mark .closeBracket) | some (.mark .comma) | some .lineEnd => pure Constraint.any
        | _ => choice fuel
      let _ ← separator?
      mark .closeBracket
      return ([], some rest)
    else
      let c ← choice fuel
      if ← separator? then
        let (elems, rest) ← elements fuel
        return (c :: elems, rest)
      else
        mark .closeBracket
        return ([c], none)

/-- The value after a label. Another label may follow there, which stands for a structure of one
field. -/
def value : Nat → Parse Constraint
  | 0 => failure
  | fuel + 1 => do
    match ← label? with
    | some (l, optional) => return .fields [(l, optional, ← value fuel)]
    | none => choice fuel

/-- A body, up to its closing brace or the end. -/
def body : Nat → Body → Parse Body
  | 0, _ => failure
  | fuel + 1, b => do
    match ← peek with
    | none => return b
    | some (.mark .closeBrace) => return b
    | some _ =>
      let b ← match ← label? with
        | some (l, optional) => do pure (b.addField l optional (← value fuel))
        | none => do
          let c ← choice fuel
          pure { b with joined := b.joined ++ [c] }
      if ← separator? then body fuel b else return b

end

/-- Takes the clause that names the package of a document, if it has one; one that imports others is
refused. -/
def preamble : Parse Unit := do
  match ← get with
  | .name s :: rest =>
    if s = Bytes.ofString "package" then
      match rest with
      | .name _ :: .lineEnd :: rest => set rest
      | .name _ :: .mark .comma :: rest => set rest
      | _ => failure
    else if s = Bytes.ofString "import" then failure
    else return ()
  | _ => return ()

def document (fuel : Nat) : Parse Constraint := do
  preamble
  return (← body fuel {}).constraint

end Parse

/-- The constraint that a text writes; none if the text is not well formed. -/
def Constraint.ofText? (bs : Bytes) : Option Constraint := do
  let ts ← Token.ofText? bs
  match (Parse.document (8 * ts.length + 8)).run ts with
  | some (c, []) => return c
  | _ => none

end TapeForge.Config
