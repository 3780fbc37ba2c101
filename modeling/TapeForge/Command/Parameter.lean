import TapeForge.Number.Notation
import TapeForge.Text.Decimal
import TapeForge.Text.Quoted

/-!
# Parameters of commands

A command takes its arguments from the tokens that follow it. Each parameter has a type, which says
how a token is read; a pointer is a parameter that may be left out at the end.
-/

namespace TapeForge.Command

/-- The value of an argument. `other` is a value of a type that no token can be read as. -/
inductive Value where
  | bool (b : Bool)
  | int (n : Int)
  | uint (n : Nat)
  | float (x : Float)
  | text (s : Bytes)
  | other (kind : String)
  | pointer (target : Option Value)
  deriving Inhabited

/-- The type of a parameter. Integers have the width of a word unless they have one of their own. -/
inductive ParamType where
  | bool
  | text
  | int (bits : Option Nat)
  | uint (bits : Option Nat)
  | float (bits : Nat)
  | pointer (target : ParamType)
  | unsupported (name : String) (zero : Value)

namespace ParamType

/-- The width that follows the name of a type. -/
def widthText : Option Nat → String
  | some n => Decimal.ofNat n
  | none => ""

def name : ParamType → String
  | bool => "bool"
  | text => "string"
  | int bits => "int" ++ widthText bits
  | uint bits => "uint" ++ widthText bits
  | float bits => "float" ++ Decimal.ofNat bits
  | pointer t => "*" ++ t.name
  | unsupported name _ => name

def zero : ParamType → Value
  | bool => .bool false
  | text => .text []
  | int _ => .int 0
  | uint _ => .uint 0
  | float _ => .float 0
  | pointer _ => .pointer none
  | unsupported _ v => v

def isPointer : ParamType → Bool
  | pointer _ => true
  | _ => false

end ParamType

inductive NumberKind where
  | int
  | uint
  | float
  deriving Repr, DecidableEq

def NumberKind.name : NumberKind → String
  | int => "int"
  | uint => "unsigned int"
  | float => "float"

def NumberKind.reader : NumberKind → String
  | int => "strconv.ParseInt"
  | uint => "strconv.ParseUint"
  | float => "strconv.ParseFloat"

/-- Why an argument cannot be taken. `nestedPointer` is a pointer to a pointer, which can only be
left out. -/
inductive ArgFault where
  | nothing (wanted : ParamType)
  | number (token : Bytes) (kind : NumberKind) (why : NumberFault)
  | unsupported (type : ParamType)
  | nestedPointer

def ArgFault.message : ArgFault → String
  | nothing wanted => "expecting " ++ wanted.name ++ " argument, got nothing"
  | number token kind why =>
    "convert " ++ token.toText ++ " to " ++ kind.name ++ ": " ++ kind.reader ++ ": parsing " ++
      Quoted.text token ++ ": " ++ why.message
  | unsupported type => "unsupported type: " ++ type.name
  | nestedPointer => "pointer to a pointer"

/-- The words that mean yes. -/
def yesWords : List Bytes := ["true", "t", "yes", "y", "on", "1"].map Bytes.ofString

/-- Whether a text means yes. All that is not known means no. -/
def isYes (bs : Bytes) : Bool := yesWords.contains (Bytes.lower (Bytes.trim bs))

def floatFormat (bits : Nat) : BinaryFormat :=
  if bits = 32 then .single else .double

namespace ParamType

def read (token : Bytes) : ParamType → Except ArgFault Value
  | bool => .ok (.bool (isYes token))
  | text => .ok (.text token)
  | int bits => ((Notation.integer (bits.getD 64) token).mapError (.number token .int)).map .int
  | uint bits => ((Notation.natural (bits.getD 64) token).mapError (.number token .uint)).map .uint
  | float bits =>
    ((Notation.float (floatFormat bits) token).mapError (.number token .float)).map .float
  | pointer t =>
    match t.read token with
    | .error e => .error e
    -- The token is read first, so its own fault comes before that of the type.
    | .ok v => if t.isPointer then .error .nestedPointer else .ok (.pointer (some v))
  | unsupported name v => .error (.unsupported (.unsupported name v))

/-- The value of a parameter for which there is no token. -/
def absent : ParamType → Except ArgFault Value
  | pointer t => .ok (.pointer (some t.zero))
  | t => .error (.nothing t)

end ParamType

def takeArgs : List ParamType → List Bytes → Except ArgFault (List Value)
  | [], _ => .ok []
  | t :: ts, tokens =>
    match (match tokens with | [] => t.absent | token :: _ => t.read token) with
    | .error e => .error e
    | .ok v => (takeArgs ts tokens.tail).map (v :: ·)

/-- A thing that is offered as the function of a command: its parameters and the types of its
results, or a value that is no function. -/
inductive Candidate where
  | function (params : List ParamType) (results : List String)
  | value (type : String)

inductive Unfit where
  | notFunction
  | notError
  | manyResults
  deriving Repr, DecidableEq

def Unfit.message : Unfit → String
  | notFunction => "must be function"
  | notError => "must return error"
  | manyResults => "must return 0 or 1 value"

namespace Candidate

def type : Candidate → String
  | value t => t
  | function params results =>
    "func(" ++ String.intercalate ", " (params.map ParamType.name) ++ ")" ++
      (match results with
      | [] => ""
      | [r] => " " ++ r
      | rs => " (" ++ String.intercalate ", " rs ++ ")")

/-- Why a candidate cannot be the function of a command, if there is a reason. A function returns
nothing or an error. -/
def unfit? : Candidate → Option Unfit
  | value _ => some .notFunction
  | function _ [] => none
  | function _ [r] => if r = "error" then none else some .notError
  | function _ _ => some .manyResults

def refusal? (c : Candidate) : Option String := c.unfit?.map fun u => c.type ++ ": " ++ u.message

end Candidate

end TapeForge.Command
