import TapeForge.Script.Datum
import TapeForge.Script.Flatten
import TapeForge.Text.Spelling

/-!
# Arguments of builtins

A builtin takes its arguments by position, or by position and name. Too many positional arguments
are reported first, then each value in the order given, then names, then what is missing.
-/

namespace TapeForge.Script

inductive Misfit where
  | wrongType (got want : String)
  | outOfRange (n : Int)
  deriving Repr, DecidableEq

def Misfit.message : Misfit → String
  | .wrongType got want => "got " ++ got ++ ", want " ++ want
  | .outOfRange n => Decimal.ofInt n ++ " out of range (want value in signed 64-bit range)"

inductive NotByte where
  | text (s : Bytes)
  | number (n : Int)
  | type (name : String)
  deriving Repr, DecidableEq

def NotByte.message : NotByte → String
  | .text s => "want single byte string, got " ++ Quoted.text s
  | .number n => "byte out of range: " ++ Decimal.ofInt n
  | .type name => "want string or int, got " ++ name

inductive CallFault where
  | unexpectedKeywords
  | wrongCount (got : Nat) (bound : String) (want : Nat)
  | parameter (which : String) (why : Misfit)
  | repeated (name : Bytes)
  | unknownKeyword (name : Bytes) (hint : Option Bytes)
  | missing (name : String)
  | argument (index : Nat) (why : Misfit)
  | missingReference
  | missingLiteral
  | notByte (why : NotByte)
  | notOps (why : NotOps)
  | keyNotByte (why : NotByte)
  | caseNotOps (key : UInt8) (why : NotOps)
  | build (why : Op.BuildError)
  deriving Repr, DecidableEq

def CallFault.message : CallFault → String
  | .unexpectedKeywords => "unexpected keyword arguments"
  | .wrongCount got bound want =>
    "got " ++ Decimal.ofNat got ++ " arguments, want " ++ bound ++ Decimal.ofNat want
  | .parameter which why => "for parameter " ++ which ++ ": " ++ why.message
  | .repeated name => "got multiple values for keyword argument " ++ Quoted.text name
  | .unknownKeyword name hint =>
    "unexpected keyword argument " ++ Quoted.text name ++
      (match hint with
      | some h => " (did you mean " ++ h.toText ++ "?)"
      | none => "")
  | .missing name => "missing argument for " ++ name
  | .argument index why => "arg " ++ Decimal.ofNat index ++ ": " ++ why.message
  | .missingReference => "missing reference"
  | .missingLiteral => "missing literal"
  | .notByte why => why.message
  | .notOps why => why.message
  | .keyNotByte why => "key: " ++ why.message
  | .caseNotOps key why => "case " ++ Decimal.ofNat key.toNat ++ ": " ++ why.message
  | .build why => why.message

/-- A failed call: the builtin and the fault. -/
structure CallError where
  callee : String
  fault : CallFault
  deriving Repr, DecidableEq

def CallError.message (e : CallError) : String := e.callee ++ ": " ++ e.fault.message

inductive Kind where
  | int
  | text
  | bool
  | dict
  | callable
  | iterable
  | any
  deriving Repr, DecidableEq

def Kind.name : Kind → String
  | int => "int"
  | text => "string"
  | bool => "bool"
  | dict => "dict"
  | callable => "callable"
  | iterable => "iterable"
  | any => "any"

structure Parameter where
  name : String
  takes : Kind
  optional : Bool := false

/-- Values that a builtin can be passed: their type, the integer that one is, and the kinds it
has. -/
class Passable (α : Type) where
  typeName : α → String
  int? : α → Option Int
  fits : Kind → α → Bool

instance : Passable Datum where
  typeName := Datum.typeName
  int?
    | .int n => some n
    | _ => none
  fits
    | .int, .int _ => true
    | .text, .text _ => true
    | .bool, .bool _ => true
    | .dict, .dict _ => true
    | .any, _ => true
    | _, _ => false

section

variable {α : Type} [Passable α]

/-- A value as a 64-bit word. -/
def wordOf (v : α) : Except Misfit Int64 :=
  match Passable.int? v with
  | some n =>
    if -0x8000000000000000 ≤ n ∧ n < 0x8000000000000000 then .ok (Int64.ofInt n)
    else .error (.outOfRange n)
  | none => .error (.wrongType (Passable.typeName v) "int")

def Kind.check (k : Kind) (v : α) : Except Misfit Unit :=
  match k with
  | .int => (wordOf v).map fun _ => ()
  | k => if Passable.fits k v then .ok () else .error (.wrongType (Passable.typeName v) k.name)

/-- Checks values against the parameters they fall to, in order. -/
def checkPositions (params : List Kind) (args : List α) : Except CallFault Unit :=
  (params.zip args).zipIdx.forM fun ((k, v), i) =>
    (k.check v).mapError fun e => .parameter (Decimal.ofNat (i + 1)) e

/-- Takes parameters by position only; those after the first `least` may be left out. -/
def takeAtLeast (least : Nat) (params : List Kind) (args : List α) (named : List (Bytes × α)) :
    Except CallFault Unit :=
  let count := fun (bound : String) (want : Nat) =>
    CallFault.wrongCount args.length (if least < params.length then bound else "") want
  if !named.isEmpty then .error .unexpectedKeywords
  else if args.length < least then .error (count "at least " least)
  else if params.length < args.length then .error (count "at most " params.length)
  else checkPositions params args

/-- Takes exactly the given parameters, by position only. -/
def takePositional (params : List Kind) (args : List α) (named : List (Bytes × α)) :
    Except CallFault Unit :=
  takeAtLeast params.length params args named

/-- The values of the parameters so far; none where a parameter has not been given. -/
abbrev Slots (α : Type) := List (Parameter × Option α)

def fillPositions : List Parameter → List α → Except CallFault (Slots α)
  | p :: ps, v :: vs =>
    match p.takes.check v with
    | .error e => .error (.parameter p.name e)
    | .ok () =>
      match fillPositions ps vs with
      | .error e => .error e
      | .ok rest => .ok ((p, some v) :: rest)
  | ps, _ => .ok (ps.map fun p => (p, none))

/-- The names among which a hint for a misspelt keyword is looked for: those of the first half of
the parameters. -/
def hintNames (params : List Parameter) : List Bytes :=
  (params.take ((params.length + 1) / 2)).map fun p => Bytes.ofString p.name

def fillNamed (all : List Parameter) (name : Bytes) (v : α) :
    Slots α → Except CallFault (Slots α)
  | [] => .error (.unknownKeyword name (Spelling.nearest name (hintNames all)))
  | (p, w) :: rest =>
    -- A parameter that has its value by position cannot be given by name as well.
    if Bytes.ofString p.name = name then
      if w.isSome then .error (.repeated name)
      else
        match p.takes.check v with
        | .error e => .error (.parameter (Quoted.text name) e)
        | .ok () => .ok ((p, some v) :: rest)
    else
      match fillNamed all name v rest with
      | .error e => .error e
      | .ok rest => .ok ((p, w) :: rest)

/-- The first required parameter without a value. -/
def missing? : Slots α → Option String
  | [] => none
  -- Behind an optional parameter all are optional.
  | (p, v) :: rest => if p.optional then none else if v.isNone then some p.name else missing? rest

/-- Takes the given parameters by position and by name. The result has a value for each that was
given, in the order of the parameters. -/
def takeNamed (params : List Parameter) (args : List α) (named : List (Bytes × α)) :
    Except CallFault (List (Option α)) := do
  if params.length < args.length then
    throw (.wrongCount args.length "at most " params.length)
  let slots ← fillPositions params args
  let slots ← named.foldlM (fun s (k, v) => fillNamed params k v s) slots
  match missing? slots with
  | some name => throw (.missing name)
  | none => return slots.map Prod.snd

end

/-- A byte, given as a string of one byte or as its number. -/
def byteOf (d : Datum) : Except NotByte UInt8 :=
  match d with
  | .text [b] => .ok b
  | .text s => .error (.text s)
  | .int n => if 0 ≤ n ∧ n ≤ 255 then .ok (UInt8.ofNat n.toNat) else .error (.number n)
  | d => .error (.type d.typeName)

end TapeForge.Script
