import TapeForge.Number.Shortest
import TapeForge.Op.Basic

/-!
# Data

A datum is a script value as a finite tree, without identity: what a value prints as, what a builtin
is given, and what it returns.
-/

namespace TapeForge

/-- A way to go over the parts of a string or byte string: by bytes or by code points, as texts or
as numbers. -/
inductive View where
  | elems
  | elemOrds
  | codepoints
  | codepointOrds
  | bytesElems
  deriving Repr, DecidableEq, Inhabited

def View.typeName : View → String
  | elems | elemOrds => "string.elems"
  | codepoints | codepointOrds => "string.codepoints"
  | bytesElems => "bytes.elems"

def View.repr (v : View) (s : Bytes) : String :=
  match v with
  | elems => Quoted.text s ++ ".elems()"
  | elemOrds => Quoted.text s ++ ".elem_ords()"
  | codepoints => Quoted.text s ++ ".codepoints()"
  | codepointOrds => Quoted.text s ++ ".codepoint_ords()"
  | bytesElems => "b" ++ Quoted.text s ++ ".elems()"

/-- What can stand inside itself. -/
inductive Looping where
  | list
  | dict
  deriving Repr, DecidableEq, Inhabited

/-- A script value without identity. `again` stands for a list or dict inside itself. -/
inductive Datum where
  | none
  | bool (b : Bool)
  | int (n : Int)
  | float (x : Float)
  | text (s : Bytes)
  | bytes (s : Bytes)
  | list (elems : List Datum)
  | tuple (elems : List Datum)
  | dict (entries : List (Datum × Datum))
  | set (elems : List Datum)
  | range (start stop step : Int64)
  | view (v : View) (s : Bytes)
  | op (o : Op)
  | function (name : String)
  | builtin (name : String)
  | method (name owner : String)
  | again (what : Looping)
  deriving Inhabited

namespace Datum

def string (s : String) : Datum := .text (Bytes.ofString s)

def typeName : Datum → String
  | none => "NoneType"
  | bool _ => "bool"
  | int _ => "int"
  | float _ => "float"
  | text _ => "string"
  | bytes _ => "bytes"
  | list _ => "list"
  | tuple _ => "tuple"
  | dict _ => "dict"
  | set _ => "set"
  | range .. => "range"
  | view v _ => v.typeName
  | op _ => "op"
  | function _ => "function"
  | builtin _ => "builtin_function_or_method"
  | method .. => "builtin_function_or_method"
  | again .list => "list"
  | again .dict => "dict"

/-- The number of steps of a range, counted in 64 bits. It wraps, so that a range that is too long
can have fewer than none. -/
def rangeCount (start stop step : Int64) : Int64 :=
  if 0 < step then (if start < stop then (stop - 1 - start) / step + 1 else 0)
  else if step < 0 then (if stop < start then (start - 1 - stop) / (-step) + 1 else 0)
  else 0

def rangeLength (start stop step : Int64) : Nat := (rangeCount start stop step).toInt.toNat

/-- The text of a range: parts that have their usual value are left out. -/
def rangeText (start stop step : Int64) : String :=
  if step ≠ 1 then
    "range(" ++ Decimal.ofInt64 start ++ ", " ++ Decimal.ofInt64 stop ++ ", " ++
      Decimal.ofInt64 step ++ ")"
  else if start ≠ 0 then
    "range(" ++ Decimal.ofInt64 start ++ ", " ++ Decimal.ofInt64 stop ++ ")"
  else "range(" ++ Decimal.ofInt64 stop ++ ")"

/-- What a test of a datum gives: empty and zero values are false. -/
def truth : Datum → Bool
  | none => false
  | bool b => b
  | int n => n ≠ 0
  | float x => x != 0
  | text s => !s.isEmpty
  | bytes s => !s.isEmpty
  | list elems => !elems.isEmpty
  | tuple elems => !elems.isEmpty
  | dict entries => !entries.isEmpty
  | set elems => !elems.isEmpty
  | range start stop step => rangeLength start stop step ≠ 0
  | _ => true

mutual

def repr : Datum → String
  | none => "None"
  | bool b => if b then "True" else "False"
  | int n => Decimal.ofInt n
  | float x => Double.text x
  | text s => Quoted.text s
  | bytes s => "b" ++ Quoted.text s
  | list elems => "[" ++ String.intercalate ", " (reprs elems) ++ "]"
  | tuple elems =>
    match elems with
    | [x] => "(" ++ repr x ++ ",)"
    | elems => "(" ++ String.intercalate ", " (reprs elems) ++ ")"
  | dict entries => "\x7b" ++ String.intercalate ", " (reprEntries entries) ++ "\x7d"
  | set elems => "set([" ++ String.intercalate ", " (reprs elems) ++ "])"
  | range start stop step => rangeText start stop step
  | view v s => v.repr s
  | op o => o.label
  | function name => "<function " ++ name ++ ">"
  | builtin name => "<built-in function " ++ name ++ ">"
  | method name owner => "<built-in method " ++ name ++ " of " ++ owner ++ " value>"
  | again .list => "[...]"
  | again .dict => "\x7b...\x7d"

def reprs : List Datum → List String
  | [] => []
  | d :: ds => repr d :: reprs ds

def reprEntries : List (Datum × Datum) → List String
  | [] => []
  | (k, v) :: rest => (repr k ++ ": " ++ repr v) :: reprEntries rest

end

/-- The text of a datum where strings stand without quotes. -/
def shown : Datum → Bytes
  | text s => s
  | bytes s => s
  | d => Bytes.ofString d.repr

end Datum

end TapeForge
