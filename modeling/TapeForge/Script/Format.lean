import TapeForge.Number.Fixed
import TapeForge.Number.Notation
import TapeForge.Script.Compare

/-!
# Format strings

Values written into a text, at the conversions of a format or at its fields. A conversion is a
percent sign and a letter, with a key between them if the values are those of a dict; a field stands
in braces and names its value by position or by keyword.
-/

namespace TapeForge.Script

open Store

def misformat {α : Type} (e : FormatError) : Eval α := raise (.format e)

/-- A value as text: a string bare, all else as an expression would write it. -/
def bareText (v : Value) : Eval Bytes := do
  match v with
  | .text s => return s
  | v => return Bytes.ofString (← reprOf v)

def noInteger (v : Value) : String :=
  match v with
  | .float x => if x.isNaN then "float NaN to integer" else "float infinity to integer"
  | v => v.typeName ++ " to int"

def integerOf? : Value → Option Int
  | .int n => some n
  | .float x => wholePart? x
  | _ => none

def inBase (base : Nat) (n : Int) : String :=
  (if n < 0 then "-" else "") ++ String.ofList (Nat.toDigits base n.natAbs)

/-- A double in the notation of a letter. The letter `F` is no notation and stands for itself. -/
def floatText (c : Char) (x : Float) : String :=
  let upper := fun (s : String) => String.ofList (s.toList.map fun c => if c = 'e' then 'E' else c)
  if x.isNaN ∨ x.isInf ∨ c = 'g' then Double.text x
  else if c = 'G' then upper (Double.text x)
  else if c = 'e' then Fixed.exponential 6 x
  else if c = 'E' then upper (Fixed.exponential 6 x)
  else if c = 'f' then Fixed.positional 6 x
  else "%" ++ String.singleton c

def characterOf (v : Value) : Eval Bytes :=
  match v with
  | .int n =>
    if n < 0 ∨ 0x10ffff < n then misformat (.badCodePoint n)
    else return Bytes.ofChar (if n.toNat.isValidChar then Char.ofNat n.toNat else Char.ofNat 0xfffd)
  | .text s =>
    match Rune.decode s with
    | [r] => return Bytes.ofChar r.shown
    | _ => misformat .needsCharacter
  | v => misformat (.needsIntOrText v.typeName)

def convert (c : Char) (v : Value) : Eval Bytes := do
  if c = 's' then bareText v
  else if c = 'r' then return Bytes.ofString (← reprOf v)
  else if c = 'd' ∨ c = 'i' ∨ c = 'o' ∨ c = 'x' ∨ c = 'X' then
    match integerOf? v with
    | none => misformat (.needsInteger c ("cannot convert " ++ noInteger v))
    | some n =>
      let s := if c = 'o' then inBase 8 n
        else if c = 'x' then inBase 16 n
        else if c = 'X' then (inBase 16 n).toUpper
        else Decimal.ofInt n
      return Bytes.ofString s
  else if c = 'e' ∨ c = 'f' ∨ c = 'g' ∨ c = 'E' ∨ c = 'F' ∨ c = 'G' then
    match v with
    | .float x => return Bytes.ofString (floatText c x)
    | .int n => return Bytes.ofString (floatText c (Double.ofInt n))
    | v => misformat (.needsFloat c v.typeName)
  else if c = 'c' then characterOf v
  else if c = '%' then return [37]
  else misformat (.unknownConversion c)

/-- The value for the next conversion, and the format after its key. -/
def conversionValue (x : Value) (index : Nat) (form : Bytes) : Eval (Value × Bytes) := do
  match form with
  | 40 :: rest =>
    match Bytes.cut 41 rest with
    | none => misformat .incompleteKey
    | some (key, rest) =>
      match x with
      | .dict ref =>
        match (← dictTable ref).get? (.text key) with
        | .ok (some (_, v)) => return (v, rest)
        | _ => misformat (.keyNotFound key)
      | _ => misformat .needsMapping
  | form =>
    match x with
    | .tuple elems =>
      match elems[index]? with
      | some v => return (v, form)
      | none => misformat .notEnough
    | x => if index = 0 then return (x, form) else misformat .notEnough

/-- Writes values at the conversions of a format; gives the number of them too. -/
def interpolateFrom (x : Value) : Nat → Nat → Bytes → Bytes → Eval (Bytes × Nat)
  | 0, index, _, acc => return (acc, index)
  | fuel + 1, index, form, acc =>
    match Bytes.cut 37 form with
    | none => return (acc ++ form, index)
    -- A double percent sign stands for one and takes no value.
    | some (before, 37 :: rest) => interpolateFrom x fuel index rest (acc ++ before ++ [37])
    | some (before, rest) => do
      let (v, rest) ← conversionValue x index rest
      match rest with
      | [] => misformat .incomplete
      | c :: rest =>
        let shown ← convert (Char.ofNat c.toNat) v
        interpolateFrom x fuel (index + 1) rest (acc ++ before ++ shown)

def interpolate (form : Bytes) (x : Value) : Eval Value := do
  let (s, used) ← interpolateFrom x (form.length + 1) 0 form []
  let (given, mapping) := match x with
    | .tuple elems => (elems.length, false)
    | .dict _ => (1, true)
    | _ => (1, false)
  if used < given ∧ ¬mapping then misformat .tooMany
  return .text s

/-- What a format with fields is given, and how its fields have been numbered so far. -/
structure Fields where
  args : List Value
  named : List (Bytes × Value)
  next : Nat := 0
  automatic : Bool := false
  manual : Bool := false

/-- The text outside of fields, in which a closing brace stands twice. -/
def unbrace : Nat → Bytes → Except FormatError Bytes
  | 0, _ => .ok []
  | fuel + 1, s =>
    match Bytes.cut 125 s with
    | none => .ok s
    | some (before, 125 :: rest) => do return before ++ [125] ++ (← unbrace fuel rest)
    | some _ => .error .loneBrace

def fieldParts (field : Bytes) : Bytes × Bytes × Bytes :=
  match Bytes.cut 33 field with
  | none =>
    match Bytes.cut 58 field with
    | none => (field, [115], [])
    | some (name, spec) => (name, [115], spec)
  | some (name, rest) =>
    match Bytes.cut 58 rest with
    | none => (name, rest, [])
    | some (conversion, spec) => (name, conversion, spec)

/-- The position that a name is, if it is made of digits and not too large. -/
def positionOf? (name : Bytes) : Option Nat :=
  match digitsValue? 10 name with
  | some n => if n < 0x8000000000000000 then some n else none
  | none => none

def fieldValue (f : Fields) (name : Bytes) : Except FormatError (Value × Fields) :=
  if name.isEmpty then
    if f.manual then .error .manualToAutomatic
    else
      match f.args[f.next]? with
      | some v => .ok (v, { f with next := f.next + 1, automatic := true })
      | none => .error .outOfRange
  else
    match positionOf? name with
    | some n =>
      if f.automatic then .error .automaticToManual
      else
        match f.args[n]? with
        | some v => .ok (v, { f with manual := true })
        | none => .error .outOfRange
    | none =>
      match f.named.lookup name with
      | some v => .ok (v, f)
      | none =>
        if name.contains 46 then .error (.dotted name)
        else if name.contains 91 then .error (.indexed name)
        else if name.contains 123 then .error .nested
        else .error (.keywordNotFound name)

def formatted {α : Type} (r : Except FormatError α) : Eval α :=
  match r with
  | .ok a => return a
  | .error e => misformat e

def showField (v : Value) (conversion spec : Bytes) : Eval Bytes := do
  if !spec.isEmpty then misformat (.spec spec)
  if conversion = [115] then bareText v
  else if conversion = [114] then return Bytes.ofString (← reprOf v)
  else misformat (.unknownField conversion)

def formatFrom : Nat → Fields → Bytes → Bytes → Eval Bytes
  | 0, _, _, acc => return acc
  | fuel + 1, f, form, acc =>
    match Bytes.cut 123 form with
    | none => do return acc ++ (← formatted (unbrace (form.length + 1) form))
    | some (before, rest) => do
      let acc := acc ++ (← formatted (unbrace (before.length + 1) before))
      match rest with
      | 123 :: rest => formatFrom fuel f rest (acc ++ [123])
      | rest =>
        match Bytes.cut 125 rest with
        | none => misformat .unmatchedBrace
        | some (field, rest) =>
          let (name, conversion, spec) := fieldParts field
          let (v, f) ← formatted (fieldValue f name)
          formatFrom fuel f rest (acc ++ (← showField v conversion spec))

def format (form : Bytes) (args : List Value) (named : List (Bytes × Value)) : Eval Value := do
  return .text (← formatFrom (form.length + 1) ⟨args, named, 0, false, false⟩ form [])

end TapeForge.Script
