import TapeForge.Script.Method.Text

/-!
# Functions of numbers

Conversions between numbers, texts and characters.
-/

namespace TapeForge.Script.Universe

/-- The only argument of a function that takes exactly one, by position. -/
def onlyArg (name want : String) (args : List Value) (named : List (Bytes × Value)) :
    Eval Value := do
  if !named.isEmpty then raise (.noKeywords name)
  match args with
  | [v] => return v
  | args => raise (.argumentCount name args.length want)

def abs : Native := fun _ name args named => do
  taking name (takePositional [.any] args named)
  match argAt args 0 with
  | .int n => return .int n.natAbs
  | .float x => return .float x.abs
  | v => raise (.wantType v.typeName "int or float")

/-- The character with a code point; a surrogate gives the replacement character. -/
def chr : Native := fun _ name args named => do
  let n ← naming name (smallInt (← onlyArg name "1" args named))
  if n < 0 then raise (.codePointBelowZero n)
  if 0x10ffff < n then raise (.codePointTooLarge n)
  let c := if n.toNat.isValidChar then Char.ofNat n.toNat else Char.ofNat 0xfffd
  return .text (Bytes.ofChar c)

/-- The code point of a string of one character, or the value of a byte string of one byte. -/
def ord : Native := fun _ name args named => do
  match ← onlyArg name "1" args named with
  | .text s =>
    match Rune.decode s with
    | [r] => return .int r.shown.toNat
    | rs => raise (.codePoints rs.length)
  | .bytes [b] => return .int b.toNat
  | .bytes s => raise (.byteCount s.length)
  | v => naming name (raise (.wantType v.typeName "string or bytes"))

/-- The number that a text is. NaN may have a sign. -/
def floatOfText (s : Bytes) : Eval Float := do
  if s.isEmpty then refuse "float" "empty string"
  if Bytes.lower (Notation.unsigned s).2 = Bytes.ofString "nan" then
    return Double.ofBits BinaryFormat.double.nanBits
  match Notation.float .double s with
  | .ok x => return x
  | .error .outOfRange => raise .floatTooLarge
  | .error .invalid => raise (.floatText s)

def float : Native := fun _ name args named => do
  if !named.isEmpty then raise (.noKeywords name)
  match args with
  | [] => return .float 0
  | [.bool b] => return .float (if b then 1 else 0)
  | [.int n] => return .float (← toFloat n)
  | [.float x] => return .float x
  | [.text s] => return .float (← floatOfText s)
  | [v] => raise (.floatType v.typeName)
  | args => raise (.floatCount args.length)

def hash : Native := fun _ name args named => do
  taking name (takePositional [.any] args named)
  match argAt args 0 with
  | .text s =>
    let step := fun (h : Int32) (c : Char) => 31 * h + Int32.ofNat c.toNat
    return .int ((TextMethod.chars s).foldl step 0).toInt
  | .bytes s => return .int (Key.hashBytes s).toNat
  | v => naming name (raise (.wantType v.typeName "string or bytes"))

/-- The value of a digit or letter in bases up to thirty-six. -/
def wideDigit? (b : UInt8) : Option Nat :=
  let b := Bytes.lowerByte b
  if isDigitByte b then some (b.toNat - 48)
  else if 97 ≤ b && b ≤ 122 then some (b.toNat - 87)
  else none

def wideDigits? (base : Nat) (s : Bytes) : Option Nat :=
  if s.isEmpty then none
  else s.foldlM (fun n b => do
    let d ← wideDigit? b
    if d < base then some (n * base + d) else none) 0

def markedBase? (b : UInt8) : Option Nat :=
  let b := Bytes.lowerByte b
  if b = 111 then some 8 else if b = 120 then some 16 else if b = 98 then some 2 else none

/-- The integer that a text without sign is. Base zero is that of the mark, or ten; without a mark a
leading zero then stands for zero only. -/
def magnitudeOf? (base : Nat) (s : Bytes) : Option Nat :=
  match s with
  | 48 :: b :: rest =>
    match if rest.isEmpty then none else markedBase? b with
    | some marked =>
      if base = 0 ∨ base = marked then wideDigits? marked rest else wideDigits? base s
    | none =>
      if base = 0 then (if (b :: rest).all (· = 48) then some 0 else none) else wideDigits? base s
  | s => wideDigits? (if base = 0 then 10 else base) s

def integerOfText? (base : Nat) (s : Bytes) : Option Int :=
  match s with
  | 43 :: rest => (magnitudeOf? base rest).map fun (n : Nat) => (n : Int)
  | 45 :: rest => (magnitudeOf? base rest).map fun (n : Nat) => -(n : Int)
  | s => (magnitudeOf? base s).map fun (n : Nat) => (n : Int)

/-- The base that a value is: zero, or from two to thirty-six. -/
def baseOf (v : Value) : Eval Nat := do
  match v with
  | .int n =>
    if n < -0x80000000 ∨ 0x80000000 ≤ n then raise (.intBase v.typeName)
    if n ≠ 0 ∧ (n < 2 ∨ 36 < n) then refuse "int" "base must be an integer >= 2 && <= 36"
    return n.toNat
  | v => raise (.intBase v.typeName)

def int : Native := fun _ name args named => do
  let given ← taking name (takeNamed [⟨"x", .any, false⟩, ⟨"base", .any, true⟩] args named)
  let base := (given[1]?).join
  match ((given[0]?).join).getD .none with
  | .text s =>
    let b ← match base with
      | some v => baseOf v
      | none => pure 10
    match integerOfText? b s with
    | some n => return .int n
    | none => raise (.intText b s)
  | x =>
    if base.isSome then refuse name "can't convert non-string with explicit base"
    match x with
    | .bool b => return .int (if b then 1 else 0)
    | x => return .int (← naming name (numberToInt x))

end TapeForge.Script.Universe
