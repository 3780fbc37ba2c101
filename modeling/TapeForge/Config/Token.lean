import TapeForge.Number.Notation
import TapeForge.Text.Letter

/-!
# Tokens of configuration documents

Documents, schemas and paths are written with the same tokens. A line that ends after a name, a
literal or a closing bracket ends with a comma, unless the next thing is a comma or a colon; `//`
starts a comment.
-/

namespace TapeForge.Config

inductive Mark where
  | openBrace
  | closeBrace
  | openBracket
  | closeBracket
  | openParen
  | closeParen
  | colon
  | comma
  | question
  | both
  | either
  | above
  | atLeast
  | below
  | atMost
  | different
  | minus
  | plus
  | star
  | not
  | point
  | ellipsis
  deriving Repr, DecidableEq

/-- A token. A decimal fraction is a mantissa and a power of ten; `lineEnd` is the comma that a line
ends with. -/
inductive Token where
  | name (s : Bytes)
  | text (s : Bytes)
  | int (n : Nat)
  | fraction (mantissa : Nat) (exponent : Int)
  | bottom
  | mark (m : Mark)
  | lineEnd
  deriving Repr, DecidableEq

namespace Token

/-- Whether a line that ends after a token ends with a comma. -/
def endsLine : Token → Bool
  | mark m => m = .closeBrace || m = .closeBracket || m = .closeParen || m = .question ||
      m = .ellipsis
  | lineEnd => false
  | _ => true

def bytesOf (cs : List Char) : Bytes := cs.flatMap Bytes.ofChar

def isNameLetter (c : Char) : Bool := if c.toNat < 128 then c.isAlpha else isLetter c

def isNameChar (c : Char) : Bool :=
  isNameLetter c || c = '_' || c = '$' ||
    (if c.toNat < 128 then c.isDigit else isDecimalDigit c)

def startsName (c : Char) : Bool := isNameLetter c || c = '_' || c = '$' || c = '#'

/-- The name at the front, and what follows. A hash may stand before it, and an underscore before
that. -/
def takeName (cs : List Char) : List Char × List Char :=
  let (lead, rest) := match cs with
    | '_' :: '#' :: rest => (['_', '#'], rest)
    | '#' :: rest => (['#'], rest)
    | cs => ([], cs)
  let (body, rest) := match lead, rest with
    | _ :: _, c :: _ => if c.isDigit then ([], rest) else rest.span isNameChar
    | _, rest => rest.span isNameChar
  (lead ++ body, rest)

def mark? (c : Char) : Option Mark :=
  match c with
  | '\x7b' => some .openBrace
  | '\x7d' => some .closeBrace
  | '[' => some .openBracket
  | ']' => some .closeBracket
  | '(' => some .openParen
  | ')' => some .closeParen
  | ':' => some .colon
  | ',' => some .comma
  | '?' => some .question
  | '&' => some .both
  | '|' => some .either
  | '>' => some .above
  | '<' => some .below
  | '-' => some .minus
  | '+' => some .plus
  | '*' => some .star
  | '!' => some .not
  | '.' => some .point
  | _ => none

def takeMark? : List Char → Option (Mark × List Char)
  | '>' :: '=' :: rest => some (.atLeast, rest)
  | '<' :: '=' :: rest => some (.atMost, rest)
  | '!' :: '=' :: rest => some (.different, rest)
  | '.' :: '.' :: '.' :: rest => some (.ellipsis, rest)
  | c :: rest => (mark? c).map fun m => (m, rest)
  | [] => none

/-- The value of hexadecimal digits at the front, and what follows. -/
def takeHex? (n : Nat) (cs : List Char) : Option (Nat × List Char) := do
  if cs.length < n then none
  else
    let v ← digitsValue? 16 (bytesOf (cs.take n))
    return (v, cs.drop n)

/-- The character of an escape with four digits, and what follows it. A character outside of the
first plane is written as two surrogates. -/
def takeUnit? (cs : List Char) : Option (Char × List Char) := do
  let (v, rest) ← takeHex? 4 cs
  if v.isValidChar then return (Char.ofNat v, rest)
  else
    match rest with
    | '\\' :: 'u' :: rest => do
      let (w, rest) ← takeHex? 4 rest
      if 0xd800 ≤ v ∧ v < 0xdc00 ∧ 0xdc00 ≤ w ∧ w < 0xe000 then
        return (Char.ofNat (0x10000 + (v - 0xd800) * 1024 + (w - 0xdc00)), rest)
      else none
    | _ => none

def escape? : List Char → Option (Char × List Char)
  | 'a' :: rest => some ('\x07', rest)
  | 'b' :: rest => some ('\x08', rest)
  | 'f' :: rest => some ('\x0c', rest)
  | 'n' :: rest => some ('\n', rest)
  | 'r' :: rest => some ('\r', rest)
  | 't' :: rest => some ('\t', rest)
  | 'v' :: rest => some ('\x0b', rest)
  | '\\' :: rest => some ('\\', rest)
  | '"' :: rest => some ('"', rest)
  | '/' :: rest => some ('/', rest)
  | 'u' :: rest => takeUnit? rest
  | 'U' :: rest => do
    let (v, rest) ← takeHex? 8 rest
    if v.isValidChar then return (Char.ofNat v, rest) else none
  | _ => none

/-- The content of a string after its opening quote, and what follows its closing one. -/
def takeText? : Nat → List Char → Option (List Char × List Char)
  | 0, _ => none
  | _ + 1, [] => none
  | fuel + 1, c :: rest =>
    if c = '"' then some ([], rest)
    else if c = '\n' ∨ c = '\r' then none
    else if c = '\\' then do
      let (c, rest) ← escape? rest
      let (s, rest) ← takeText? fuel rest
      return (c :: s, rest)
    else do
      let (s, rest) ← takeText? fuel rest
      return (c :: s, rest)

/-- Whether a character is a digit of a base, as an underscore is. -/
def isDigitOf (base : Nat) (c : Char) : Bool :=
  c = '_' || (c.toNat < 128 && (digitValue? (Bytes.ofAscii c)).any (· < base))

/-- The digits at the front in a base, and what follows; none if an underscore stands before another
or at the end. -/
def takeDigits? (base : Nat) (cs : List Char) : Option (List Char × List Char) :=
  let (ds, rest) := cs.span (isDigitOf base)
  let doubled := (ds.zip ds.tail).any fun (a, b) => a = '_' && b = '_'
  if doubled || ds.getLast? = some '_' then none else some (ds.filter (· ≠ '_'), rest)

/-- The value of digits; that of none is zero. -/
def valueOf (base : Nat) (ds : List Char) : Nat := (digitsValue? base (bytesOf ds)).getD 0

def takeExponent? (cs : List Char) : Option (Option Int × List Char) :=
  match cs with
  | c :: rest =>
    if c = 'e' ∨ c = 'E' then do
      let (negative, rest) := match rest with
        | '-' :: rest => (true, rest)
        | '+' :: rest => (false, rest)
        | rest => (false, rest)
      let (ds, rest) ← takeDigits? 10 rest
      if ds.isEmpty then none
      else
        let n := valueOf 10 ds
        return (some (if negative then -(n : Int) else n), rest)
    else some (none, cs)
  | [] => some (none, cs)

/-- The factor at the front, if there is one, and what follows: a thousand or 1024 to some power. -/
def takeFactor? (cs : List Char) : Option (Nat × List Char) :=
  let power := fun (n : Nat) (rest : List Char) =>
    match rest with
    | 'i' :: rest => some (Nat.pow 1024 n, rest)
    | rest => some (Nat.pow 1000 n, rest)
  match cs with
  | 'K' :: rest => power 1 rest
  | 'M' :: rest => power 2 rest
  | 'G' :: rest => power 3 rest
  | 'T' :: rest => power 4 rest
  | 'P' :: rest => power 5 rest
  | _ => none

/-- The decimal number at the front, and what follows. A whole number has no leading zero. -/
def takeDecimal? (cs : List Char) : Option (Token × List Char) := do
  let zero := cs.head? = some '0'
  let (whole, rest) ← match cs with
    | '0' :: '_' :: _ => some (['0'], cs.drop 1)
    | cs => takeDigits? 10 cs
  let (point, places, rest) ← match rest with
    -- Two points are the start of an ellipsis and no part of the number.
    | '.' :: '.' :: _ => some (false, [], rest)
    | '.' :: more => (takeDigits? 10 more).map fun (ds, more) => (true, ds, more)
    | rest => some (false, [], rest)
  let mantissa := valueOf 10 (whole ++ places)
  match if zero && !point then none else takeFactor? rest with
  | some (factor, rest) =>
    let n := mantissa * factor
    let unit := Nat.pow 10 places.length
    -- A factor makes an integer of a fraction, or the number is refused.
    if n % unit = 0 then return (.int (n / unit), rest) else none
  | none =>
    let (e, rest) ← takeExponent? rest
    if point || e.isSome then return (.fraction mantissa (e.getD 0 - places.length), rest)
    else if zero && 1 < whole.length then none
    else return (.int mantissa, rest)

/-- The base that a letter after a zero marks. -/
def markedBase? : Char → Option Nat
  | 'x' | 'X' => some 16
  | 'o' => some 8
  | 'b' => some 2
  | _ => none

def takeNumber? (cs : List Char) : Option (Token × List Char) :=
  match cs with
  | '0' :: c :: rest =>
    match markedBase? c with
    | some base => do
      let (ds, rest) ← takeDigits? base rest
      if ds.isEmpty then none else return (Token.int (valueOf base ds), rest)
    | none => takeDecimal? cs
  | cs => takeDecimal? cs

def startsNumber : List Char → Bool
  | '.' :: c :: _ => c.isDigit
  | c :: _ => c.isDigit
  | [] => false

/-- The token at the front, and what follows. A string that starts with three quotes is none. -/
def take? (cs : List Char) : Option (Token × List Char) :=
  match cs with
  | [] => none
  | '"' :: '"' :: '"' :: _ => none
  | '_' :: '|' :: rest =>
    match rest with
    | '_' :: rest => some (bottom, rest)
    | _ => none
  | c :: rest =>
    if startsNumber cs then takeNumber? cs
    else if startsName c then
      let (s, rest) := takeName cs
      some (name (bytesOf s), rest)
    else if c = '"' then
      (takeText? (rest.length + 1) rest).map fun (s, rest) => (text (bytesOf s), rest)
    else (takeMark? cs).map fun (m, rest) => (mark m, rest)

/-- Whether a character is a blank or ends a line. -/
def isSpace (c : Char) : Bool := c = ' ' || c = '\t' || c = '\r' || c = '\n'

def ending (ends : Bool) : List Token := if ends then [lineEnd] else []

/-- All tokens. `ends` tells whether the last token ends a line; the fuel is the number of
characters. -/
def scan : Nat → Bool → List Char → Option (List Token)
  | 0, _, _ => none
  | _ + 1, ends, [] => some (ending ends)
  | fuel + 1, ends, c :: rest =>
    if c = '\n' then do
      let rest := rest.dropWhile isSpace
      -- The next line may go on with what this one started.
      let goesOn := rest.head? = some ',' || rest.head? = some ':'
      return ending (ends && !goesOn) ++ (← scan fuel false rest)
    else if isSpace c then scan fuel ends rest
    else if c = '/' ∧ rest.head? = some '/' then do
      return ending ends ++ (← scan fuel false (rest.dropWhile (· ≠ '\n')))
    else do
      let (t, rest) ← take? (c :: rest)
      return t :: (← scan fuel t.endsLine rest)

/-- The mark that may stand before a text to tell its encoding. -/
def byteOrderMark : Char := Char.ofNat 0xfeff

/-- The tokens of a text; none if it has something that is no token. -/
def ofText? (bs : Bytes) : Option (List Token) := do
  let cs ← if bs.isUtf8 then some ((Rune.decode bs).map Rune.shown) else none
  let cs := if cs.head? = some byteOrderMark then cs.drop 1 else cs
  if cs.any fun c => c.toNat = 0 || c = byteOrderMark then none
  else scan (cs.length + 1) false cs

end Token

end TapeForge.Config
