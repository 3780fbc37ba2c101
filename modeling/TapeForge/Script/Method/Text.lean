import TapeForge.Script.Method.Basic
import TapeForge.Text.Case
import TapeForge.Text.Letter
import TapeForge.Text.Search

/-!
# Methods of strings

Searching, splitting, trimming and changing the case of texts. Places are counted in bytes; case and
white space are those of characters, and a byte that is no character counts as the replacement
character.
-/

namespace TapeForge.Script.TextMethod

open Store

def chars (s : Bytes) : List Char := (Rune.decode s).map Rune.shown

def ofChars (cs : List Char) : Bytes := cs.flatMap Bytes.ofChar

/-- The text with its first character as in a title and all others in lower case. -/
def capitalize (s : Bytes) : Bytes :=
  match chars s with
  | [] => []
  | c :: cs => ofChars (titleCase c :: cs.map lowerCase)

/-- Every character after one without case as in a title, all others in lower case. -/
def titleFrom (afterCased : Bool) : List Char → List Char
  | [] => []
  | c :: cs =>
    let c := if afterCased then lowerCase c else titleCase c
    c :: titleFrom (isCased c) cs

/-- Whether capitals stand after characters without case and small letters after those with it.
`cased` tells whether one with case has been seen. -/
def isTitledFrom (cased afterCased : Bool) : List Char → Bool
  | [] => cased
  | c :: cs =>
    if ('A' ≤ c && c ≤ 'Z') || isTitleCase c then !afterCased && isTitledFrom true true cs
    else if isLowerCase c then afterCased && isTitledFrom true true cs
    else if isUpperCase c then false
    else isTitledFrom cased false cs

/-- Whether a text has characters, all of them of a class. -/
def allOf (p : Char → Bool) (s : Bytes) : Bool := !s.isEmpty && (chars s).all p

/-- Whether a text has a character with case, and mapping its characters leaves it as it is. -/
def isFixed (f : Char → Char) (s : Bytes) : Bool :=
  (chars s).any isCased && ofChars ((chars s).map f) == s

def test (p : Bytes → Bool) : Method Bytes := .ofOwner fun s => return .bool (p s)

def mapping (f : Bytes → Bytes) : Method Bytes := .ofOwner fun s => return .text (f s)

def viewing (v : View) : Method Bytes := .ofOwner fun s => return .view v s

/-- The part of a text that the second and third argument bound, and where it starts. -/
def partOf (name : String) (s : Bytes) (args : List Value) : Eval (Nat × Bytes) := do
  let (start, stop) ← naming name (forwardBounds (argAt args 1) (argAt args 2) s.length)
  return (start.toNat, (s.drop start.toNat).take (stop - start).toNat)

def count : Method Bytes := fun name s args named => do
  taking name (takeAtLeast 1 [.text, .any, .any] args named)
  let (_, part) ← partOf name s args
  return .int (Bytes.countOf (textArg args 0) part)

def find (last mustOccur : Bool) : Method Bytes := fun name s args named => do
  taking name (takeAtLeast 1 [.text, .any, .any] args named)
  let (start, part) ← partOf name s args
  let needle := textArg args 0
  match if last then Bytes.findLast? needle part else Bytes.find? needle part with
  | some i => return .int (start + i : Nat)
  | none => if mustOccur then refuse name "substring not found" else return .int (-1)

/-- Whether one of some texts passes a test; all of those before it have to be texts. -/
def anyText (holds : Bytes → Bool) : Nat → List Value → Eval Bool
  | _, [] => return false
  | i, .text s :: rest => if holds s then return true else anyText holds (i + 1) rest
  | i, v :: _ => raise (.wantTextFor v.typeName i)

def bounded (atEnd : Bool) : Method Bytes := fun name s args named => do
  taking name (takeAtLeast 1 [.any, .any, .any] args named)
  let (_, part) ← partOf name s args
  let holds := fun (x : Bytes) => if atEnd then x.isSuffixOf part else x.isPrefixOf part
  naming name do
    match argAt args 0 with
    | .text x => return .bool (holds x)
    | .tuple es => return .bool (← anyText holds 0 es)
    | v => raise (.wantType v.typeName "string or tuple of string")

def join : Method Bytes := fun name s args named => do
  taking name (takePositional [.iterable] args named)
  let parts ← forEach (argAt args 0) fun _ v =>
    match v with
    | .text x => return x
    | v => raise (.joinElement v.typeName)
  return .text (Bytes.join s parts)

def partition (last : Bool) : Method Bytes := fun name s args named => do
  taking name (takePositional [.text] args named)
  let sep := textArg args 0
  if sep.isEmpty then refuse name "empty separator"
  let parts := match if last then Bytes.findLast? sep s else Bytes.find? sep s with
    | some i => [s.take i, sep, s.drop (i + sep.length)]
    | none => if last then [[], [], s] else [s, [], []]
  return .tuple (parts.map .text)

def removing (atEnd : Bool) : Method Bytes := fun name s args named => do
  taking name (takePositional [.text] args named)
  let x := textArg args 0
  return .text (if atEnd then (if x.isSuffixOf s then s.take (s.length - x.length) else s)
    else (if x.isPrefixOf s then s.drop x.length else s))

def limitOf (n : Int) : Option Nat := if n < 0 then none else some n.toNat

def replace : Method Bytes := fun name s args named => do
  taking name (takeAtLeast 2 [.text, .text, .int] args named)
  return .text (Bytes.replace (textArg args 0) (textArg args 1) (limitOf (intArg args 2 (-1))) s)

/-- The parts of a text between white space, the limit counted from the left or right. -/
def fields (fromRight : Bool) (limit : Option Nat) (s : Bytes) : List Bytes :=
  let rs := Rune.decode s
  let parts := match fromRight, limit with
    | true, some n =>
      ((Rune.fields (s.length + 1) (some n) rs.reverse).map List.reverse).reverse
    | _, limit => Rune.fields (s.length + 1) limit rs
  parts.map Bytes.ofRunes

/-- The parts of a text between separators, the limit counted from the left or right. -/
def separated (fromRight : Bool) (sep : Bytes) (limit : Option Nat) (s : Bytes) : List Bytes :=
  match fromRight, limit with
  | true, some n =>
    let parts := Bytes.split sep none s
    let excess := parts.length - n
    if excess = 0 then parts else Bytes.join sep (parts.take excess) :: parts.drop excess
  | _, limit => Bytes.split sep limit s

/-- The parts of the text between a separator, or between white space. -/
def split (fromRight : Bool) : Method Bytes := fun name s args named => do
  taking name (takeAtLeast 0 [.any, .int] args named)
  let limit := limitOf (intArg args 1 (-1))
  match argAt args 0 with
  | .none =>
    if fromRight then roomFor ((limit.getD 0) + 1)
    newList ((fields fromRight limit s).map .text)
  | .text sep =>
    if sep.isEmpty then refuse "split" "empty separator"
    newList ((separated fromRight sep limit s).map .text)
  | v => raise (.separatorType v.typeName)

def splitLines : Method Bytes := fun name s args named => do
  taking name (takeAtLeast 0 [.bool] args named)
  let keep := match argAt args 0 with
    | .bool b => b
    | _ => false
  let parts := Bytes.split [10] none s
  let ended := parts.dropLast.map fun l => if keep then l ++ [10] else l
  let last := (parts.getLast?.toList).filter (!·.isEmpty)
  newList ((ended ++ last).map .text)

/-- The text without some characters, or white space, at its ends. -/
def strip (left right : Bool) : Method Bytes := fun name s args named => do
  taking name (takeAtLeast 0 [.text] args named)
  let cs := chars (textArg args 0)
  let goes := fun (r : Rune) => if cs.isEmpty then r.isBlank else cs.contains r.shown
  let rs := Rune.decode s
  let rs := if left then rs.dropWhile goes else rs
  return .text (Bytes.ofRunes (if right then Rune.dropEnd goes rs else rs))

def table : MethodTable Bytes :=
  [("capitalize", mapping capitalize),
    ("codepoint_ords", viewing .codepointOrds),
    ("codepoints", viewing .codepoints),
    ("count", count),
    ("elem_ords", viewing .elemOrds),
    ("elems", viewing .elems),
    ("endswith", bounded true),
    ("find", find false false),
    ("format", fun _ s args named => format s args named),
    ("index", find false true),
    ("isalnum", test (allOf fun c => isLetter c || isDecimalDigit c)),
    ("isalpha", test (allOf isLetter)),
    ("isdigit", test (allOf isDecimalDigit)),
    ("islower", test (isFixed lowerCase)),
    ("isspace", test (allOf fun c => isBlankCode c.toNat)),
    ("istitle", test fun s => isTitledFrom false false (chars s)),
    ("isupper", test (isFixed upperCase)),
    ("join", join),
    ("lower", mapping fun s => ofChars ((chars s).map lowerCase)),
    ("lstrip", strip true false),
    ("partition", partition false),
    ("removeprefix", removing false),
    ("removesuffix", removing true),
    ("replace", replace),
    ("rfind", find true false),
    ("rindex", find true true),
    ("rpartition", partition true),
    ("rsplit", split true),
    ("rstrip", strip false true),
    ("split", split false),
    ("splitlines", splitLines),
    ("startswith", bounded false),
    ("strip", strip true true),
    ("title", mapping fun s => ofChars (titleFrom false (chars s))),
    ("upper", mapping fun s => ofChars ((chars s).map upperCase))]

def bytesTable : MethodTable Bytes := [("elems", viewing .bytesElems)]

end TapeForge.Script.TextMethod
