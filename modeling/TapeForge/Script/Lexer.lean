import TapeForge.Script.Literal
import TapeForge.Script.Token
import TapeForge.Text.Letter
import TapeForge.Text.Quoted

/-!
# Reading tokens

The reader gives one token at a time, so that what stands after a fault is never read. At the start
of a line that is not blank, and not inside brackets, it compares the indentation with that of the
lines around. A script is one text, or the lines of a session, which are read when they are needed.
The character zero ends a script, but not inside a string; a carriage return, with or without a
newline after it, is a newline.
-/

namespace TapeForge.Script

/-- The reader: what is left of the text, the lines of a session that come later, where it is, the
open indentations, how many tokens of indentation are owed (fewer than none for those that close),
and the number of open brackets. `budget` is larger than the number of bytes to read. -/
structure Lexer where
  rest : Bytes
  later : Option (List Bytes) := none
  pos : Position := {}
  lineStart : Bool := true
  indents : List Nat := [0]
  owed : Int := 0
  depth : Nat := 0
  budget : Nat

namespace Lexer

def ofText (src : Bytes) : Lexer := { rest := src, budget := 2 * src.length + 16 }

/-- A reader of the lines of a session, each with its newline. -/
def ofLines (lines : List Bytes) : Lexer :=
  { rest := [], later := some lines, budget := 2 * lines.flatten.length + 16 }

def failAt {α : Type} (l : Lexer) (pos : Position) (why : String) : Except Unread α :=
  .error (.malformed ⟨pos, why⟩ (l.later.getD []))

/-- Makes sure that something is left, if there is more to read. -/
def fill (l : Lexer) : Except Unread Lexer :=
  match l.rest, l.later with
  | [], some [] => .error .unfinished
  | [], some (line :: lines) => .ok { l with rest := line, later := some lines }
  | _, _ => .ok l

/-- The next character; none at the end. -/
def peek? (l : Lexer) : Option Char :=
  match l.rest with
  | [] => none
  | b :: rest =>
    if b = 0 then none
    else if b = 13 then some '\n'
    else
      match Rune.decodeFirst? (b :: rest) with
      | some (c, _) => some c
      | none => some (Char.ofNat 0xfffd)

/-- Passes over bytes that each stand for a character of the present line. -/
def skip (l : Lexer) (n : Nat) : Lexer := { l with rest := l.rest.drop n, pos := l.pos.shift n }

def step? (l : Lexer) : Option (Char × Lexer) :=
  let newLine : Position := ⟨l.pos.line + 1, 1⟩
  match l.rest with
  | [] => none
  | 13 :: 10 :: rest => some ('\n', { l with rest, pos := newLine })
  | 13 :: rest => some ('\n', { l with rest, pos := newLine })
  | 10 :: rest => some ('\n', { l with rest, pos := newLine })
  | b :: rest =>
    match Rune.decodeFirst? (b :: rest) with
    | some (c, n) => some (c, { l with rest := (b :: rest).drop n, pos := l.pos.shift 1 })
    | none => some (Char.ofNat 0xfffd, { l with rest, pos := l.pos.shift 1 })

def skipChar (l : Lexer) : Lexer :=
  match l.step? with
  | some (_, l) => l
  | none => l

/-- The indentation of a line whose blanks start at column `col`, and the number of the blanks. A
tab is as wide as it takes to reach the next multiple of eight when every byte before it counts one.
-/
def indentation (col : Nat) : Nat → Nat → Bytes → Nat × Nat
  | width, n, 32 :: rest => indentation col (width + 1) (n + 1) rest
  | width, n, 9 :: rest => indentation col (width + (8 - (col - 1 + n) % 8)) (n + 1) rest
  | width, n, _ => (width, n)

/-- The indentations that are left when those deeper than `width` are closed, and the number of
those. -/
def closeDeeper (width : Nat) : List Nat → List Nat × Nat
  | [] => ([], 0)
  | i :: is =>
    if width < i then
      let (left, n) := closeDeeper width is
      (left, n + 1)
    else (i :: is, 0)

/-- Handles the start of a line; says whether the line is blank. -/
def startLine (l : Lexer) : Except Unread (Bool × Lexer) :=
  let (width, blanks) := indentation l.pos.col 0 0 l.rest
  let l := { l.skip blanks with lineStart := false }
  let blank := match l.peek? with
    | some c => c = '#' || c = '\n'
    -- At the end of the text a line is blank if it has blanks at all.
    | none => 0 < width
  let deepest := l.indents.headD 0
  if blank || l.depth ≠ 0 || width = deepest then .ok (blank, l)
  else if deepest < width then
    .ok (blank, { l with indents := width :: l.indents, owed := l.owed + 1 })
  else
    let (indents, n) := closeDeeper width l.indents
    if indents.headD 0 = width then .ok (blank, { l with indents, owed := l.owed - n })
    else l.failAt l.pos "unindent does not match any outer indentation level"

/-- A reader that owes tokens for all open indentations. -/
def closeAll (l : Lexer) : Lexer :=
  { l with owed := 1 - (l.indents.length : Int), indents := l.indents.drop (l.indents.length - 1) }

def isNameStart (c : Char) : Bool := c.isAlpha || c = '_' || isLetter c

def isNamePart (c : Char) : Bool := c.isDigit || isNameStart c

/-- The name at the start of a text: its characters, and its number of bytes. -/
def nameAt : Nat → Bytes → List Char × Nat
  | 0, _ => ([], 0)
  | fuel + 1, bs =>
    match Rune.decodeFirst? bs with
    | some (c, n) =>
      if isNamePart c then
        let (cs, size) := nameAt fuel (bs.drop n)
        (c :: cs, size + n)
      else ([], 0)
    | none => ([], 0)

def readName (l : Lexer) : Token × Lexer :=
  let (cs, size) := nameAt l.budget l.rest
  let s := String.ofList cs
  let token := if keywords.contains s then .keyword s
    else if reservedWords.contains s then .illegal
    else .name s
  (token, { l with rest := l.rest.drop size, pos := l.pos.shift cs.length })

/-- Reads the body of a string, from after its opening quotes through its closing ones. `quotes`
counts the quotes just before, and `body` holds the bytes so far, the last first. -/
def readBody (start : Position) (quote : Char) (long : Bool) :
    Nat → Nat → Bytes → Lexer → Except Unread (Bytes × Lexer)
  | 0, _, _, l => l.failAt start "unexpected EOF in string"
  | fuel + 1, quotes, body, l => do
    let l ← l.fill
    match l.step? with
    | none => l.failAt start "unexpected EOF in string"
    | some (c, l) =>
      let more := (Bytes.ofChar c).reverse ++ body
      if c = quote then
        if !long then return (body.reverse, l)
        -- The first two of the closing quotes were taken for parts of the body.
        else if quotes = 2 then return ((body.drop 2).reverse, l)
        else readBody start quote long fuel (quotes + 1) more l
      else if c = '\n' ∧ ¬long then l.failAt start "unexpected newline in string"
      else if c = '\\' then
        let l ← l.fill
        match l.step? with
        | none => l.failAt start "unexpected EOF in string"
        | some (d, l) => readBody start quote long fuel 0 ((Bytes.ofChar d).reverse ++ more) l
      else readBody start quote long fuel 0 more l

/-- Reads a string literal whose prefix takes `pre` bytes. -/
def readString (l : Lexer) (pre : Nat) (raw inBytes : Bool) : Except Unread (Token × Lexer) := do
  let start := l.pos
  let l := l.skip pre
  let quoted := l.pos
  match l.rest with
  | [] => l.failAt start "unexpected EOF in string"
  | q :: after =>
    let quote := Char.ofNat q.toNat
    let long := after.take 2 = [q, q]
    let (body, l) ← readBody start quote long l.budget 0 [] (l.skip (if long then 3 else 1))
    match unquote raw inBytes body with
    | .error e => l.failAt quoted e.message
    | .ok s => return (if inBytes then .bytes s else .text s, l)

/-- Reads an integer with a base prefix of two bytes. Only hexadecimal ones can have any size. -/
def readBased (l : Lexer) (base : Nat) (kind : String) : Except Unread (Token × Lexer) :=
  let ds := (l.rest.drop 2).takeWhile fun b =>
    match digitValue? b with
    | some v => decide (v < base)
    | none => false
  match digitsValue? base ds with
  | some n =>
    if base ≠ 16 ∧ 0x8000000000000000 ≤ n then l.failAt l.pos "invalid int literal"
    else .ok (.int n, l.skip (ds.length + 2))
  | none =>
    l.failAt (if base = 16 then l.pos else l.pos.shift 2) ("invalid " ++ kind ++ " literal")

/-- The number of bytes of an exponent, from its mark on. An error is the number of bytes up to
it. -/
def exponentLength (bs : Bytes) : Except Nat Nat :=
  match bs.drop 1 with
  | b :: rest =>
    let digits := fun (ds : Bytes) => (ds.takeWhile isDigitByte).length
    if b = 43 ∨ b = 45 then
      if digits rest = 0 then .error 2 else .ok (2 + digits rest)
    else .ok (1 + digits (b :: rest))
  | [] => .ok 1

/-- Reads a number with a point or an exponent, whose first `whole` bytes are digits. -/
def readFloat (l : Lexer) (whole : Nat) : Except Unread (Token × Lexer) :=
  let after := l.rest.drop whole
  let fraction := match after with
    | 46 :: more => 1 + (more.takeWhile isDigitByte).length
    | _ => 0
  let exponent := match after.drop fraction with
    | e :: more => if e = 101 ∨ e = 69 then exponentLength (e :: more) else .ok 0
    | [] => .ok 0
  match exponent with
  | .error n => l.failAt (l.pos.shift (whole + fraction + n)) "invalid float literal"
  | .ok n =>
    let size := whole + fraction + n
    match Notation.float .double (l.rest.take size) with
    | .ok x => .ok (.float x, l.skip size)
    | .error _ => l.failAt (l.pos.shift size) "invalid float literal"

def readDecimal (l : Lexer) : Except Unread (Token × Lexer) :=
  let digits := l.rest.takeWhile isDigitByte
  let isFloat := match l.rest.drop digits.length with
    | b :: _ => b = 46 || b = 101 || b = 69
    | [] => false
  if isFloat then l.readFloat digits.length
  else
    match digits with
    | 48 :: more =>
      -- Zero alone may have more digits than it needs.
      if more.all (· = 48) then .ok (.int 0, l.skip digits.length)
      else if more.all isOctalByte then
        l.failAt (l.pos.shift digits.length)
          ("obsolete form of octal literal; use 0o" ++ Bytes.toText more)
      else l.failAt l.pos "invalid int literal"
    | digits => .ok (.int ((digitsValue? 10 digits).getD 0), l.skip digits.length)

/-- Reads a number, or a point that starts none. -/
def readNumber (l : Lexer) : Except Unread (Token × Lexer) :=
  match l.rest with
  | 46 :: more =>
    if (more.head?).any isDigitByte then l.readFloat 0 else .ok (.mark ".", l.skip 1)
  | 48 :: b :: _ =>
    if b = 120 ∨ b = 88 then l.readBased 16 "hex"
    else if b = 111 ∨ b = 79 then l.readBased 8 "octal"
    else if b = 98 ∨ b = 66 then l.readBased 2 "binary"
    else l.readDecimal
  | _ => l.readDecimal

/-- The marks that are no brackets, the longest first. -/
def marks : List String :=
  ["//=", "<<=", ">>=", "**", "//", "<<", ">>", "==", "!=", "<=", ">=", "+=", "-=", "*=", "/=",
    "%=", "&=", "|=", "^=", "+", "-", "*", "/", "%", "&", "|", "^", "~", "<", ">", "=", ",", ";",
    ":"]

def readMark (l : Lexer) (c : Char) : Except Unread (Token × Lexer) :=
  match marks.find? (fun m => (Bytes.ofString m).isPrefixOf l.rest) with
  | some m => .ok (.mark m, l.skip m.length)
  | none => l.failAt l.pos ("unexpected input character " ++ Quoted.char c)

def isQuote (b : Option UInt8) : Bool := b = some 34 || b = some 39

def readToken (l : Lexer) (c : Char) : Except Unread (Token × Lexer) :=
  let next := (l.rest.drop 1).head?
  let third := (l.rest.drop 2).head?
  if c = '"' ∨ c = '\'' then l.readString 0 false false
  else if c = 'r' ∧ isQuote next then l.readString 1 true false
  else if c = 'b' ∧ isQuote next then l.readString 1 false true
  else if c = 'r' ∧ next = some 98 ∧ isQuote third then l.readString 2 true true
  else if isNameStart c then .ok l.readName
  else if c.isDigit ∨ c = '.' then l.readNumber
  else if c = '(' ∨ c = '[' ∨ c = '\x7b' then
    .ok (.mark (String.singleton c), { l.skip 1 with depth := l.depth + 1 })
  else if c = ')' ∨ c = ']' ∨ c = '\x7d' then
    if l.depth = 0 then l.failAt l.pos ("unexpected " ++ Quoted.char c)
    else .ok (.mark (String.singleton c), { l.skip 1 with depth := l.depth - 1 })
  else l.readMark c

def skipBlanks (l : Lexer) : Lexer :=
  let l := l.skip (l.rest.takeWhile fun b => b = 32 || b = 9).length
  if l.rest.head? = some 35 then
    let comment : Bytes := l.rest.takeWhile fun b => b ≠ 10 && b ≠ 13 && b ≠ 0
    { l with
      rest := l.rest.drop comment.length
      pos := l.pos.shift (Rune.decode comment).length }
  else l

/-- The next token. Blank lines, comments and newlines inside brackets are passed over; in a session
a blank line closes the open indentations and is a newline. -/
def scan : Nat → Lexer → Except Unread (Lexeme × Lexer)
  | 0, l => .ok (⟨.eof, l.pos⟩, l)
  | fuel + 1, l => do
    let l ← l.fill
    let atStart := l.lineStart
    let (blank, l) ← if atStart then l.startLine else pure (false, l)
    if l.owed < 0 then return (⟨.outdent, l.pos⟩, { l with owed := l.owed + 1 })
    if 0 < l.owed then return (⟨.indent, l.pos⟩, { l with owed := l.owed - 1 })
    let l := l.skipBlanks
    match l.peek? with
    | none =>
      if l.indents.length ≤ 1 then return (⟨.eof, l.pos⟩, l)
      -- The last line is ended first, and the blocks are closed when the reader comes back here.
      else if atStart then scan fuel l.closeAll
      else return (⟨.newline, l.pos⟩, { l with lineStart := true })
    | some '\n' =>
      let started := { l with lineStart := true }
      -- Blank lines mean something in a session only, where they end a block.
      if 0 < l.depth ∨ (blank ∧ l.later.isNone) then scan fuel started.skipChar
      else if blank ∧ 1 < l.indents.length then scan fuel started.closeAll
      else return (⟨.newline, l.pos⟩, started.skipChar)
    | some '\\' =>
      let l := l.skipChar
      if l.peek? = some '\n' then scan fuel l.skipChar
      else l.failAt l.pos "stray backslash in program"
    | some c =>
      let (token, after) ← l.readToken c
      return (⟨token, l.pos⟩, after)

def next (l : Lexer) : Except Unread (Lexeme × Lexer) := scan l.budget l

end Lexer

end TapeForge.Script
