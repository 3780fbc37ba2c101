import TapeForge.Text.Utf8
import TapeForge.Text.Decimal

/-!
# Tokens of scripts

A script is read as tokens. Lines and indentation are tokens of their own, but not inside brackets.
-/

namespace TapeForge.Script

/-- A token. Keywords and punctuation are told by their text; `illegal` is a word that is kept for
later. -/
inductive Token where
  | illegal
  | newline
  | indent
  | outdent
  | eof
  | name (s : String)
  | int (n : Int)
  | float (x : Float)
  | text (s : Bytes)
  | bytes (s : Bytes)
  | keyword (s : String)
  | mark (s : String)
  deriving Inhabited

/-- A place in a script, counted from one. -/
structure Position where
  line : Nat := 1
  col : Nat := 1
  deriving Repr, DecidableEq, Inhabited

def Position.shift (p : Position) (n : Nat) : Position := ⟨p.line, p.col + n⟩

def Position.shown (file : String) (p : Position) : String :=
  file ++ ":" ++ Decimal.ofNat p.line ++ ":" ++ Decimal.ofNat p.col

structure Lexeme where
  token : Token
  pos : Position
  deriving Inhabited

/-- A script that is not well formed: where, and why. -/
structure Malformed where
  pos : Position
  why : String
  deriving Repr, DecidableEq

def Malformed.message (file : String) (e : Malformed) : String :=
  e.pos.shown file ++ ": " ++ e.why

/-- Why a script cannot be read: it is malformed, or the lines of a session ended before it did.
`later` are the lines of a session that were not needed. -/
inductive Unread where
  | malformed (why : Malformed) (later : List Bytes)
  | unfinished
  deriving Repr, DecidableEq

def Token.shown : Token → String
  | .illegal => "illegal token"
  | .newline => "newline"
  | .indent => "indent"
  | .outdent => "outdent"
  | .eof => "end of file"
  | .name _ => "identifier"
  | .int _ => "int literal"
  | .float _ => "float literal"
  | .text _ => "string literal"
  | .bytes _ => "bytes literal"
  | .keyword s => s
  | .mark s => "'" ++ s ++ "'"

def keywords : List String :=
  ["and", "break", "continue", "def", "elif", "else", "for", "if", "in", "lambda", "load", "not",
    "or", "pass", "return", "while"]

/-- Words that may not be names. -/
def reservedWords : List String :=
  ["as", "class", "del", "except", "finally", "from", "global", "import", "is", "nonlocal", "raise",
    "try", "with", "yield"]

def Token.isKeyword (t : Token) (s : String) : Bool :=
  match t with
  | .keyword k => k == s
  | _ => false

def Token.isMark (t : Token) (s : String) : Bool :=
  match t with
  | .mark m => m == s
  | _ => false

end TapeForge.Script
