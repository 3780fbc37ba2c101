import TapeForge.Command.Table
import TapeForge.Text.Blank
import TapeForge.Text.Decimal
import TapeForge.Text.Quoted

/-!
# Log lines

A log line is a level, a message and attributes, each as `key=value`. A text stands in quotes if it
is empty or if a reader could not tell where it ends. Groups put their names and a point before the
keys inside of them.
-/

namespace TapeForge.Log

/-- How much a message matters. -/
inductive Level where
  | debug
  | info
  | warn
  | error
  deriving Repr, DecidableEq, Inhabited

namespace Level

def all : List Level := [debug, info, warn, error]

def rank : Level → Nat
  | debug => 0
  | info => 1
  | warn => 2
  | error => 3

/-- The name of a level in lines. -/
def name : Level → String
  | debug => "DEBUG"
  | info => "INFO"
  | warn => "WARN"
  | error => "ERROR"

/-- The name of a level in commands. -/
def word : Level → String
  | debug => "debug"
  | info => "info"
  | warn => "warn"
  | error => "error"

def ofWord? (s : String) : Option Level := all.find? fun l => l.word = s

end Level

inductive Content where
  | nothing
  | bool (b : Bool)
  | int (n : Int)
  | text (s : Bytes)
  | words (ws : List Bytes)
  deriving Repr, DecidableEq

structure Attr where
  key : Bytes
  value : Content
  deriving Repr, DecidableEq

/-- The key of a value that was given none. -/
def badKey : Bytes := Bytes.ofString "!BADKEY"

/-- Attributes from keys and values in turn. A key is a text with a value after it. -/
def Attr.ofPairs : List Content → List Attr
  | [] => []
  | [v] => [⟨badKey, v⟩]
  | .text k :: v :: rest => ⟨k, v⟩ :: ofPairs rest
  | v :: w :: rest => ⟨badKey, v⟩ :: ofPairs (w :: rest)

/-- Whether a unit of a text asks for quotes. -/
def asksQuotes : Rune → Bool
  | .invalid _ => true
  | .char c =>
    let n := c.toNat
    if n < 128 then n < 32 || c = ' ' || c = '=' || c = '"'
    else n == 0xfffd || isBlankCode n || !isPrintable c

def needsQuotes (s : Bytes) : Bool := s.isEmpty || (Rune.decode s).any asksQuotes

def textOf (s : Bytes) : String := if needsQuotes s then Quoted.text s else s.toText

/-- A key in a line, with the names of the groups around it. -/
def keyOf (groups key : Bytes) : String :=
  if groups.isEmpty then textOf key
  else if needsQuotes groups || needsQuotes key then Quoted.text (groups ++ key)
  else (groups ++ key).toText

def Content.shown : Content → String
  | nothing => "<nil>"
  | bool b => if b then "true" else "false"
  | int n => Decimal.ofInt n
  | text s => textOf s
  | words ws => textOf ([91] ++ ([32] : Bytes).intercalate ws ++ [93])

def Attr.shown (groups : Bytes) (a : Attr) : String := keyOf groups a.key ++ "=" ++ a.value.shown

def Attr.isEmpty (a : Attr) : Bool := a.key.isEmpty && a.value = .nothing

def attrsShown (groups : Bytes) (attrs : List Attr) : List String :=
  (attrs.filter (!·.isEmpty)).map (Attr.shown groups)

/-- A logger: the groups it is in, and the attributes that all its lines have. -/
structure Logger where
  groups : Bytes := []
  attrs : List String := []
  deriving Repr, DecidableEq

namespace Logger

/-- A logger whose lines have more attributes. -/
def withAttrs (l : Logger) (attrs : List Attr) : Logger :=
  { l with attrs := l.attrs ++ attrsShown l.groups attrs }

/-- A logger inside of a group; a group without a name is none. -/
def inGroup (l : Logger) (name : Bytes) : Logger :=
  if name.isEmpty then l else { l with groups := l.groups ++ name ++ [46] }

def line (l : Logger) (level : Level) (message : Bytes) (attrs : List Attr) : String :=
  String.intercalate " "
    (["level=" ++ level.name, "msg=" ++ textOf message] ++ l.attrs ++ attrsShown l.groups attrs)

end Logger

def levelCommands {σ : Type} (set : Level → σ → σ) : List (Bytes × Command σ) :=
  Level.all.map fun l =>
    (Bytes.ofString ("-log-" ++ l.word),
      .mk (some ⟨[], fun _ s => (set l s, none)⟩) []
        (Bytes.ofString ("set log level to " ++ l.name)))

/-- The upper-case letter, digit or underscore that stands for a unit of a key in the journal. Two
letters outside of ASCII have an upper case in it. -/
def journalChar : Rune → Char
  | .invalid _ => '_'
  | .char c =>
    if c.isAlphanum then c.toUpper
    else if c.toNat = 0x131 then 'I'
    else if c.toNat = 0x17f then 'S'
    else '_'

def journalKey (key : Bytes) : String := String.ofList ((Rune.decode key).map journalChar)

end TapeForge.Log
