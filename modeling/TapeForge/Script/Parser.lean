import TapeForge.Script.Lexer
import TapeForge.Script.Tree

/-!
# Reading script trees

Recursive descent, one token ahead of the tree. Every call is given fuel; a script of `n` bytes
never needs more than a fixed multiple of `n`.
-/

namespace TapeForge.Script

/-- The token that was read last, the place where it starts, and the reader after it. -/
structure Parser where
  lexer : Lexer
  token : Token
  pos : Position

abbrev Parse := StateT Parser (Except Unread)

def Parser.start (l : Lexer) : Except Unread Parser := do
  let (lexeme, l) ← l.next
  return ⟨l, lexeme.token, lexeme.pos⟩

namespace Parse

def token : Parse Token := do return (← get).token

/-- Passes over the present token and gives its place. -/
def advance : Parse Position := do
  let p ← get
  let next ← Parser.start p.lexer
  set next
  return p.pos

def failAt {α : Type} (pos : Position) (why : String) : Parse α := do
  (← get).lexer.failAt pos why

def fail {α : Type} (why : String) : Parse α := do failAt (← get).lexer.pos why

/-- The error that something else was expected here. -/
def expected {α : Type} (want : String) : Parse α := do
  fail ("got " ++ (← token).shown ++ ", want " ++ want)

/-- The error of a script that is deeper than its text can make it. -/
def tooDeep {α : Type} : Parse α := fail "nesting too deep"

def atMark (s : String) : Parse Bool := do return (← token).isMark s

def atKeyword (s : String) : Parse Bool := do return (← token).isKeyword s

def atEnd : Parse Bool := do return (← token) matches .eof

def mark (s : String) : Parse Position := do
  if ← atMark s then advance else expected (Token.mark s).shown

def keyword (s : String) : Parse Position := do
  if ← atKeyword s then advance else expected s

def identifier : Parse (String × Position) := do
  match ← token with
  | .name s => return (s, ← advance)
  | _ => fail "not an identifier"

def atListEnd : Parse Bool := do
  match ← token with
  | .eof | .newline => return true
  | .mark s => return s == "=" || s == "\x7d" || s == "]" || s == ")" || s == ";"
  | _ => return false

def atStatementEnd : Parse Bool := do
  match ← token with
  | .eof | .newline => return true
  | .mark s => return s == ";"
  | _ => return false

end Parse

open Parse

/-- The level of comparisons among the levels of binary operators, the loosest first. -/
def comparisonLevel : Nat := 3

def levels : Nat := 10

inductive Joint where
  | plain (op : BinaryOp)
  | both
  | either

/-- The operator of a token, and its level. `or` is level zero, `and` one, `not` two. -/
def joint? : Token → Option (Joint × Nat)
  | .keyword "or" => some (.either, 0)
  | .keyword "and" => some (.both, 1)
  | .keyword "in" => some (.plain .isIn, 3)
  | .keyword "not in" => some (.plain .notIn, 3)
  | .mark "==" => some (.plain .eq, 3)
  | .mark "!=" => some (.plain .ne, 3)
  | .mark "<" => some (.plain .lt, 3)
  | .mark ">" => some (.plain .gt, 3)
  | .mark "<=" => some (.plain .le, 3)
  | .mark ">=" => some (.plain .ge, 3)
  | .mark "|" => some (.plain .or, 4)
  | .mark "^" => some (.plain .xor, 5)
  | .mark "&" => some (.plain .and, 6)
  | .mark "<<" => some (.plain .shiftLeft, 7)
  | .mark ">>" => some (.plain .shiftRight, 7)
  | .mark "-" => some (.plain .sub, 8)
  | .mark "+" => some (.plain .add, 8)
  | .mark "*" => some (.plain .mul, 9)
  | .mark "%" => some (.plain .mod, 9)
  | .mark "/" => some (.plain .div, 9)
  | .mark "//" => some (.plain .floorDiv, 9)
  | _ => none

def Joint.mark : Joint → String
  | plain op => op.mark
  | both => "and"
  | either => "or"

def Joint.build (pos : Position) : Joint → Expr → Expr → Expr
  | plain .add, a, b => .add a b pos
  | plain op, a, b => .binary op a b pos
  | both, a, b => .both a b
  | either, a, b => .either a b

def augmentOf? : Token → Option BinaryOp
  | .mark "+=" => some .add
  | .mark "-=" => some .sub
  | .mark "*=" => some .mul
  | .mark "/=" => some .div
  | .mark "//=" => some .floorDiv
  | .mark "%=" => some .mod
  | .mark "&=" => some .and
  | .mark "|=" => some .or
  | .mark "^=" => some .xor
  | .mark "<<=" => some .shiftLeft
  | .mark ">>=" => some .shiftRight
  | _ => none

def signOf? : Token → Option UnaryOp
  | .mark "+" => some .plus
  | .mark "-" => some .minus
  | .mark "~" => some .invert
  | _ => none

def constOf? : Token → Option Const
  | .int n => some (.int n)
  | .float x => some (.float x)
  | .text s => some (.text s)
  | .bytes s => some (.bytes s)
  | _ => none

/-- Makes one operator of `not` and the `in` that must follow it. -/
def joinNotIn : Parse Unit := do
  if ← atKeyword "not" then
    let _ ← advance
    if ← atKeyword "in" then modify fun p => { p with token := .keyword "not in" }
    else expected "in"

mutual

/-- An expression without commas; a condition may be disallowed. -/
def test : Nat → Bool → Parse Expr
  | 0, _ => tooDeep
  | n + 1, allowCond => do
    if ← atKeyword "lambda" then lambda n allowCond
    else
      let x ← testPrec n 0
      if allowCond && (← atKeyword "if") then
        let pos ← advance
        let c ← testPrec n 0
        unless ← atKeyword "else" do failAt pos "conditional expression without else clause"
        let _ ← advance
        return .cond c x (← test n true)
      else return x

def lambda : Nat → Bool → Parse Expr
  | 0, _ => tooDeep
  | n + 1, allowCond => do
    let pos ← advance
    let params ← parameters n []
    let _ ← mark ":"
    return .lambda params (← test n allowCond) pos

def testPrec : Nat → Nat → Parse Expr
  | 0, _ => tooDeep
  | n + 1, level => do
    if levels ≤ level then primarySuffix n
    else if level = 2 ∧ (← atKeyword "not") = true then
      let pos ← advance
      return .unary .not (← testPrec n level) pos
    else
      let x ← testPrec n (level + 1)
      joints n level none x

/-- The operators of a level after their first operand; `last` is the one before. Comparisons do not
associate. -/
def joints : Nat → Nat → Option Joint → Expr → Parse Expr
  | 0, _, _, _ => tooDeep
  | n + 1, level, last, x => do
    joinNotIn
    match joint? (← token) with
    | none => return x
    | some (op, l) =>
      if l < level then return x
      else
        if l = comparisonLevel then
          -- Any operator before this one on the level was a comparison as well.
          if let some before := last then
            fail (before.mark ++ " does not associate with " ++ op.mark ++ " (use parens)")
        let pos ← advance
        let y ← testPrec n (l + 1)
        joints n level (some op) (op.build pos x y)

def primarySuffix : Nat → Parse Expr
  | 0 => tooDeep
  | n + 1 => do
    let x ← primary n
    suffixes n x

/-- What follows a primary expression: fields, indices and calls. -/
def suffixes : Nat → Expr → Parse Expr
  | 0, _ => tooDeep
  | n + 1, x => do
    match ← token with
    | .mark "." =>
      let pos ← advance
      let (name, _) ← identifier
      suffixes n (.attr x name pos)
    | .mark "[" =>
      let pos ← advance
      suffixes n (← subscript n x pos)
    | .mark "(" =>
      let pos ← advance
      let args ← arguments n []
      let _ ← mark ")"
      suffixes n (.call x args pos)
    | _ => return x

def subscript : Nat → Expr → Position → Parse Expr
  | 0, _, _ => tooDeep
  | n + 1, x, pos => do
    let low ← if ← atMark ":" then pure none else some <$> exprList n false
    -- Without a colon it is an index; a lone colon makes it a slice.
    match low, ← atMark "]" with
    | some i, true =>
      let _ ← advance
      return .index x i pos
    | _, _ =>
      let high ← if ← atMark ":" then
          let _ ← advance
          if (← atMark ":") || (← atMark "]") then pure none else some <$> test n true
        else pure none
      let step ← if ← atMark ":" then
          let _ ← advance
          if ← atMark "]" then pure none else some <$> test n true
        else pure none
      let _ ← mark "]"
      return .slice x low high step pos

def arguments : Nat → List (Arg Expr) → Parse (List (Arg Expr))
  | 0, _ => tooDeep
  | n + 1, acc => do
    if (← atMark ")") || (← atEnd) then return acc.reverse
    else
      unless acc.isEmpty do let _ ← mark ","
      match ← token with
      | .mark ")" => return acc.reverse
      | .mark "*" =>
        let pos ← advance
        arguments n (.spread (← test n true) pos :: acc)
      | .mark "**" =>
        let pos ← advance
        arguments n (.spreadNamed (← test n true) pos :: acc)
      | _ =>
        let x ← test n true
        if ← atMark "=" then
          match x with
          | .name s pos =>
            let _ ← advance
            arguments n (.named s (← test n true) pos :: acc)
          | _ => fail "keyword argument must have form name=expr"
        else arguments n (.positional x :: acc)

def parameters : Nat → List (Param Expr) → Parse (List (Param Expr))
  | 0, _ => tooDeep
  | n + 1, acc => do
    if (← atMark ")") || (← atMark ":") || (← atEnd) then return acc.reverse
    else
      unless acc.isEmpty do let _ ← mark ","
      match ← token with
      | .mark ")" => return acc.reverse
      | .mark "*" =>
        let pos ← advance
        match ← token with
        | .name s => parameters n (.rest s pos (← advance) :: acc)
        | _ => parameters n (.star pos :: acc)
      | .mark "**" =>
        let pos ← advance
        let (s, namePos) ← identifier
        parameters n (.restNamed s pos namePos :: acc)
      | _ =>
        let (s, pos) ← identifier
        if ← atMark "=" then
          let eqPos ← advance
          parameters n (.withDefault s (← test n true) eqPos :: acc)
        else parameters n (.required s pos :: acc)

def moreExprs : Nat → Bool → List Expr → Parse (List Expr)
  | 0, _, _ => tooDeep
  | n + 1, trailing, acc => do
    if ← atMark "," then
      let pos ← advance
      if ← atListEnd then
        if trailing then return acc.reverse
        else failAt pos "unparenthesized tuple with trailing comma"
      else moreExprs n trailing ((← test n true) :: acc)
    else return acc.reverse

def exprList : Nat → Bool → Parse Expr
  | 0, _ => tooDeep
  | n + 1, trailing => do
    let x ← test n true
    if ← atMark "," then return .tuple (← moreExprs n trailing [x]) none else return x

def primary : Nat → Parse Expr
  | 0 => tooDeep
  | n + 1 => do
    let t ← token
    match constOf? t, signOf? t with
    | some c, _ => return .const c (← advance)
    | none, some op =>
      let pos ← advance
      return .unary op (← primarySuffix n) pos
    | none, none =>
      match t with
      | .name s => return .name s (← advance)
      | .mark "[" => listBody n (← advance)
      | .mark "\x7b" => dictBody n (← advance)
      | .mark "(" =>
        let pos ← advance
        if ← atMark ")" then
          let _ ← advance
          return .tuple [] (some pos)
        else
          let e ← exprList n true
          let _ ← mark ")"
          return .paren e pos
      | _ => expected "primary expression"

def listBody : Nat → Position → Parse Expr
  | 0, _ => tooDeep
  | n + 1, pos => do
    if ← atMark "]" then
      let _ ← advance
      return .list [] pos
    else
      let x ← test n true
      if ← atKeyword "for" then
        return .listComp x (← clauses n "]" []) pos
      else
        let xs ← moreExprs n true [x]
        let _ ← mark "]"
        return .list xs pos

def dictEntry : Nat → Parse (Expr × Position × Expr)
  | 0 => tooDeep
  | n + 1 => do
    let k ← test n true
    let colon ← mark ":"
    return (k, colon, ← test n true)

def moreEntries : Nat → List (Expr × Position × Expr) → Parse (List (Expr × Position × Expr))
  | 0, _ => tooDeep
  | n + 1, acc => do
    if ← atMark "," then
      let _ ← advance
      if ← atMark "\x7d" then return acc.reverse else moreEntries n ((← dictEntry n) :: acc)
    else return acc.reverse

def dictBody : Nat → Position → Parse Expr
  | 0, _ => tooDeep
  | n + 1, pos => do
    if ← atMark "\x7d" then
      let _ ← advance
      return .dict [] pos
    else
      let (k, colon, v) ← dictEntry n
      if ← atKeyword "for" then
        return .dictComp k colon v (← clauses n "\x7d" []) pos
      else
        let es ← moreEntries n [(k, colon, v)]
        let _ ← mark "\x7d"
        return .dict es pos

/-- The clauses of a comprehension, through its closing bracket. -/
def clauses : Nat → String → List (Clause Expr) → Parse (List (Clause Expr))
  | 0, _, _ => tooDeep
  | n + 1, close, acc => do
    if ← atMark close then
      let _ ← advance
      return acc.reverse
    else if ← atKeyword "for" then
      let pos ← advance
      let target ← targets n
      let _ ← keyword "in"
      clauses n close (.each target (← testPrec n 0) pos :: acc)
    else if ← atKeyword "if" then
      let pos ← advance
      -- A condition is not allowed here: its `if` would be that of the next clause.
      clauses n close (.only (← test n false) pos :: acc)
    else expected ("'" ++ close ++ "', for, or if")

def targets : Nat → Parse Expr
  | 0 => tooDeep
  | n + 1 => do
    let x ← primarySuffix n
    if ← atMark "," then return .tuple (← moreTargets n [x]) none else return x

def moreTargets : Nat → List Expr → Parse (List Expr)
  | 0, _ => tooDeep
  | n + 1, acc => do
    if ← atMark "," then
      let _ ← advance
      if ← atListEnd then return acc.reverse
      else moreTargets n ((← primarySuffix n) :: acc)
    else return acc.reverse

end

/-- A string literal that must be there, with the place where its content starts. -/
def quotedName (why : String) : Parse (String × Position) := do
  match ← token with
  | .text s => return (s.toText, (← advance).shift 1)
  | _ => fail why

def loadNames : Nat → List Loaded → Parse (List Loaded)
  | 0, _ => tooDeep
  | n + 1, acc => do
    if (← atMark ")") || (← atEnd) then return acc.reverse
    else
      let _ ← mark ","
      match ← token with
      | .mark ")" => return acc.reverse
      | .text s =>
        let name := s.toText
        let pos := (← advance).shift 1
        loadNames n (⟨name, pos, name, pos⟩ :: acc)
      | .name _ =>
        let (name, pos) ← identifier
        unless ← atMark "=" do
          fail ("load operand must be \"" ++ name ++ "\" or " ++ name ++
            "=\"originalname\" (want '=' after " ++ name ++ ")")
        let _ ← advance
        let (source, sourcePos) ← quotedName
          ("original name of loaded symbol must be quoted: " ++ name ++ "=\"originalname\"")
        loadNames n (⟨name, pos, source, sourcePos⟩ :: acc)
      | t => fail ("load operand must be \"name\" or localname=\"name\" (got " ++ t.shown ++ ")")

def loadStatement (n : Nat) : Parse Stmt := do
  let pos ← advance
  let bracket ← mark "("
  let _ ← quotedName "first operand of load statement must be a string literal"
  let names ← loadNames n []
  let _ ← mark ")"
  if names.isEmpty then failAt bracket "load statement must import at least 1 symbol"
  return .load names pos

def smallStatement (n : Nat) : Parse Stmt := do
  match ← token with
  | .keyword "return" =>
    let pos ← advance
    if ← atStatementEnd then return .ret none pos
    else return .ret (some (← exprList n false)) pos
  | .keyword "break" => return .leave (← advance)
  | .keyword "continue" => return .again (← advance)
  | .keyword "pass" =>
    let _ ← advance
    return .pass
  | .keyword "load" => loadStatement n
  | _ =>
    let x ← exprList n false
    let t ← token
    if t.isMark "=" then
      let pos ← advance
      return .assign x (← exprList n false) pos
    else
      match augmentOf? t with
      | some op =>
        let pos ← advance
        return .augment op x (← exprList n false) pos
      | none => return .expr x

def smallStatements : Nat → List Stmt → Parse (List Stmt)
  | 0, _ => tooDeep
  | n + 1, acc => do
    let acc := (← smallStatement n) :: acc
    if ← atMark ";" then
      let _ ← advance
      match ← token with
      | .newline | .eof => return acc.reverse
      | _ => smallStatements n acc
    else return acc.reverse

def simpleStatement (n : Nat) : Parse (List Stmt) := do
  let stmts ← smallStatements n []
  match ← token with
  | .eof => return stmts
  | .newline =>
    let _ ← advance
    return stmts
  | _ => expected Token.newline.shown

mutual

/-- The statements of a block. -/
def suite : Nat → Parse (List Stmt)
  | 0 => tooDeep
  | n + 1 => do
    match ← token with
    | .newline =>
      let _ ← advance
      match ← token with
      | .indent =>
        let _ ← advance
        block n []
      | _ => expected Token.indent.shown
    | _ => simpleStatement n

def block : Nat → List Stmt → Parse (List Stmt)
  | 0, _ => tooDeep
  | n + 1, acc => do
    match ← token with
    | .outdent =>
      let _ ← advance
      return acc.reverse
    | .eof => expected Token.outdent.shown
    | _ => block n ((← statement n).reverse ++ acc)

/-- A statement; a line may hold several. -/
def statement : Nat → Parse (List Stmt)
  | 0 => tooDeep
  | n + 1 => do
    match ← token with
    | .keyword "def" =>
      let pos ← advance
      let (name, namePos) ← identifier
      let _ ← mark "("
      let params ← parameters n []
      let _ ← mark ")"
      let _ ← mark ":"
      return [.define name namePos params (← suite n) pos]
    | .keyword "if" =>
      let _ ← advance
      return [← branch n]
    | .keyword "for" =>
      let pos ← advance
      let target ← targets n
      let _ ← keyword "in"
      let source ← exprList n false
      let _ ← mark ":"
      return [.each target source (← suite n) pos]
    | .keyword "while" =>
      let _ ← advance
      let c ← test n true
      let _ ← mark ":"
      return [.whileTrue c (← suite n)]
    | _ => simpleStatement n

def branch : Nat → Parse Stmt
  | 0 => tooDeep
  | n + 1 => do
    let c ← test n true
    let _ ← mark ":"
    let yes ← suite n
    if ← atKeyword "elif" then
      let _ ← advance
      return .branch c yes [← branch n]
    else if ← atKeyword "else" then
      let _ ← advance
      let _ ← mark ":"
      return .branch c yes (← suite n)
    else return .branch c yes []

end

def script : Nat → List Stmt → Parse (List Stmt)
  | 0, _ => tooDeep
  | n + 1, acc => do
    match ← token with
    | .eof => return acc.reverse
    | .newline =>
      let _ ← advance
      script n acc
    | _ => script n ((← statement n).reverse ++ acc)

/-- One item of a session: a statement with a block, a line of small statements, or nothing. -/
def item (n : Nat) : Parse (List Stmt) := do
  match ← token with
  | .keyword "def" | .keyword "if" | .keyword "for" | .keyword "while" => statement n
  | .newline => return []
  | _ =>
    let stmts ← smallStatements n []
    match ← token with
    | .newline => return stmts
    | _ => fail "invalid syntax"

def parseFuel (l : Lexer) : Nat := 20 * l.budget + 64

def parse (src : Bytes) : Except Unread (List Stmt) := do
  let l := Lexer.ofText src
  let (stmts, _) ← (script (parseFuel l) []).run (← Parser.start l)
  return stmts

def parseItem (lines : List Bytes) : Except Unread (List Stmt × List Bytes) := do
  let l := Lexer.ofLines lines
  let (stmts, p) ← (item (parseFuel l)).run (← Parser.start l)
  return (stmts, p.lexer.later.getD [])

end TapeForge.Script
