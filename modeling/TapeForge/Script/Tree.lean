import TapeForge.Script.Token

/-!
# Script trees

Expressions and statements of the script language, with the places that errors name.
-/

namespace TapeForge.Script

inductive Const where
  | int (n : Int)
  | float (x : Float)
  | text (s : Bytes)
  | bytes (s : Bytes)
  deriving Inhabited

inductive UnaryOp where
  | plus
  | minus
  | invert
  | not
  deriving Repr, DecidableEq

/-- An operator of two operands that are both evaluated. -/
inductive BinaryOp where
  | add
  | sub
  | mul
  | div
  | floorDiv
  | mod
  | and
  | or
  | xor
  | shiftLeft
  | shiftRight
  | eq
  | ne
  | lt
  | le
  | gt
  | ge
  | isIn
  | notIn
  deriving Repr, DecidableEq

def BinaryOp.mark : BinaryOp → String
  | add => "+"
  | sub => "-"
  | mul => "*"
  | div => "/"
  | floorDiv => "//"
  | mod => "%"
  | and => "&"
  | or => "|"
  | xor => "^"
  | shiftLeft => "<<"
  | shiftRight => ">>"
  | eq => "=="
  | ne => "!="
  | lt => "<"
  | le => "<="
  | gt => ">"
  | ge => ">="
  | isIn => "in"
  | notIn => "not in"

def UnaryOp.mark : UnaryOp → String
  | plus => "+"
  | minus => "-"
  | invert => "~"
  | not => "not"

/-- An argument of a call. `named`, `spread` and `spreadNamed` know the place where they start. -/
inductive Arg (ε : Type) where
  | positional (e : ε)
  | named (name : String) (e : ε) (pos : Position)
  | spread (e : ε) (pos : Position)
  | spreadNamed (e : ε) (pos : Position)

/-- A part of a comprehension; `pos` is its keyword. -/
inductive Clause (ε : Type) where
  | each (target source : ε) (pos : Position)
  | only (test : ε) (pos : Position)

/-- A parameter of a function. The place of one with a default is that of its `=`; `rest` and
`restNamed` have the place of the star and that of the name. -/
inductive Param (ε : Type) where
  | required (name : String) (pos : Position)
  | withDefault (name : String) (e : ε) (pos : Position)
  | star (pos : Position)
  | rest (name : String) (pos namePos : Position)
  | restNamed (name : String) (pos namePos : Position)

/-- An expression. The place of an expression is that of its mark: the bracket, the operator, the
point. `sum` is a chain of additions, `start` the place where it starts. -/
inductive Expr where
  | name (x : String) (pos : Position)
  | const (c : Const) (pos : Position)
  | paren (e : Expr) (pos : Position)
  | list (elems : List Expr) (pos : Position)
  | tuple (elems : List Expr) (pos : Option Position)
  | dict (entries : List (Expr × Position × Expr)) (pos : Position)
  | listComp (body : Expr) (clauses : List (Clause Expr)) (pos : Position)
  | dictComp (key : Expr) (colon : Position) (value : Expr) (clauses : List (Clause Expr))
      (pos : Position)
  | unary (op : UnaryOp) (e : Expr) (pos : Position)
  | binary (op : BinaryOp) (a b : Expr) (pos : Position)
  | sum (first : Expr) (rest : List (Position × Expr)) (start : Position)
  | both (a b : Expr)
  | either (a b : Expr)
  | cond (test yes no : Expr)
  | index (e i : Expr) (pos : Position)
  | slice (e : Expr) (low high step : Option Expr) (pos : Position)
  | attr (e : Expr) (name : String) (pos : Position)
  | call (f : Expr) (args : List (Arg Expr)) (pos : Position)
  | lambda (params : List (Param Expr)) (body : Expr) (pos : Position)

instance : Inhabited Expr := ⟨.tuple [] none⟩

/-- A name that a load statement binds, and what it stands for. -/
structure Loaded where
  name : String
  pos : Position
  source : String
  sourcePos : Position

inductive Stmt where
  | expr (e : Expr)
  | assign (target e : Expr) (pos : Position)
  | augment (op : BinaryOp) (target e : Expr) (pos : Position)
  | define (name : String) (namePos : Position) (params : List (Param Expr)) (body : List Stmt)
      (pos : Position)
  | branch (test : Expr) (yes no : List Stmt)
  | each (target source : Expr) (body : List Stmt) (pos : Position)
  | whileTrue (test : Expr) (body : List Stmt)
  | ret (e : Option Expr) (pos : Position)
  | leave (pos : Position)
  | again (pos : Position)
  | pass
  | load (names : List Loaded) (pos : Position)

instance : Inhabited Stmt := ⟨.pass⟩

def Param.name? {ε : Type} : Param ε → Option String
  | required x _ => some x
  | withDefault x _ _ => some x
  | star _ => none
  | rest x _ _ => some x
  | restNamed x _ _ => some x

namespace Expr

/-- The place where an expression starts. -/
def start : Expr → Position
  | name _ pos => pos
  | const _ pos => pos
  | paren _ pos => pos
  | list _ pos => pos
  | tuple _ (some pos) => pos
  | tuple [] none => {}
  | tuple (e :: _) none => start e
  | dict _ pos => pos
  | listComp _ _ pos => pos
  | dictComp _ _ _ _ pos => pos
  | unary _ _ pos => pos
  | binary _ a _ _ => start a
  | sum _ _ pos => pos
  | both a _ => start a
  | either a _ => start a
  | cond _ yes _ => start yes
  | index e _ _ => start e
  | slice e _ _ _ _ => start e
  | attr e _ _ => start e
  | call f _ _ => start f
  | lambda _ _ pos => pos

def unparen : Expr → Expr
  | paren e _ => unparen e
  | e => e

/-- The kind of an expression, as an error names it that cannot be assigned to. -/
def kind : Expr → String
  | name .. => "ident"
  | const .. => "literal"
  | paren .. => "parenexpr"
  | list .. => "listexpr"
  | tuple .. => "tupleexpr"
  | dict .. => "dictexpr"
  | listComp .. => "comprehension"
  | dictComp .. => "comprehension"
  | unary .. => "unaryexpr"
  | binary .. | sum .. | both .. | either .. => "binaryexpr"
  | cond .. => "condexpr"
  | index .. => "indexexpr"
  | slice .. => "sliceexpr"
  | attr .. => "dotexpr"
  | call .. => "callexpr"
  | lambda .. => "lambdaexpr"

/-- The sum of two literals of one kind: strings, byte strings, lists or tuples. -/
def fold? : Expr → Expr → Option Expr
  | const (.text a) pos, const (.text b) _ => some (const (.text (a ++ b)) pos)
  | const (.bytes a) pos, const (.bytes b) _ => some (const (.bytes (a ++ b)) pos)
  | list as pos, list bs _ => some (list (as ++ bs) pos)
  | tuple as pos, tuple bs _ => some (tuple (as ++ bs) pos)
  | _, _ => none

/-- Adds a summand to a chain whose last one is the head of the list. Neighbouring literals of one
kind are added at once. -/
def foldOnto (pos : Position) (e : Expr) : List (Position × Expr) → List (Position × Expr)
  | (p, last) :: rest =>
    match fold? last e with
    | some folded => (p, folded) :: rest
    | none => (pos, e) :: (p, last) :: rest
  | [] => [(pos, e)]

/-- The sum of two expressions. A sum on the left goes on, whatever brackets are around it. -/
def add (a b : Expr) (pos : Position) : Expr :=
  let b := unparen b
  match unparen a with
  | sum first rest _ =>
    match (foldOnto pos b (rest.reverse ++ [(pos, first)])).reverse with
    | (_, first) :: rest => sum first rest (start a)
    | [] => sum first rest (start a)
  | first =>
    match fold? first b with
    | some folded => sum folded [] (start a)
    | none => sum first [(pos, b)] (start a)

end Expr

end TapeForge.Script
