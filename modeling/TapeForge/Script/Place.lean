import TapeForge.Script.Scope

/-!
# Places of steps

A script is carried out in steps, and most steps have a place of their own. The steps of a function
are laid out one after the other: those that follow when no test holds come first, on the *path*;
the others come later, *aside*. What fails in a step without a place is told at the last place
before it, and what fails before the first step at the first place.
-/

namespace TapeForge.Script

/-- The places of the steps on the path and aside, in order. -/
structure Marks where
  path : List Position := []
  aside : List Position := []

namespace Marks

def ofPlace (pos : Position) : Marks := ⟨[pos], []⟩

/-- A single step whose place is that which is waiting for a step, if there is one. -/
def waiting (pend : Option Position) : Marks := ⟨pend.toList, []⟩

def andThen (a b : Marks) : Marks := ⟨a.path ++ b.path, b.aside ++ a.aside⟩

instance : Append Marks := ⟨andThen⟩

def all (m : Marks) : List Position := m.path ++ m.aside

/-- A test, what follows when it holds and what follows when it does not. -/
def branch (test yes no : Marks) : Marks :=
  ⟨test.path ++ no.path, no.aside ++ yes.all ++ test.aside⟩

end Marks

/-- The steps of an expression, and those of a test by it with what follows. -/
structure Steps where
  marks : Marks
  test : Marks → Marks → Marks

def Steps.ofMarks (m : Marks) : Steps := ⟨m, m.branch⟩

/-- Whether a statement never goes on to the next one. -/
def Stmt.ends : Stmt → Bool
  | .ret .. | .leave _ | .again _ => true
  | _ => false

namespace Place

mutual

/-- The steps of an expression. `plain` tells the names that have no place; `pend` is a place that
waits for the first step. In a test, `not`, `and` and `or` have no steps of their own. -/
def steps (plain : String → Bool) (pend : Option Position) : Expr → Steps
  | .name x pos => .ofMarks (if plain x then .waiting pend else .ofPlace pos)
  | .const _ _ => .ofMarks (.waiting pend)
  | .paren e _ => .ofMarks (steps plain pend e).marks
  | .list es _ => .ofMarks (if es.isEmpty then .waiting pend else exprs plain pend es)
  | .tuple es _ => .ofMarks (if es.isEmpty then .waiting pend else exprs plain pend es)
  | .dict entries _ => .ofMarks (.waiting pend ++ dict plain entries)
  | .listComp body cs _ =>
    let inner := fun x => plain x && !(clauseNames cs).contains x
    .ofMarks (.waiting pend ++ clauses plain inner (steps inner none body).marks cs)
  | .dictComp key colon value cs _ =>
    let inner := fun x => plain x && !(clauseNames cs).contains x
    let entry := (steps inner none key).marks ++ (steps inner none value).marks ++ .ofPlace colon
    .ofMarks (.waiting pend ++ clauses plain inner entry cs)
  | .unary .not e pos =>
    let x := steps plain pend e
    ⟨x.marks ++ .ofPlace pos, fun yes no => x.test no yes⟩
  | .unary _ e pos => .ofMarks ((steps plain pend e).marks ++ .ofPlace pos)
  | .binary op a b pos =>
    let m := (steps plain pend a).marks ++ (steps plain none b).marks ++ .ofPlace pos
    ⟨m, fun yes no => if op = .notIn then m.branch no yes else m.branch yes no⟩
  | .sum first rest _ => .ofMarks ((steps plain pend first).marks ++ summands plain rest)
  | .both a b =>
    let x := (steps plain pend a).marks
    let y := steps plain none b
    ⟨⟨x.path, y.marks.all ++ x.aside⟩, fun yes no => x.branch (y.test yes {}) no⟩
  | .either a b =>
    let x := (steps plain pend a).marks
    let y := steps plain none b
    ⟨x ++ y.marks, fun yes no => x ++ y.test yes no⟩
  | .cond test yes no =>
    .ofMarks ((steps plain pend test).test (steps plain none yes).marks (steps plain none no).marks)
  | .index e i pos =>
    .ofMarks ((steps plain pend e).marks ++ (steps plain none i).marks ++ .ofPlace pos)
  | .slice e low high step pos =>
    .ofMarks ((steps plain (some pos) e).marks ++ option plain low ++ option plain high ++
      option plain step)
  | .attr e _ pos => .ofMarks ((steps plain pend e).marks ++ .ofPlace pos)
  | .call f args pos =>
    .ofMarks ((steps plain pend f).marks ++ arguments plain args ++ .ofPlace pos)
  | .lambda ps _ pos => .ofMarks (function plain pos ps)

def exprs (plain : String → Bool) (pend : Option Position) : List Expr → Marks
  | [] => {}
  | e :: es => (steps plain pend e).marks ++ exprs plain none es

def option (plain : String → Bool) : Option Expr → Marks
  | none => {}
  | some e => (steps plain none e).marks

def summands (plain : String → Bool) : List (Position × Expr) → Marks
  | [] => {}
  | (pos, e) :: rest => (steps plain none e).marks ++ .ofPlace pos ++ summands plain rest

def dict (plain : String → Bool) : List (Expr × Position × Expr) → Marks
  | [] => {}
  | (k, colon, v) :: rest =>
    (steps plain none k).marks ++ (steps plain none v).marks ++ .ofPlace colon ++ dict plain rest

/-- The steps of the clauses of a comprehension around those of its body. The source of the first
clause belongs to the block around. -/
def clauses (outer plain : String → Bool) (body : Marks) : List (Clause Expr) → Marks
  | [] => body
  | .each e source pos :: rest =>
    let turn := target plain pos e ++ clauses plain plain body rest
    (steps outer none source).marks ++ .ofPlace pos ++ ⟨turn.all, []⟩
  | .only test _ :: rest => (steps plain none test).test (clauses plain plain body rest) {}

def arguments (plain : String → Bool) : List (Arg Expr) → Marks
  | [] => {}
  | .positional e :: rest => (steps plain none e).marks ++ arguments plain rest
  | .named _ e _ :: rest => (steps plain none e).marks ++ arguments plain rest
  | .spread e _ :: rest => (steps plain none e).marks ++ arguments plain rest
  | .spreadNamed e _ :: rest => (steps plain none e).marks ++ arguments plain rest

/-- The steps that make a function: those of its default values, or one. -/
def function (plain : String → Bool) (pos : Position) : List (Param Expr) → Marks
  | [] => .ofPlace pos
  | .withDefault _ e _ :: rest => (steps plain (some pos) e).marks ++ defaults plain rest
  | _ :: rest => function plain pos rest

def defaults (plain : String → Bool) : List (Param Expr) → Marks
  | [] => {}
  | .withDefault _ e _ :: rest => (steps plain none e).marks ++ defaults plain rest
  | _ :: rest => defaults plain rest

def target (plain : String → Bool) (pos : Position) : Expr → Marks
  | .paren e _ => target plain pos e
  | .tuple es _ => .ofPlace pos ++ targets plain pos es
  | .list es _ => .ofPlace pos ++ targets plain pos es
  | .index e i p => (steps plain none e).marks ++ (steps plain none i).marks ++ .ofPlace p
  | .attr e _ p => (steps plain none e).marks ++ .ofPlace p
  | _ => {}

def targets (plain : String → Bool) (pos : Position) : List Expr → Marks
  | [] => {}
  | e :: es => target plain pos e ++ targets plain pos es

end

/-- The steps of reading what an augmented assignment changes, and those of setting it. -/
def combined (plain : String → Bool) : Expr → Marks × Marks
  | .paren e _ => combined plain e
  | .index e i p =>
    ((steps plain none e).marks ++ (steps plain none i).marks ++ .ofPlace p, .ofPlace p)
  | .attr e _ p => ((steps plain none e).marks ++ .ofPlace p, .ofPlace p)
  | e => ((steps plain none e).marks, {})

mutual

def stmt (plain : String → Bool) (after : Marks) : Stmt → Marks
  | .expr (.const ..) => after
  | .expr e => (steps plain none e).marks ++ after
  | .assign t e pos => (steps plain none e).marks ++ target plain pos t ++ after
  | .augment _ t e pos =>
    let (old, new) := combined plain t
    old ++ (steps plain none e).marks ++ .ofPlace pos ++ new ++ after
  | .define _ _ ps _ pos => function plain pos ps ++ after
  | .branch test yes no =>
    let held := stmts plain (if no.any Stmt.ends then after else {}) yes
    (steps plain none test).test held (stmts plain after no)
  | .each t source body pos =>
    let turn := target plain pos t ++ stmts plain {} body
    let head := (steps plain none source).marks ++ .ofPlace pos
    ⟨head.path ++ turn.path, turn.aside ++ after.all ++ head.aside⟩
  | .whileTrue test body => (steps plain none test).test (stmts plain {} body) after
  | .ret none _ => {}
  | .ret (some e) _ => (steps plain none e).marks
  | .leave _ => {}
  | .again _ => {}
  | .pass => after
  | .load _ pos => .ofPlace pos ++ after

def stmts (plain : String → Bool) (after : Marks) : List Stmt → Marks
  | [] => after
  | s :: ss => stmt plain (stmts plain after ss) s

end

end Place

end TapeForge.Script
