import TapeForge.Script.Tree
import TapeForge.Text.Quoted
import TapeForge.Text.Spelling

/-!
# Names and blocks

Before a script runs, every name in it must be bound somewhere: in the function or comprehension
around it, in the script, or beforehand. A name of the script itself is bound at one place only. The
form of statements, calls and parameters is checked on the way; names are looked up last, those of
inner functions first.
-/

namespace TapeForge.Script

mutual

def targetNames : Expr → List String
  | .name x _ => [x]
  | .paren e _ => targetNames e
  | .tuple es _ => targetNamesAll es
  | .list es _ => targetNamesAll es
  | _ => []

def targetNamesAll : List Expr → List String
  | [] => []
  | e :: es => targetNames e ++ targetNamesAll es

end

mutual

def boundNames : Stmt → List String
  | .assign target _ _ => targetNames target
  | .augment _ target _ _ => targetNames target
  | .define name _ _ _ _ => [name]
  | .branch _ yes no => boundNamesAll yes ++ boundNamesAll no
  | .each target _ body _ => targetNames target ++ boundNamesAll body
  | .whileTrue _ body => boundNamesAll body
  | _ => []

def boundNamesAll : List Stmt → List String
  | [] => []
  | s :: ss => boundNames s ++ boundNamesAll ss

end

def clauseNames (cs : List (Clause Expr)) : List String :=
  cs.flatMap fun
    | .each target _ _ => targetNames target
    | .only _ _ => []

def paramNames (ps : List (Param Expr)) : List String := ps.filterMap Param.name?

mutual

/-- Whether a statement leaves or goes on with a loop that it is not in, or defines a function that
does. -/
def straysFromLoop (inLoop : Bool) : Stmt → Bool
  | .leave _ => !inLoop
  | .again _ => !inLoop
  | .define _ _ _ body _ => strayFromLoop false body
  | .branch _ yes no => strayFromLoop inLoop yes || strayFromLoop inLoop no
  | .each _ _ body _ => strayFromLoop true body
  | .whileTrue _ body => strayFromLoop true body
  | _ => false

/-- Whether one of some statements strays from its loop. -/
def strayFromLoop (inLoop : Bool) : List Stmt → Bool
  | [] => false
  | s :: ss => straysFromLoop inLoop s || strayFromLoop inLoop ss

end

/-- What is known before a script: its file, the names that are given to it, those of the session it
belongs to, and whether what it loads becomes a name of the script. -/
structure Beforehand where
  file : String
  given : String → Bool
  session : String → Bool := fun _ => false
  loadsGlobals : Bool := false

/-- A use of a name, with the blocks around it, the innermost first. -/
structure Use where
  name : String
  pos : Position
  blocks : List Nat

/-- What has been seen of a script: the names bound in each block, the blocks around the present
place, the names of the script and those it loads with the places where they are bound, the uses of
names in the present function and in those that are done, and the loops and branches around. -/
structure Survey where
  names : Array (List String) := #[[]]
  blocks : List Nat := []
  inFunction : Bool := false
  globals : List (String × Position) := []
  loaded : List (String × Position) := []
  uses : List Use := []
  done : List Use := []
  loops : Nat := 0
  branches : Nat := 0

abbrev Check := ReaderT Beforehand (StateT Survey (Except Malformed))

namespace Check

def failAt {α : Type} (pos : Position) (why : String) : Check α := throw ⟨pos, why⟩

def use (x : String) (pos : Position) : Check Unit :=
  modify fun s => { s with uses := ⟨x, pos, s.blocks⟩ :: s.uses }

/-- Binds a name in the block with a number and says whether it is bound there. -/
def bindIn (block : Nat) (x : String) : Check Bool := do
  let s ← get
  let names := s.names.getD block []
  if names.contains x then return true
  else
    set { s with names := s.names.setIfInBounds block (x :: names) }
    return false

/-- Binds a name in the present block, and says whether it is bound there. Outside of all functions
and comprehensions that is an error. -/
def bind (x : String) (pos : Position) : Check Bool := do
  let s ← get
  match s.blocks with
  | block :: _ => bindIn block x
  | [] =>
    let file := (← read).file
    let again := fun (scope : String) (first : Position) =>
      failAt pos ("cannot reassign " ++ scope ++ " " ++ x ++ " declared at " ++ first.shown file)
    match s.loaded.lookup x, s.globals.lookup x with
    | some first, _ => again "local" first
    | none, some first => again "global" first
    | none, none =>
      set { s with globals := (x, pos) :: s.globals }
      return false

def inBlock {α : Type} (act : Check α) : Check α := do
  let outer := (← get).blocks
  modify fun s => { s with names := s.names.push [], blocks := s.names.size :: s.blocks }
  let r ← act
  modify fun s => { s with blocks := outer }
  return r

/-- Does something in the block of a new function. The names it uses are looked up when all is
done. -/
def inFunctionBlock (act : Check Unit) : Check Unit := do
  let outer ← get
  -- The uses of this function are gathered apart from those of the one around it.
  set { outer with uses := [], inFunction := true }
  inBlock act
  modify fun s =>
    { s with uses := outer.uses, done := s.uses ++ s.done, inFunction := outer.inFunction }

end Check

open Check

/-- What a parameter list has shown so far: an optional parameter, `*` with its name, `**`, and the
number of parameters that are given by name only. -/
structure ParamState where
  optional : Bool := false
  star : Option (Position × Option (String × Position)) := none
  restNamed : Option (String × Position) := none
  namedOnly : Nat := 0

def bindParam (x : String) (pos : Position) : Check Unit := do
  if ← bind x pos then failAt pos ("duplicate parameter: " ++ x)

def checkParam (s : ParamState) (p : Param Expr) : Check ParamState := do
  -- Parameters behind a star are given by name only.
  let namedOnly := if s.star.isSome then s.namedOnly + 1 else s.namedOnly
  match p with
  | .required x pos =>
    if let some (k, _) := s.restNamed then
      failAt pos ("required parameter may not follow **" ++ k)
    if s.star.isNone ∧ s.optional then failAt pos "required parameter may not follow optional"
    bindParam x pos
    return { s with namedOnly }
  | .withDefault x _ pos =>
    if let some (k, _) := s.restNamed then
      failAt pos ("optional parameter may not follow **" ++ k)
    bindParam x pos
    return { s with namedOnly, optional := true }
  | .star pos => starParam pos none
  | .rest x pos namePos => starParam pos (some (x, namePos))
  | .restNamed x pos namePos =>
    if s.restNamed.isSome then failAt pos "multiple ** parameters not allowed"
    return { s with restNamed := some (x, namePos) }
where
  /-- Notes a `*`. -/
  starParam (pos : Position) (name : Option (String × Position)) : Check ParamState := do
    if let some (k, _) := s.restNamed then failAt pos ("* parameter may not follow **" ++ k)
    if s.star.isSome then failAt pos "multiple * parameters not allowed"
    return { s with star := some (pos, name) }

/-- Binds the parameters of a function; those that take what is left are bound last. -/
def checkParams (ps : List (Param Expr)) : Check Unit := do
  let s ← ps.foldlM checkParam {}
  match s.star with
  | some (_, some (x, pos)) => bindParam x pos
  | some (pos, none) =>
    if s.namedOnly = 0 then failAt pos "bare * must be followed by keyword-only parameters"
  | none => pure ()
  if let some (x, pos) := s.restNamed then bindParam x pos

/-- What an argument list has shown so far: the number of arguments by position, the names, `*` and
`**`. -/
structure ArgState where
  positional : Nat := 0
  names : List String := []
  spread : Bool := false
  spreadNamed : Bool := false

/-- Notes an argument: those by position come first, then those by name, `*` and `**`. -/
def checkArg (s : ArgState) (a : Arg Expr) : Check ArgState := do
  match a with
  | .positional e =>
    if s.spread then failAt e.start "positional argument may not follow *args"
    if s.spreadNamed then failAt e.start "positional argument may not follow **kwargs"
    if !s.names.isEmpty then failAt e.start "positional argument may not follow named"
    return { s with positional := s.positional + 1 }
  | .named x _ pos =>
    if s.spreadNamed then failAt pos "keyword argument may not follow **kwargs"
    if s.spread then failAt pos "keyword argument may not follow *args"
    if s.names.contains x then
      failAt pos ("keyword argument " ++ Quoted.string x ++ " is repeated")
    return { s with names := x :: s.names }
  | .spread _ pos =>
    if s.spreadNamed then failAt pos "*args may not follow **kwargs"
    if s.spread then failAt pos "multiple *args not allowed"
    return { s with spread := true }
  | .spreadNamed _ pos =>
    if s.spreadNamed then failAt pos "multiple **kwargs not allowed"
    return { s with spreadNamed := true }

/-- The largest number of arguments of one sort in a call. -/
def argumentLimit : Nat := 255

/-- Checks the number of arguments of a call that starts at a place. -/
def checkArgCount (pos : Position) (s : ArgState) : Check Unit := do
  let limit := fun (n : Nat) (sort : String) =>
    (do
      if argumentLimit < n then
        failAt pos (Decimal.ofNat n ++ " " ++ sort ++ " arguments in call, limit is 255") :
      Check Unit)
  limit s.positional "positional"
  limit s.names.length "keyword"

mutual

def checkExpr : Expr → Check Unit
  | .name x pos => use x pos
  | .const _ _ => return ()
  | .paren e _ => checkExpr e
  | .list es _ => checkExprs es
  | .tuple es _ => checkExprs es
  | .dict entries _ => checkEntries entries
  | .listComp body cs _ => do
    checkFirstSource cs
    inBlock do
      checkClauses true cs
      checkExpr body
  | .dictComp key _ value cs _ => do
    checkFirstSource cs
    inBlock do
      checkClauses true cs
      checkExpr key
      checkExpr value
  | .unary _ e _ => checkExpr e
  | .binary _ a b _ => do
    checkExpr a
    checkExpr b
  | .sum first rest _ => do
    checkExpr first
    checkSummands rest
  | .both a b => do
    checkExpr a
    checkExpr b
  | .either a b => do
    checkExpr a
    checkExpr b
  | .cond t a b => do
    checkExpr t
    checkExpr a
    checkExpr b
  | .index e i _ => do
    checkExpr e
    checkExpr i
  | .slice e a b c _ => do
    checkExpr e
    checkOption a
    checkOption b
    checkOption c
  | .attr e _ _ => checkExpr e
  | .call f args _ => do
    checkExpr f
    checkArgCount f.start (← checkArgs {} args)
  | .lambda params body _ => do
    checkDefaults params
    inFunctionBlock do
      checkParams params
      checkExpr body

def checkExprs : List Expr → Check Unit
  | [] => return ()
  | e :: es => do
    checkExpr e
    checkExprs es

def checkSummands : List (Position × Expr) → Check Unit
  | [] => return ()
  | (_, e) :: rest => do
    checkExpr e
    checkSummands rest

def checkOption : Option Expr → Check Unit
  | none => return ()
  | some e => checkExpr e

def checkEntries : List (Expr × Position × Expr) → Check Unit
  | [] => return ()
  | (k, _, v) :: rest => do
    checkExpr k
    checkExpr v
    checkEntries rest

def checkFirstSource : List (Clause Expr) → Check Unit
  | .each _ source _ :: _ => checkExpr source
  | _ => return ()

def checkClauses (first : Bool) : List (Clause Expr) → Check Unit
  | [] => return ()
  | .each target source _ :: rest => do
    checkTarget false target
    if !first then checkExpr source
    checkClauses false rest
  | .only test _ :: rest => do
    checkExpr test
    checkClauses false rest

def checkTarget (augmented : Bool) : Expr → Check Unit
  | .name x pos => do
    let _ ← bind x pos
  | .paren e _ => checkTarget augmented e
  | .tuple es pos => do
    if augmented then
      failAt (Expr.tuple es pos).start "can't use tuple expression in augmented assignment"
    checkTargets augmented es
  | .list es pos => do
    if augmented then failAt pos "can't use list expression in augmented assignment"
    checkTargets augmented es
  | .index e i _ => do
    checkExpr e
    checkExpr i
  | .attr e _ _ => checkExpr e
  | e => failAt e.start ("can't assign to " ++ e.kind)

def checkTargets (augmented : Bool) : List Expr → Check Unit
  | [] => return ()
  | e :: es => do
    checkTarget augmented e
    checkTargets augmented es

def checkArgs (s : ArgState) : List (Arg Expr) → Check ArgState
  | [] => return s
  | .positional e :: rest => do
    let s ← checkArg s (.positional e)
    checkExpr e
    checkArgs s rest
  | .named x e pos :: rest => do
    let s ← checkArg s (.named x e pos)
    checkExpr e
    checkArgs s rest
  | .spread e pos :: rest => do
    let s ← checkArg s (.spread e pos)
    checkExpr e
    checkArgs s rest
  | .spreadNamed e pos :: rest => do
    let s ← checkArg s (.spreadNamed e pos)
    checkExpr e
    checkArgs s rest

def checkDefaults : List (Param Expr) → Check Unit
  | [] => return ()
  | .withDefault _ e _ :: rest => do
    checkExpr e
    checkDefaults rest
  | _ :: rest => checkDefaults rest

end

def checkLoaded (n : Loaded) : Check Unit := do
  if n.source.isEmpty then failAt n.sourcePos "load: empty identifier"
  if n.source.startsWith "_" then
    failAt n.sourcePos ("load: names with leading underscores are not exported: " ++ n.source)
  if (← read).loadsGlobals then
    let _ ← bind n.name n.pos
  else
    if ((← get).loaded.lookup n.name).isSome then
      failAt n.pos ("cannot reassign top-level " ++ n.name)
    modify fun s => { s with loaded := (n.name, n.pos) :: s.loaded }

/-- Checks that a load statement stands outside of all others. -/
def checkLoadPlace (pos : Position) : Check Unit := do
  let s ← get
  if s.inFunction then failAt pos "load statement within a function"
  if 0 < s.loops then failAt pos "load statement within a loop"
  if 0 < s.branches then failAt pos "load statement within a conditional"

def inLoop (act : Check Unit) : Check Unit := do
  modify fun s => { s with loops := s.loops + 1 }
  act
  modify fun s => { s with loops := s.loops - 1 }

def inBranch (act : Check Unit) : Check Unit := do
  modify fun s => { s with branches := s.branches + 1 }
  act
  modify fun s => { s with branches := s.branches - 1 }

def needLoop (what : String) (pos : Position) : Check Unit := do
  if (← get).loops = 0 then failAt pos (what ++ " not in a loop")

mutual

def checkStmt : Stmt → Check Unit
  | .expr e => checkExpr e
  | .assign target e _ => do
    checkExpr e
    checkTarget false target
  | .augment _ target e _ => do
    checkExpr e
    checkTarget true target
  | .define name namePos params body _ => do
    let _ ← bind name namePos
    checkDefaults params
    inFunctionBlock do
      checkParams params
      checkStmts body
  | .branch test yes no => do
    checkExpr test
    inBranch do
      checkStmts yes
      checkStmts no
  | .each target source body _ => do
    checkExpr source
    checkTarget false target
    inLoop (checkStmts body)
  | .whileTrue test body => do
    checkExpr test
    inLoop (checkStmts body)
  | .ret e pos => do
    if !(← get).inFunction then failAt pos "return statement not within a function"
    checkOption e
  | .leave pos => needLoop "break" pos
  | .again pos => needLoop "continue" pos
  | .pass => return ()
  | .load names pos => do
    checkLoadPlace pos
    names.forM checkLoaded

def checkStmts : List Stmt → Check Unit
  | [] => return ()
  | s :: ss => do
    checkStmt s
    checkStmts ss

end

/-- The known name nearest to the name of a use: those of the blocks around it and of the script. -/
def hintFor (s : Survey) (u : Use) : Option Bytes :=
  let inner := u.blocks.flatMap fun b => s.names.getD b []
  let names := inner ++ s.loaded.map Prod.fst ++ s.globals.map Prod.fst
  Spelling.nearest (Bytes.ofString u.name)
    ((names.map Bytes.ofString).mergeSort fun a b => Bytes.compare a b != .gt)

/-- Looks up a name of the script, or one that is known beforehand. A name of the session becomes
one of the script. -/
def lookUpGlobal (u : Use) : Check Unit := do
  let s ← get
  let known ← read
  if (s.loaded.lookup u.name).isSome || (s.globals.lookup u.name).isSome then return ()
  else if known.session u.name then set { s with globals := (u.name, u.pos) :: s.globals }
  else if known.given u.name then return ()
  else
    let hint := match hintFor s u with
      | some h => " (did you mean " ++ h.toText ++ "?)"
      | none => ""
    failAt u.pos ("undefined: " ++ u.name ++ hint)

/-- Looks up the name of a use in the given blocks. Every block that is passed knows the name from
then on. -/
def lookUp (u : Use) : List Nat → Check Unit
  | [] => lookUpGlobal u
  | block :: outer => do
    if ((← get).names.getD block []).contains u.name then return ()
    else
      lookUp u outer
      let _ ← bindIn block u.name

def lookUpAll : Check Unit := do
  let s ← get
  -- Functions that are done come first: their names are reported before those around them.
  (s.uses ++ s.done).reverse.forM fun u => lookUp u u.blocks

/-- The names of a script: its own, in the order they are first bound or used, and those it
loads. -/
structure Globals where
  own : List String
  loaded : List String

def Survey.found (s : Survey) : Globals :=
  ⟨(s.globals.map Prod.fst).reverse, (s.loaded.map Prod.fst).reverse⟩

def checkScript (known : Beforehand) (stmts : List Stmt) : Except Malformed Globals := do
  let check : Check Unit := do
    checkStmts stmts
    lookUpAll
  let (_, s) ← (check.run known).run {}
  return s.found

def checkLone (known : Beforehand) (e : Expr) : Except Malformed Unit := do
  let check : Check Unit := do
    checkExpr e
    lookUpAll
  let _ ← (check.run known).run {}
  return ()

end TapeForge.Script
