import TapeForge.Script.Place
import TapeForge.Script.Universe

/-!
# Evaluation

Expressions and statements are evaluated by recursion on their form. What is not bounded by the form
of a script is bounded by numbers: the depth of calls, and the turns of a `while` loop. Each step is
carried out at its place, so that a failure tells where it happened.
-/

namespace TapeForge.Script

open Store

/-- What is the same for all of an evaluation: the names bound beforehand, how to call, and the
largest number of turns of a `while` loop. -/
structure Context where
  given : String → Option Value
  call : Caller
  turns : Nat

/-- How a statement ends. -/
inductive Flow where
  | on
  | leave
  | again
  | ret (v : Value)

namespace Eval

/-- The cell of a name, and whether it belongs to the outermost block. -/
def findCell? (x : String) : List Scope → Option (Nat × Bool)
  | [] => none
  | [scope] => (scope.lookup x).map fun ref => (ref, true)
  | scope :: rest =>
    match scope.lookup x with
    | some ref => some (ref, false)
    | none => findCell? x rest

def readName (ctx : Context) (env : Env) (x : String) : Eval Value := do
  match findCell? x env.scopes with
  | some (ref, outermost) =>
    match ← read ref with
    | .cell (some v) => return v
    | _ => raise (if outermost then .unassignedGlobal x else .unassignedLocal x)
  | none =>
    match ctx.given x with
    | some v => return v
    | none => raise (.unassignedGlobal x)

def assignName (env : Env) (x : String) (v : Value) : Eval Unit :=
  match findCell? x env.scopes with
  | some (ref, _) => update ref (.cell (some v))
  | none => return ()

def newScope (names : List String) : Eval Scope :=
  names.eraseDups.mapM fun x => do return (x, ← alloc (.cell none))

/-- The block of the comprehension at a place, which is the same for the whole call of a
function. -/
def blockAt (env : Env) (pos : Position) (names : List String) : Eval Scope := do
  let known := match ← read env.frame with
    | .frame scopes => scopes
    | _ => []
  -- A function made in an earlier run of the comprehension sees the cells change.
  match known.lookup pos with
  | some scope => return scope
  | none =>
    let scope ← newScope names
    update env.frame (.frame ((pos, scope) :: known))
    return scope

def within (env : Env) (scope : Scope) : Env := { env with scopes := scope :: env.scopes }

/-- Does `f` for a number of values from the one with a number on, until one of them leaves the
loop. -/
def eachItem (s : Items) (f : Value → Eval Flow) : Nat → Nat → Eval Flow
  | 0, _ => return .on
  | n + 1, i => do
    match ← f (s.item i) with
    | .leave => return .on
    | .ret r => return .ret r
    | _ => eachItem s f n (i + 1)

/-- Goes over the elements of a value, which cannot change meanwhile. -/
def overEach (pos : Position) (source : Value) (f : Value → Eval Flow) : Eval Flow := do
  match ← items? source with
  | none => locate pos (raise (.notIterable source.typeName))
  | some s => holding source (eachItem s f s.count 0)

def repeatWhile (test : Eval Bool) (body : Eval Flow) : Nat → Eval Flow
  | 0 => raise .endless
  | turns + 1 => do
    if ← test then
      match ← body with
      | .leave => return .on
      | .ret v => return .ret v
      | _ => repeatWhile test body turns
    else return .on

/-- The elements of a value, as many as there are targets. A value with too many elements stays
held. -/
def unpack (v : Value) (want : Nat) : Eval (List Value) := do
  match ← items? v with
  | none => raise (.notASequence v.typeName)
  | some s =>
    if want < s.count then
      hold v true
      raise (.tooManyValues (← lengthOf v) want)
    if s.count < want then raise (.tooFewValues s.count want)
    return s.toList

/-- The arguments that `**` adds. -/
def namedSpread : List (Arg Value) → Eval (List (Bytes × Value))
  | [] => return []
  | .spreadNamed v _ :: _ =>
    match v with
    | .dict ref => do
      (← dictTable ref).values.mapM fun (k, w) =>
        match k with
        | .text s => return (s, w)
        | k => raise (.keywordNotText k.typeName)
    | v => raise (.notAMapping v.typeName)
  | _ :: rest => namedSpread rest

/-- The arguments that `*` adds. -/
def spread : List (Arg Value) → Eval (List Value)
  | [] => return []
  | .spread v _ :: _ => do
    match ← items? v with
    | some s => return s.toList
    | none => raise (.spreadNotIterable v.typeName)
  | _ :: rest => spread rest

/-- Calls a value with the arguments of a call expression. What `**` adds is checked before what `*`
adds. -/
def applyArgs (ctx : Context) (f : Value) (args : List (Arg Value)) : Eval Value := do
  let positional := args.filterMap fun | .positional v => some v | _ => none
  let named := args.filterMap fun | .named x v _ => some (Bytes.ofString x, v) | _ => none
  let moreNamed ← namedSpread args
  let more ← spread args
  ctx.call f (positional ++ more) (named ++ moreNamed)

def constValue : Const → Value
  | .int n => .int n
  | .float x => .float x
  | .text s => .text s
  | .bytes s => .bytes s

def splitParams : List (Param Expr) → List String × List String
  | [] => ([], [])
  | .required x _ :: rest => let (a, b) := splitParams rest; (x :: a, b)
  | .withDefault x _ _ :: rest => let (a, b) := splitParams rest; (x :: a, b)
  | .restNamed .. :: rest => splitParams rest
  | .star _ :: rest => ([], named rest)
  | .rest .. :: rest => ([], named rest)
where
  /-- The names of the parameters after a star. -/
  named (ps : List (Param Expr)) : List String :=
    ps.filterMap fun
      | .required x _ => some x
      | .withDefault x _ _ => some x
      | _ => none

def newFunction (env : Env) (name : String) (pos : Position) (params : List (Param Expr))
    (defaults : List (String × Value)) (body : Body) : Eval Value := do
  let (positional, named) := splitParams params
  let inner := match body with
    | .block stmts => boundNamesAll stmts
    | .value _ => []
  let f : Closure :=
    { name, script := env.script, pos, positional, named, defaults, body, scopes := env.scopes
      rest := params.findSome? fun | .rest x _ _ => some x | _ => none
      restNamed := params.findSome? fun | .restNamed x _ _ => some x | _ => none
      locals := paramNames params ++ inner }
  return .function (← alloc (.function f)) name

/-- The place of a failure of a slice: the last one before it. -/
def slicePlace (env : Env) (e : Expr) : Option Position :=
  (Place.steps (fun x => (findCell? x env.scopes).isNone) none e).marks.path.getLast?

mutual

def expr (ctx : Context) (env : Env) : Expr → Eval Value
  | .name x pos => locate pos (readName ctx env x)
  | .const c _ => return constValue c
  | .paren e _ => expr ctx env e
  | .list es _ => do newList (← exprs ctx env es)
  | .tuple es _ => do return .tuple (← exprs ctx env es)
  | .dict entries _ => do
    let ref ← alloc (.dict {} false 0)
    dictEntries ctx env ref entries
    return .dict ref
  | .listComp body cs pos => do
    let ref ← alloc (.list #[] false 0)
    let inner := within env (← blockAt env pos (clauseNames cs))
    let emit : Eval Unit := do
      let v ← expr ctx inner body
      changeList ref (·.push v)
    clauses ctx inner env emit cs
    return .list ref
  | .dictComp key colon value cs pos => do
    let ref ← alloc (.dict {} false 0)
    let inner := within env (← blockAt env pos (clauseNames cs))
    let emit : Eval Unit := do
      let k ← expr ctx inner key
      let v ← expr ctx inner value
      locate colon (insertKey ref k v)
    clauses ctx inner env emit cs
    return .dict ref
  | .unary op e pos => do
    let x ← expr ctx env e
    locate pos (unary op x)
  | .binary op a b pos => do
    let x ← expr ctx env a
    let y ← expr ctx env b
    locate pos (binary op x y)
  | .sum first rest _ => do summands ctx env (← expr ctx env first) rest
  | .both a b => do
    let x ← expr ctx env a
    if ← truth x then expr ctx env b else return x
  | .either a b => do
    let x ← expr ctx env a
    if ← truth x then return x else expr ctx env b
  | .cond test yes no => do
    if ← truth (← expr ctx env test) then expr ctx env yes else expr ctx env no
  | .index e i pos => do
    let x ← expr ctx env e
    let y ← expr ctx env i
    locate pos (indexValue x y)
  | .slice e low high step pos => do
    let x ← expr ctx env e
    let a ← optional ctx env low
    let b ← optional ctx env high
    let c ← optional ctx env step
    locateBy (fun _ => slicePlace env (.slice e low high step pos)) (sliceValue x a b c)
  | .attr e name pos => do
    let x ← expr ctx env e
    locate pos (field x name)
  | .call f args pos => do
    let callee ← expr ctx env f
    let values ← arguments ctx env args
    locate pos (applyArgs ctx callee values)
  | .lambda params body pos => do
    newFunction env "lambda" pos params (← defaults ctx env params) (.value body)

def exprs (ctx : Context) (env : Env) : List Expr → Eval (List Value)
  | [] => return []
  | e :: es => do
    let v ← expr ctx env e
    return v :: (← exprs ctx env es)

def optional (ctx : Context) (env : Env) : Option Expr → Eval Value
  | none => return .none
  | some e => expr ctx env e

def summands (ctx : Context) (env : Env) (acc : Value) : List (Position × Expr) → Eval Value
  | [] => return acc
  | (pos, e) :: rest => do
    let v ← expr ctx env e
    summands ctx env (← locate pos (binary .add acc v)) rest

/-- Enters the entries of a dict expression. Each key stands once. -/
def dictEntries (ctx : Context) (env : Env) (ref : Nat) :
    List (Expr × Position × Expr) → Eval Unit
  | [] => return ()
  | (key, colon, value) :: rest => do
    let k ← expr ctx env key
    let v ← expr ctx env value
    locate colon do
      let before := (← dictTable ref).size
      insertKey ref k v
      -- A key that was there already leaves the number of entries as it is.
      if (← dictTable ref).size = before then raise (.duplicateKey (← reprOf k))
    dictEntries ctx env ref rest

/-- Goes through the clauses of a comprehension and does `emit` for each combination. The source of
the first clause belongs to the block around. -/
def clauses (ctx : Context) (env outer : Env) (emit : Eval Unit) : List (Clause Expr) → Eval Unit
  | [] => emit
  | .each target source pos :: rest => do
    let _ ← overEach pos (← expr ctx outer source) fun v => do
      assign ctx env pos target v
      clauses ctx env env emit rest
      return .on
  | .only test _ :: rest => do
    if ← truth (← expr ctx env test) then clauses ctx env env emit rest

def arguments (ctx : Context) (env : Env) : List (Arg Expr) → Eval (List (Arg Value))
  | [] => return []
  | .positional e :: rest => do
    let v ← expr ctx env e
    return .positional v :: (← arguments ctx env rest)
  | .named x e pos :: rest => do
    let v ← expr ctx env e
    return .named x v pos :: (← arguments ctx env rest)
  | .spread e pos :: rest => do
    let v ← expr ctx env e
    return .spread v pos :: (← arguments ctx env rest)
  | .spreadNamed e pos :: rest => do
    let v ← expr ctx env e
    return .spreadNamed v pos :: (← arguments ctx env rest)

def defaults (ctx : Context) (env : Env) : List (Param Expr) → Eval (List (String × Value))
  | [] => return []
  | .withDefault x e _ :: rest => do
    let v ← expr ctx env e
    return (x, v) :: (← defaults ctx env rest)
  | _ :: rest => defaults ctx env rest

def assign (ctx : Context) (env : Env) (pos : Position) : Expr → Value → Eval Unit
  | .name x _, v => assignName env x v
  | .paren e _, v => assign ctx env pos e v
  | .tuple es _, v => do assignAll ctx env pos es (← locate pos (unpack v es.length))
  | .list es _, v => do assignAll ctx env pos es (← locate pos (unpack v es.length))
  | .index e i p, v => do
    let x ← expr ctx env e
    let y ← expr ctx env i
    locate p (setIndex x y v)
  | .attr e name p, _ => do
    let x ← expr ctx env e
    locate p (raise (.noFieldAssignment x.typeName name))
  | _, _ => return ()

def assignAll (ctx : Context) (env : Env) (pos : Position) : List Expr → List Value → Eval Unit
  | e :: es, v :: vs => do
    assign ctx env pos e v
    assignAll ctx env pos es vs
  | _, _ => return ()

end

/-- An assignment that combines the present value of a target with another. -/
def assignCombined (ctx : Context) (env : Env) (op : BinaryOp) (target e : Expr) (pos : Position) :
    Eval Unit := do
  match target.unparen with
  | .name x p =>
    let old ← locate p (readName ctx env x)
    let v ← expr ctx env e
    assignName env x (← locate pos (augment op old v))
  | .index a i p =>
    let x ← expr ctx env a
    let y ← expr ctx env i
    -- Object and index are evaluated once, for the reading and for the writing.
    let old ← locate p (indexValue x y)
    let v ← expr ctx env e
    let new ← locate pos (augment op old v)
    locate p (setIndex x y new)
  | .attr a name p =>
    let x ← expr ctx env a
    let old ← locate p (field x name)
    let v ← expr ctx env e
    -- No field can be assigned, but a failure of the operator comes first.
    let _ ← locate pos (augment op old v)
    locate p (raise (.noFieldAssignment x.typeName name))
  | _ => return ()

mutual

def stmt (ctx : Context) (env : Env) : Stmt → Eval Flow
  | .expr e => do
    let _ ← expr ctx env e
    return .on
  | .assign target e pos => do
    assign ctx env pos target (← expr ctx env e)
    return .on
  | .augment op target e pos => do
    assignCombined ctx env op target e pos
    return .on
  | .define name _ params body pos => do
    let f ← newFunction env name pos params (← defaults ctx env params) (.block body)
    assignName env name f
    return .on
  | .branch test yes no => do
    if ← truth (← expr ctx env test) then stmts ctx env yes else stmts ctx env no
  | .each target source body pos => do
    overEach pos (← expr ctx env source) fun v => do
      assign ctx env pos target v
      stmts ctx env body
  | .whileTrue test body =>
    repeatWhile (do truth (← expr ctx env test)) (stmts ctx env body) ctx.turns
  | .ret none _ => return .ret .none
  | .ret (some e) _ => do return .ret (← expr ctx env e)
  | .leave _ => return .leave
  | .again _ => return .again
  | .pass => return .on
  | .load _ pos => locate pos (raise .loads)

/-- Runs statements until one leaves the block. -/
def stmts (ctx : Context) (env : Env) : List Stmt → Eval Flow
  | [] => return .on
  | s :: ss => do
    match ← stmt ctx env s with
    | .on => stmts ctx env ss
    | flow => return flow

end

end Eval

end TapeForge.Script
