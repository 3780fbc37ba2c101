import TapeForge.Script.Eval

/-!
# Calls

How arguments reach the parameters of a function, and how a value is called. The depth of calls is
bounded by a number that is larger than any script needs.
-/

namespace TapeForge.Script

open Store Eval

/-- The parameters of a function with the values they have so far. -/
abbrev Bindings := List (String × Option Value)

/-- Gives the parameters with the names of `ps` their values by position. -/
def bindPositions : List String → List Value → Bindings
  | p :: ps, v :: vs => (p, some v) :: bindPositions ps vs
  | ps, _ => ps.map fun p => (p, none)

/-- Gives the parameter with a name its value: none if there is no such parameter, and an inner none
if it has a value. -/
def bindName (x : Bytes) (v : Value) : Bindings → Option (Option Bindings)
  | [] => none
  | (p, w) :: rest =>
    if Bytes.ofString p = x then some (if w.isSome then none else some ((p, some v) :: rest))
    else (bindName x v rest).map (·.map ((p, w) :: ·))

/-- Binds arguments given by name. Those without a parameter go to the last list, if the function
takes them. -/
def bindNamed (takesRest : Bool) :
    Bindings → List (Bytes × Value) → List (Bytes × Value) →
      Except BindError (Bindings × List (Bytes × Value))
  | bs, extra, [] => .ok (bs, extra)
  | bs, extra, (k, v) :: rest =>
    match bindName k v bs with
    | some (some bs) => bindNamed takesRest bs extra rest
    | some none => .error (.repeated k)
    | none =>
      if !takesRest then .error (.unknown k)
      else if extra.any (·.1 == k) then .error (.repeated k)
      else bindNamed takesRest bs (extra ++ [(k, v)]) rest

/-- The arguments of a call, as the parameters of a function take them: the values of the
parameters, what is left by position and what is left by name. -/
structure Bound where
  values : List (String × Value)
  rest : List Value
  restNamed : List (Bytes × Value)

def bindArguments (f : Closure) (args : List Value) (named : List (Bytes × Value)) :
    Except BindError Bound := do
  let params := f.positional ++ f.named
  let given := args.length + named.length
  if params.isEmpty ∧ f.rest.isNone ∧ f.restNamed.isNone ∧ 0 < given then throw (.none given)
  if f.positional.length < args.length ∧ f.rest.isNone then
    let optional := f.positional.any fun p => (f.defaults.lookup p).isSome
    throw (.tooMany optional f.positional.length args.length)
  let start := bindPositions f.positional args ++ f.named.map fun p => (p, none)
  let (bs, extra) ← bindNamed f.restNamed.isSome start [] named
  let bs := bs.map fun (p, v) => (p, v.or (f.defaults.lookup p))
  let missing := bs.filterMap fun (p, v) => if v.isNone then some p else none
  if !missing.isEmpty then throw (.missing missing)
  let values := bs.filterMap fun (p, v) => v.map fun w => (p, w)
  return ⟨values, args.drop f.positional.length, extra⟩

/-- What a script is given: the values of names, and what calls of given functions do. Without
`recursion` a function cannot call itself. -/
structure Host where
  given : String → Option Value
  call : String → List Datum → List (Bytes × Datum) → Reply EvalError Datum
  recursion : Bool

/-- The largest number of turns of a `while` loop. -/
def turnLimit : Nat := 1000000000

def depthLimit : Nat := 1000000000

def setIn (scope : Scope) (x : String) (v : Value) : Eval Unit :=
  match scope.lookup x with
  | some ref => update ref (.cell (some v))
  | none => return ()

def enterFunction (ctx : Context) (f : Closure) (bound : Bound) : Eval Value := do
  let scope ← newScope f.locals
  for (p, v) in bound.values do setIn scope p v
  if let some p := f.rest then setIn scope p (.tuple bound.rest)
  if let some p := f.restNamed then
    let entries := bound.restNamed.map fun (k, v) => (Value.text k, v)
    let table ← entries.foldlM
      (fun t (k, v) => do keyed (Table.enter t (← keyed k.toKey) (k, v) id)) {}
    setIn scope p (← newDict table)
  let env : Env := ⟨scope :: f.scopes, ← alloc (.frame []), f.script⟩
  match f.body with
  | .value e => expr ctx env e
  | .block body =>
    match ← stmts ctx env body with
    | .ret v => return v
    | _ => return .none

def Closure.firstPlace (f : Closure) : Option Position :=
  let plain := fun x => !f.locals.contains x && (findCell? x f.scopes).isNone
  let marks := match f.body with
    | .value e => (Place.steps plain none e).marks
    | .block body => Place.stmts plain {} body
  marks.all.head?

/-- Calls a function of a script, if that may be called now. -/
def callFunction (recursion : Bool) (ctx : Context) (f : Closure) (args : List Value)
    (named : List (Bytes × Value)) : Eval Value := do
  -- Nothing runs after a failure, so the list need not be restored there.
  let active := (← get).active
  let bound ← locateBy (fun _ => f.firstPlace) do
    if !recursion ∧ active.contains (f.script, f.pos) then raise (.recursive f.name)
    match bindArguments f args named with
    | .ok bound => return bound
    | .error e => raise (.bind f.name e)
  modify fun s => { s with active := (f.script, f.pos) :: active }
  let v ← enterFunction ctx f bound
  modify fun s => { s with active := active }
  return v

/-- Calls a function that a script was given. Where that does not come back, the script does not. -/
def callHost (host : Host) (key : String) (args : List Value) (named : List (Bytes × Value)) :
    Eval Value := do
  let data ← args.mapM toDatum
  let namedData ← named.mapM fun (k, v) => do return (k, ← toDatum v)
  match host.call key data namedData with
  | .ok d => ofDatum false d
  | .error e => raise e
  | .panic _ => raise .aborted
  | .endless => raise .endless

def callValue (host : Host) : Nat → Caller
  | 0, _, _, _ => raise .endless
  | depth + 1, callee, args, named =>
    let inner := callValue host depth
    match callee with
    | .function ref name => do
      match ← read ref with
      | .function f =>
        inFrame name false
          (callFunction host.recursion ⟨host.given, inner, turnLimit⟩ f args named)
      | _ => return .none
    | .native name => inFrame name true (callNative inner name args named)
    | .method owner name _ => inFrame name true (callMethod owner name args named)
    | .host key shown => inFrame shown true (callHost host key args named)
    | v => raise (.notCallable v.typeName)

/-- What evaluation needs in the outermost block of a script. -/
def Host.context (host : Host) : Context := ⟨host.given, callValue host depthLimit, turnLimit⟩

end TapeForge.Script
