import TapeForge.Machine.Basic
import TapeForge.Script.Call
import TapeForge.Script.Parser
import TapeForge.Tap.Exposed
import TapeForge.Tap.Line

/-!
# Tapping a machine

A tap is a session of script lines that looks at a machine: its tape, data pointer, width and steps
as they are when the tap starts, and two functions that read cells. The value of an expression is
shown; what a line prints goes to the error stream, and so do its errors.
-/

namespace TapeForge.Tap

open Script Store

def names : List String := ["cell", "display", "dp", "steps", "tape", "width"]

def exposed (m : Machine) : List (String × Exposed) :=
  [("dp", .plain (.int m.dp.toInt)), ("steps", .plain (.int m.steps.toInt)),
    ("tape", .sequence false (m.tape.toList.map fun v => .plain (.int v.toNat))),
    ("width", .plain (.int m.width.bytes))]

/-- What a tap sees of a machine, as data. -/
def data (m : Machine) : List (String × Datum) :=
  (exposed m).map fun (name, e) =>
    (name, match e.toDatum with
      | .ok d => d
      | .error _ => .none)

/-- The value of a cell; zero outside of the tape. -/
def cell (m : Machine) (pos : Int64) : UInt64 :=
  match m.cell pos with
  | .ok v => v
  | .error _ => 0

inductive Unfit where
  | tooLarge
  | shape (kind : String)
  | token (kind : String)
  deriving Repr, DecidableEq

def Unfit.message : Unfit → String
  | tooLarge => "int too large"
  | shape kind => "not a " ++ kind ++ ": int"
  | token kind => "unmarshaling kind: " ++ kind ++ " to int\nunmarshal error\npath: "

/-- The 64-bit integer that an argument is. No value is zero. -/
def wordArg : Datum → Except Unfit Int64
  | .none => .ok 0
  | .int n =>
    if -0x8000000000000000 ≤ n ∧ n < 0x8000000000000000 then .ok (Int64.ofInt n)
    else .error .tooLarge
  | .float _ => .error (.shape "float")
  | .bool _ => .error (.token "KindBool")
  | .text _ => .error (.token "KindString")
  | .bytes _ => .error (.token "KindBytes")
  | d => .error (.shape d.typeName)

def call (m : Machine) (key : String) (args : List Datum) (_named : List (Bytes × Datum)) :
    Reply EvalError Datum := do
  let n ← .of ((wordArg (args.headD .none)).mapError fun e => .plain e.message)
  if key = "cell" then return .int (cell m n).toNat else return .string (m.display n)

/-- A session: the store, the names bound in it so far with their cells, and the number of scripts
that were run. -/
structure Session where
  store : Store
  scope : Scope
  scripts : Nat := 0

/-- What is shown, the lines of the error stream, and whether the session was aborted. -/
structure Shown where
  out : Bytes := []
  err : List Bytes := []
  aborted : Bool := false

/-- The functions of a tap as values. They have no name of their own. -/
def functions : List (String × Value) :=
  [("cell", .host "cell" ""), ("display", .host "display" "")]

def start (m : Machine) : Session :=
  let made : Eval Scope := do
    let seen ← (data m).mapM fun (name, d) => do return (name, ← ofDatum false d)
    (seen ++ functions).mapM fun (name, v) => do return (name, ← alloc (.cell (some v)))
  match made.run {} with
  | .ok scope store => { store, scope }
  | .error _ store => { store, scope := [] }

def file : String := "<stdin>"

/-- The line for a function that was being called. -/
def frameLine (f : Frame) : String :=
  let place := if f.native then "<builtin>"
    else match f.place with
      | some pos => pos.shown file
      | none => file
  "  " ++ place ++ ": in " ++ f.name

/-- The lines for a failure: the functions that were being called, and the cause. The last function
stands with the cause if it has no places. -/
def failureLines (e : Raised) : List Bytes :=
  let (frames, last) := match e.inner.getLast? with
    | some f => if f.native then (e.inner.dropLast, " in " ++ f.name) else (e.inner, "")
    | none => ([], "")
  let head := if frames.isEmpty then [] else ["Traceback (most recent call last):"]
  (head ++ frames.map frameLine ++ ["Error" ++ last ++ ": " ++ e.why.message]).map Bytes.ofString

namespace Session

def host (m : Machine) : Host := ⟨universe?, call m, false⟩

def known (s : Session) : Beforehand :=
  { file, given := fun x => (universe? x).isSome
    session := fun x => (s.scope.lookup x).isSome, loadsGlobals := true }

def knownByLone (s : Session) : Beforehand :=
  { file, given := fun x => (universe? x).isSome || (s.scope.lookup x).isSome }

def newEnv (s : Session) (scope : Scope) : Eval Env := do
  return ⟨[scope], ← alloc (.frame []), s.scripts⟩

/-- The value of an expression, in which names stand for what they are bound to at the time. -/
def runLone (s : Session) (m : Machine) (e : Expr) : Eval Value := do
  let env ← s.newEnv s.scope
  inFrame "<expr>" false (Eval.expr (host m).context env e)

def enterNames (s : Session) (own : List String) : Eval Scope :=
  own.mapM fun x => do
    match s.scope.lookup x with
    | some ref => return (x, ← alloc (← read ref))
    | none => return (x, ← alloc (.cell none))

def leaveNames (scope : Scope) : Scope → Eval Scope
  | [] => return scope
  | (x, ref) :: rest => do
    match ← read ref, scope.lookup x with
    | .cell none, _ => leaveNames scope rest
    | o, some old => do
      update old o
      leaveNames scope rest
    | o, none => do leaveNames ((x, ← alloc o) :: scope) rest

/-- Runs a script with names of its own. What they are bound to is kept, also after a failure. -/
def runChunk (s : Session) (m : Machine) (own : List String) (body : List Stmt) :
    Eval (Scope × Option Raised) := do
  let globals ← s.enterNames own
  let env ← s.newEnv globals
  let act : Eval Flow := inFrame "<toplevel>" false (Eval.stmts (host m).context env body)
  let fault ← try
      let _ ← act
      pure none
    catch e => pure (some e)
  return (← leaveNames s.scope globals, fault)

def after (s : Session) (store : Store) (scope : Scope) : Session × List Bytes :=
  (⟨{ store with prints := #[], active := [] }, scope, s.scripts + 1⟩, store.prints.toList)

def ends (e : Raised) : Bool :=
  match e.why with
  | .aborted | .endless => true
  | _ => false

def feedLone (s : Session) (m : Machine) (e : Expr) : Session × Shown :=
  match checkLone s.knownByLone e with
  | .error why => (s, { err := [Bytes.ofString (why.message file)] })
  | .ok () =>
    match (s.runLone m e).run s.store with
    | .error e store =>
      let (s, printed) := s.after store s.scope
      if ends e then (s, { err := printed, aborted := true })
      else (s, { err := printed ++ failureLines e })
    | .ok v store =>
      let (s, printed) := s.after store s.scope
      let out := match v with
        | .none => []
        | v => Bytes.ofString (datum s.store.objects datumFuel [] v).repr ++ [10]
      (s, { out, err := printed })

def feedChunk (s : Session) (m : Machine) (body : List Stmt) : Session × Shown :=
  match checkScript s.known body with
  | .error why => (s, { err := [Bytes.ofString (why.message file)] })
  | .ok found =>
    if strayFromLoop false body then (s, { aborted := true })
    else
      match (s.runChunk m found.own body).run s.store with
      | .error e store =>
        let (s, printed) := s.after store s.scope
        (s, { err := printed ++ failureLines e })
      | .ok (scope, fault) store =>
        let (s, printed) := s.after store scope
        match fault with
        | none => (s, { err := printed })
        | some e =>
          if ends e then (s, { err := printed, aborted := true })
          else (s, { err := printed ++ failureLines e })

def feed (s : Session) (m : Machine) (body : List Stmt) : Session × Shown :=
  match body with
  | [.expr e] => s.feedLone m e
  | body => s.feedChunk m body

/-- Runs the lines of a session. The number bounds the items. -/
def feedLines (m : Machine) : Nat → Session → List Line → Shown
  | 0, _, _ => {}
  | fuel + 1, s, lines =>
    let read := fun (later : List Bytes) =>
      let used := lines.length - later.length
      (Line.bellsOf (lines.take used), lines.drop used)
    match parseItem (lines.map fun l => l.content ++ [10]) with
    | .error .unfinished => { out := Line.bellsOf lines }
    | .error (.malformed why later) =>
      let (bells, rest) := read later
      let more := feedLines m fuel s rest
      { more with
        out := bells ++ more.out
        err := Bytes.ofString (why.message file) :: more.err }
    | .ok (body, later) =>
      let (bells, rest) := read later
      let (s, shown) := s.feed m body
      if shown.aborted then { shown with out := bells ++ shown.out }
      else
        let more := feedLines m fuel s rest
        { more with
          out := bells ++ shown.out ++ more.out
          err := shown.err ++ more.err }

end Session

def run (m : Machine) (input : Bytes) : Shown :=
  let lines := Line.ofInput input
  Session.feedLines m (lines.length + 1) (start m) lines

end TapeForge.Tap
