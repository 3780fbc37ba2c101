import TapeForge.Script.Build
import TapeForge.Script.Call
import TapeForge.Script.Parser

/-!
# Running program scripts

An evaluator of program scripts: a script is read and checked, and then its statements are done one
after the other.
-/

namespace TapeForge.Script

open Store Eval

inductive ScriptError where
  | malformed (script : Bytes) (why : Malformed)
  | eval (why : EvalError)

def ScriptError.message : ScriptError → String
  | malformed script why => why.message script.toText
  | eval why => why.message

/-- The value of a name in program scripts; `regs` is the dict of registers. -/
def builderValue (regs : Value) (x : String) : Option Value :=
  if x = "regs" then some regs
  else if (Builtin.ofName? x).isSome then some (.host x x)
  else universe? x

def Predeclared.callNamed (given : Predeclared) (name : String) (args : List Datum)
    (named : List (Bytes × Datum)) : Reply EvalError Datum :=
  match Builtin.ofName? name with
  | some b => (given.call b args named).mapError .call
  | none => .ok .none

def builder (given : Predeclared) (regs : Value) : Host :=
  ⟨builderValue regs, given.callNamed, true⟩

def beforeBuilding (name : Bytes) : Beforehand :=
  { file := name.toText, given := fun x => (builderValue .none x).isSome }

def runBuilder (given : Predeclared) (names : Globals) (body : List Stmt) : Eval Scope := do
  let regs ← ofDatum true given.registers
  let globals ← newScope names.own
  let loaded ← newScope names.loaded
  let env : Env := ⟨[loaded, globals], ← alloc (.frame []), 0⟩
  let _ ← inFrame "<toplevel>" false (stmts (builder given regs).context env body)
  return globals

def Store.valueIn (s : Store) (globals : Scope) (x : String) : Option Datum :=
  match globals.lookup x with
  | none => none
  | some ref =>
    match s.objects.getD ref default with
    | .cell (some v) => some (datum s.objects datumFuel [] v)
    | _ => none

/-- What a failure in a script is to the one who runs it. -/
def Raised.reply {α : Type} (e : Raised) : Reply ScriptError α :=
  match e.why with
  | .aborted => .panic (.other e.why.message)
  | .endless => .endless
  | why => .error (.eval why)

def runBody (given : Predeclared) (name : Bytes) (body : List Stmt) : Ran ScriptError :=
  match checkScript (beforeBuilding name) body with
  | .error e => ⟨[], .error (.malformed name e)⟩
  | .ok names =>
    if strayFromLoop false body then ⟨[], .panic (.other EvalError.aborted.message)⟩
    else
      match (runBuilder given names body).run {} with
      | .error e s => ⟨s.prints.toList, e.reply⟩
      | .ok globals s => ⟨s.prints.toList, .ok (s.valueIn globals)⟩

def interpreter : Evaluator ScriptError := fun given name source =>
  match parse source with
  | .error (.malformed e _) => ⟨[], .error (.malformed name e)⟩
  | .error .unfinished => ⟨[], .panic (.other EvalError.aborted.message)⟩
  | .ok body => runBody given name body

end TapeForge.Script
