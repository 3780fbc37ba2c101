import TapeForge.Script.Builtin

/-!
# Building programs

A script describes a program by binding the name `program` to ops, in lists nested to any depth. How
scripts are run is left open: an evaluator is given the builtins and the dict of registers, and
tells what a script prints and what its names are bound to in the end.
-/

namespace TapeForge.Script

/-- What scripts find by name. -/
structure Predeclared where
  registers : Datum
  call : Builtin → List Datum → List (Bytes × Datum) → Reply CallError Datum

def predeclared : Predeclared := ⟨registers, Builtin.call⟩

/-- A script that was run: what it printed and the values of its names. -/
structure Ran (ε : Type) where
  prints : List Bytes
  globals : Reply ε (String → Option Datum)

/-- Runs scripts, given the name and the text of one. -/
abbrev Evaluator (ε : Type) := Predeclared → Bytes → Bytes → Ran ε

inductive BuildFailure (ε : Type) where
  | eval (why : ε)
  | noProgram (script : Bytes)
  | notOps (script : Bytes) (why : NotOps)

def BuildFailure.message {ε : Type} (text : ε → String) : BuildFailure ε → String
  | eval why => text why
  | noProgram script => script.toText ++ ": script does not define program"
  | notOps script why => script.toText ++ ": program: " ++ why.message

/-- What a script printed, and its program if it gives one. -/
structure Built (ε : Type) where
  prints : List Bytes
  program : Reply (BuildFailure ε) (List Op)

variable {ε : Type}

def programOf (name : Bytes) (globals : String → Option Datum) :
    Reply (BuildFailure ε) (List Op) :=
  match globals "program" with
  | none => .error (.noProgram name)
  | some d => d.ops.mapError (.notOps name)

def build (eval : Evaluator ε) (name source : Bytes) : Built ε :=
  let ran := eval predeclared name source
  ⟨ran.prints, ran.globals.mapError .eval >>= programOf name⟩

end TapeForge.Script
