import TapeForge.Script.Index

/-!
# Functions and their arguments

A method is a function that belongs to a value. It is given its own name, which its errors tell, its
owner and the arguments of the call. Functions of the language have no owner.
-/

namespace TapeForge.Script

/-- What a method does for its owner. -/
abbrev Method (α : Type) := String → α → List Value → List (Bytes × Value) → Eval Value

abbrev MethodTable (α : Type) := List (String × Method α)

def argAt (args : List Value) (i : Nat) : Value := args.getD i .none

def textArg (args : List Value) (i : Nat) : Bytes :=
  match argAt args i with
  | .text s => s
  | _ => []

def intArg (args : List Value) (i : Nat) (fallback : Int) : Int :=
  match argAt args i with
  | .int n => n
  | _ => fallback

def refuse {α : Type} (callee text : String) : Eval α := naming callee (raise (.plain text))

/-- The elements of a collection have to fit into memory. -/
def roomFor (count : Int) : Eval Unit :=
  if 0x100000000000 ≤ count then raise .aborted else return ()

/-- Calls a value with arguments by position and by name. -/
abbrev Caller := Value → List Value → List (Bytes × Value) → Eval Value

/-- What a function of the language does, given how to call others and its own name. -/
abbrev Native := Caller → String → List Value → List (Bytes × Value) → Eval Value

def Method.ofOwner {α : Type} (f : α → Eval Value) : Method α := fun name owner args named => do
  taking name (takePositional [] args named)
  f owner

end TapeForge.Script
