import TapeForge.Script.Method.Dict
import TapeForge.Script.Method.List
import TapeForge.Script.Method.Set
import TapeForge.Script.Method.Text

/-!
# Methods

Strings, byte strings, lists, dicts and sets have methods. A method is a value of its own, bound to
its owner, until it is called.
-/

namespace TapeForge.Script

open Store

/-- The names of the methods of a value; none if its type has no fields at all. -/
def methodNames? : Value → Option (List String)
  | .text _ => some (TextMethod.table.map Prod.fst)
  | .bytes _ => some (TextMethod.bytesTable.map Prod.fst)
  | .list _ => some (ListMethod.table.map Prod.fst)
  | .dict _ => some (DictMethod.table.map Prod.fst)
  | .set _ => some (SetMethod.table.map Prod.fst)
  | _ => none

def method? (x : Value) (name : String) : Eval (Option Value) := do
  if ((methodNames? x).getD []).contains name then return some (.method x name (← freshId))
  else return none

def field (x : Value) (name : String) : Eval Value := do
  match ← method? x name with
  | some m => return m
  | none =>
    let hint := (methodNames? x).bind fun names =>
      Spelling.nearest (Bytes.ofString name) (names.map Bytes.ofString)
    raise (.noField x.typeName name hint)

def callMethod (owner : Value) (name : String) (args : List Value)
    (named : List (Bytes × Value)) : Eval Value :=
  match owner with
  | .text s => callIn TextMethod.table s
  | .bytes s => callIn TextMethod.bytesTable s
  | .list ref => callIn ListMethod.table ref
  | .dict ref => callIn DictMethod.table ref
  | .set ref => callIn SetMethod.table ref
  | owner => raise (.notCallable owner.typeName)
where
  /-- Calls the method with the name in a table. -/
  callIn {α : Type} (table : MethodTable α) (owner : α) : Eval Value :=
    match table.lookup name with
    | some m => m name owner args named
    | none => raise (.notCallable "method")

end TapeForge.Script
