import TapeForge.Script.Key
import TapeForge.Text.Case

/-!
# Exposed values

What a running program shows of itself to a script: plain data, sequences, maps, records and
pointers. A record shows only the fields whose name starts with a capital letter.
-/

namespace TapeForge.Tap

open Script

/-- A value that is shown to a script. `alien` is a value of a type that scripts cannot have; a
`sequence` that is not `fixed` in length can be no key of a map. -/
inductive Exposed where
  | nothing
  | plain (d : Datum)
  | sequence (fixed : Bool) (elems : List Exposed)
  | map (entries : List (Exposed × Exposed))
  | record (fields : List (String × Exposed))
  | pointer (target : Exposed)
  | alien (type : String)

instance : Inhabited Exposed := ⟨.nothing⟩

/-- Why a value cannot be shown. `badKey` is a map that could not be made. -/
inductive Hidden where
  | alien (type : String)
  | key (why : KeyFault)
  | badKey
  deriving Repr, DecidableEq

def Hidden.message : Hidden → String
  | alien type => "unsupported type for starlark: " ++ type
  | key why => why.message
  | badKey => "bad map key"

namespace Exposed

/-- Whether a field of a record is shown. -/
def isShown (name : String) : Bool :=
  match name.toList with
  | c :: _ => isUpperCase c
  | [] => false

mutual

def isKey : Exposed → Bool
  | sequence fixed elems => fixed && areKeys elems
  | map _ => false
  | record fields => areKeyFields fields
  | plain (.bytes _) => false
  | _ => true

def areKeys : List Exposed → Bool
  | [] => true
  | e :: es => isKey e && areKeys es

def areKeyFields : List (String × Exposed) → Bool
  | [] => true
  | (_, e) :: es => isKey e && areKeyFields es

end

/-- Enters a value into a dict. An equal key is replaced. -/
def enter (key value : Datum) (t : Table (Datum × Datum)) :
    Except Hidden (Table (Datum × Datum)) :=
  let entered := do t.enter (← key.toKey) (key, value) fun _ => (key, value)
  entered.mapError .key

mutual

def toDatum : Exposed → Except Hidden Datum
  | nothing => .ok .none
  | plain d => .ok d
  | sequence _ elems => (toData elems).map .list
  | map entries => do return .dict (← toEntries {} entries).values
  | record fields => do return .dict (← toFields {} fields).values
  | pointer target => toDatum target
  | alien type => .error (.alien type)

def toData : List Exposed → Except Hidden (List Datum)
  | [] => .ok []
  | e :: es => do
    let d ← toDatum e
    return d :: (← toData es)

def toEntries (acc : Table (Datum × Datum)) :
    List (Exposed × Exposed) → Except Hidden (Table (Datum × Datum))
  | [] => .ok acc
  | (k, v) :: rest => do
    if !isKey k then throw .badKey
    let key ← toDatum k
    let value ← toDatum v
    toEntries (← enter key value acc) rest

def toFields (acc : Table (Datum × Datum)) :
    List (String × Exposed) → Except Hidden (Table (Datum × Datum))
  | [] => .ok acc
  | (name, v) :: rest =>
    if isShown name then do
      let value ← toDatum v
      toFields (← enter (.string name) value acc) rest
    else toFields acc rest

end

end Exposed

end TapeForge.Tap
