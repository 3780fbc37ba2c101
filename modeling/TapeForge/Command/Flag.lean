import TapeForge.Command.Usage

/-!
# Flags

A flag is a variable that commands set. A value flag is set from the next token by its name and
reset by its name with a dot; a switch is turned on by its name and off by its name with an
exclamation mark before it; a list flag takes one more element each time.
-/

namespace TapeForge.Command

variable {σ : Type}

/-- Defines commands one after the other until one of them has a name that is taken. -/
def Table.defineAll (t : Table σ) : List (Bytes × Command σ) → Table σ × Option Bytes
  | [] => (t, none)
  | (name, c) :: rest =>
    match t.define [name] c with
    | (t, none) => Table.defineAll t rest
    | (t, some clash) => (t, some clash)

def valueFlag (name : Bytes) (type : ParamType) (set : Value → σ → σ) :
    List (Bytes × Command σ) :=
  [(name, .ofAction [type] fun vs s => (set (vs.headD type.zero) s, none)),
    (name ++ [46], .ofAction [] fun _ s => (set type.zero s, none))]

def switchFlag (name : Bytes) (set : Bool → σ → σ) : List (Bytes × Command σ) :=
  [(name, .ofAction [] fun _ s => (set true s, none)),
    (33 :: name, .ofAction [] fun _ s => (set false s, none))]

def listFlag (name : Bytes) (type : ParamType) (add : Value → σ → σ) :
    List (Bytes × Command σ) :=
  [(name, .ofAction [type] fun vs s => (add (vs.headD type.zero) s, none))]

/-- What a flag can hold. -/
inductive Holding where
  | value (type : ParamType)
  | switch
  | list (type : ParamType)

inductive Setting where
  | one (v : Value)
  | many (vs : List Value)
  deriving Inhabited

/-- The content of a flag that has not been used. -/
def Holding.initial : Holding → Setting
  | value t => .one t.zero
  | switch => .one (.bool false)
  | list _ => .many []

abbrev Settings := Bytes → Setting

namespace Settings

def set (name : Bytes) (v : Value) (s : Settings) : Settings := fun x =>
  if x = name then .one v else s x

/-- Adds an element to a list flag. -/
def add (name : Bytes) (v : Value) (s : Settings) : Settings := fun x =>
  if x = name then
    match s x with
    | .many vs => .many (vs ++ [v])
    | .one _ => .many [v]
  else s x

end Settings

def Holding.commands (h : Holding) (name : Bytes) : List (Bytes × Command Settings) :=
  match h with
  | value t => valueFlag name t (Settings.set name)
  | switch => switchFlag name fun b => Settings.set name (.bool b)
  | list t => listFlag name t (Settings.add name)

structure Flags where
  table : Table Settings := Table.initial Settings
  settings : Settings := fun _ => .many []
  names : List Bytes := []

namespace Flags

/-- Defines a flag. If a name is taken the flag is not there, but what was entered before stays. -/
def define (f : Flags) (h : Holding) (name : Bytes) : Flags × Option Bytes :=
  match f.table.defineAll (h.commands name) with
  | (t, none) =>
    ({ table := t
       settings := fun x => if x = name then h.initial else f.settings x
       names := f.names ++ [name] }, none)
  | (t, some clash) => ({ f with table := t }, some clash)

def execute (f : Flags) (tokens : List Bytes) : Flags × Option Failure :=
  let (s, e) := f.table.execute f.settings tokens
  ({ f with settings := s }, e)

def contents (f : Flags) : List Setting := f.names.map f.settings

end Flags

end TapeForge.Command
