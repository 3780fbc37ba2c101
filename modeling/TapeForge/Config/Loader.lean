import TapeForge.Config.Schema

/-!
# Loading configuration

Documents are loaded in order, the most important first. A value is taken from the first document
that has it. One bad document makes the whole configuration bad.
-/

namespace TapeForge.Config

inductive Fault where
  | badSchema
  | missingFile
  | badDocument
  | misfit
  | wrongType
  deriving Repr, DecidableEq

inductive LoadError where
  | bad (why : Fault)
  | notFound
  deriving Repr, DecidableEq

def LoadError.message : LoadError → String
  | bad _ => "bad configuration"
  | notFound => "value not found"

abbrev Loaded := Except Fault (List Constraint)

def loadDocument (schema : Option Schema) (content : Bytes) : Except Fault Constraint :=
  match Constraint.ofDocument? content with
  | none => .error .badDocument
  | some c =>
    match schema with
    | none => .ok c
    | some s => if s.fits c then .ok c else .error .misfit

/-- Reads documents; a document that is none is a file that is not there. -/
def load (schema : Option Schema) (documents : List (Option Bytes)) : Loaded := do
  let contents ← documents.mapM fun
    | some d => .ok d
    | none => .error .missingFile
  contents.mapM (loadDocument schema)

def values (c : Loaded) (path : Bytes) : Except Fault (List Constraint) :=
  c.map fun roots =>
    match selectors? path with
    | some p => roots.filterMap (Constraint.find? p)
    | none => []

/-- The first value at a path, as `read` takes it. -/
def first? {α : Type} (read : Constraint → Option α) (c : Loaded) (path : Bytes) :
    Except LoadError α :=
  match values c path with
  | .error e => .error (.bad e)
  | .ok [] => .error .notFound
  | .ok (v :: _) =>
    match read v with
    | some a => .ok a
    | none => .error (.bad .wrongType)

def firstD {α : Type} (read : Constraint → Option α) (fallback : α) (c : Loaded) (path : Bytes) :
    Except Fault α :=
  match first? read c path with
  | .ok a => .ok a
  | .error .notFound => .ok fallback
  | .error (.bad e) => .error e

/-- The first value that is not the fallback; the fallback if there is none. -/
def firstSet {α : Type} [DecidableEq α] (fallback : α) (vs : List α) : α :=
  (vs.find? (· ≠ fallback)).getD fallback

end TapeForge.Config
