import TapeForge.Config.Document

/-!
# Schemas

A schema says for each field which values it may have. It is closed: a document with any other field
does not fit, hidden ones apart. No field has to be there.
-/

namespace TapeForge.Config

structure Schema where
  entries : List (Label × Bool × Constraint)

namespace Schema

/-- A schema of fields that need not be there. -/
def ofFields (fields : List (String × Constraint)) : Schema :=
  ⟨fields.map fun (k, c) => (.plain (Bytes.ofString k), true, c)⟩

/-- The schema that a text writes between braces; none if it is not well formed or contradicts
itself. -/
def ofText? (bs : Bytes) : Option Schema :=
  match Constraint.ofText? ([123] ++ bs ++ [125]) with
  | some (.fields entries) => if Constraint.haveBad entries then none else some ⟨entries⟩
  | _ => none

def allows (s : Schema) : Label → Bool
  | .hidden _ => true
  | l => s.entries.any fun (k, _) => k = l

def covers (s : Schema) : Constraint → Bool
  | .fields entries => entries.all fun (l, optional, _) => optional || s.allows l
  | _ => true

def fits (s : Schema) (c : Constraint) : Bool :=
  s.covers c && !((Constraint.fields s.entries).join c).isBad

end Schema

end TapeForge.Config
