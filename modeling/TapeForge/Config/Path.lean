import TapeForge.Config.Notation

/-!
# Paths into documents

A path names a field of a document, and by further steps a field or an element of what is there. It
is written with the tokens of documents: `a.b`, `a."b c"`, `a[0]`. The empty path means the whole
document, and a path that is not well formed reaches nothing.
-/

namespace TapeForge.Config

/-- A step into a document. -/
inductive Selector where
  | field (l : Label)
  | index (i : Nat)
  deriving Repr, DecidableEq

namespace Selector

/-- The step that a name is. Hidden fields cannot be reached. -/
def ofName? (s : Bytes) : Option Selector :=
  match Label.ofName? s with
  | some (.hidden _) => none
  | l => l.map field

/-- The names that cannot start a path. -/
def reserved : List Bytes :=
  ["true", "false", "null", "for", "if", "in", "let"].map Bytes.ofString

/-- The first step of a path, from its token. -/
def ofToken? : Token → Option Selector
  | .name s => if s ∈ reserved then none else ofName? s
  | .text s => some (.field (.plain s))
  | .int i => some (.index i)
  | _ => none

def more? : List Token → Option (List Selector)
  | [] => some []
  | [.lineEnd] => some []
  | .mark .point :: .name s :: rest => do return (← ofName? s) :: (← more? rest)
  | .mark .point :: .text s :: rest => do return .field (.plain s) :: (← more? rest)
  | .mark .openBracket :: .text s :: .mark .closeBracket :: rest => do
    return .field (.plain s) :: (← more? rest)
  | .mark .openBracket :: .int i :: .mark .closeBracket :: rest => do
    return .index i :: (← more? rest)
  | _ => none

end Selector

/-- The steps that a path names; none if it is not well formed. -/
def selectors? (path : Bytes) : Option (List Selector) :=
  if path.isEmpty then some []
  else do
    match ← Token.ofText? path with
    | t :: rest => return (← Selector.ofToken? t) :: (← Selector.more? rest)
    | [] => none

namespace Constraint

/-- What a step reaches. A field that need not be there is not reached. -/
def select? : Selector → Constraint → Option Constraint
  | .field l, fields entries =>
    (entries.find? fun (k, optional, _) => k = l && !optional).map fun (_, _, c) => c
  | .index i, list elems _ => elems[i]?
  | _, _ => none

def find? (path : List Selector) (c : Constraint) : Option Constraint :=
  path.foldlM (fun c s => select? s c) c

end Constraint

end TapeForge.Config
