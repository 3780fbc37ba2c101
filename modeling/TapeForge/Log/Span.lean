import TapeForge.Log.Line

/-!
# Spans

A span is a unit of work with a name of its own. Messages inside of a span carry its name, and an
error that leaves it does too.
-/

namespace TapeForge.Log

/-- The names of the spans around a place, the innermost first. -/
abbrev Context := List Bytes

/-- The attribute that names the present span. -/
def spanAttr (c : Context) : List Attr :=
  c.head?.toList.map fun s => ⟨Bytes.ofString "span", .text s⟩

/-- The lines of a message: one if it matters enough. -/
def emit (least : Level) (l : Logger) (c : Context) (level : Level) (message : Bytes)
    (attrs : List Attr) : List String :=
  if least.rank ≤ level.rank then [l.line level message (attrs ++ spanAttr c)] else []

def startLines (least : Level) (c : Context) (name what : Bytes) : List String :=
  let parent := (c.head?.toList).map fun s => ⟨Bytes.ofString "parent", .text s⟩
  emit least {} (name :: c) .info (Bytes.ofString "new span")
    (⟨Bytes.ofString "what", .text what⟩ :: parent)

/-- The text of an error that leaves the present span. -/
def wrap (c : Context) (message : String) : String :=
  match c with
  | [] => message
  | s :: _ => message ++ "\nspan: " ++ s.toText

end TapeForge.Log
