import TapeForge.Text.Case
import TapeForge.Text.Utf8

/-!
# Spelling hints

For a name that is not known, the known name at the least edit distance is offered, if at most half
of the characters differ. Case and underscores do not count.
-/

namespace TapeForge

namespace Spelling

/-- The next row of the table of edit distances. `diag` and `left` are the neighbours of the entry
at hand; the list is the row above from that entry on. -/
def nextRow (c : UInt8) : Nat → Nat → Bytes → List Nat → List Nat
  | diag, left, d :: ds, up :: ups =>
    let cost := if c = d then diag else 1 + min diag (min left up)
    cost :: nextRow c up cost ds ups
  | _, _, _, _ => []

/-- Goes through the rows of the table. -/
def distanceFrom (y : Bytes) : Bytes → List Nat → Nat
  | [], row => row.getLastD 0
  | c :: cs, row =>
    let first := row.headD 0
    distanceFrom y cs ((first + 1) :: nextRow c first (first + 1) y row.tail)

/-- The least number of insertions, deletions and replacements that turn one text into another. -/
def distance (x y : Bytes) : Nat := distanceFrom y x (List.range (y.length + 1))

/-- A name without underscores, in lower case, stray bytes as replacement characters. -/
def fold (s : Bytes) : Bytes :=
  ((Rune.decode s).map Rune.shown).flatMap fun c =>
    if c = '_' then [] else Bytes.ofChar (lowerCase c)

/-- The first candidate at the least distance below `best`. -/
def nearestBelow (x : Bytes) : Nat → Option Bytes → List Bytes → Option Bytes
  | _, found, [] => found
  | best, found, c :: cs =>
    let d := distance x (fold c)
    if d < best then nearestBelow x d (some c) cs else nearestBelow x best found cs

/-- The candidate nearest to a name, if it is near enough. -/
def nearest (name : Bytes) (candidates : List Bytes) : Option Bytes :=
  let x := fold name
  nearestBelow x ((x.length + 1) / 2) none candidates

end Spelling

end TapeForge
