/-!
# Tables of code points

A property of characters is a table of ascending closed ranges of code points, searched by halving.
-/

namespace TapeForge

namespace CodeRange

/-- The index of the last row that starts at or below `n`, looked for in `lo ≤ i < hi`. -/
def lastBelow (starts : Nat → Nat) (n : Nat) : Nat → Nat → Nat → Nat
  | 0, lo, _ => lo
  | fuel + 1, lo, hi =>
    if hi ≤ lo + 1 then lo
    else
      let mid := (lo + hi) / 2
      if starts mid ≤ n then lastBelow starts n fuel mid hi else lastBelow starts n fuel lo mid

def holds (table : Array (Nat × Nat)) (n : Nat) : Bool :=
  let row := table.getD
    (lastBelow (fun i => (table.getD i (0, 0)).1) n (Nat.log2 table.size + 1) 0 table.size) (0, 0)
  row.1 ≤ n && n ≤ row.2 && 0 < table.size

end CodeRange

end TapeForge
