import TapeForge.Machine.Basic

/-!
# Text runs

Compiled text is run symbol by symbol. Each symbol counts one primitive step first. A failure on the
tape names the symbol at which it happened.
-/

namespace TapeForge

namespace Machine

open TapeForge.Machine.Action

/-- A text run under way: the index of the next symbol, and the machine. -/
structure Walk where
  index : Nat := 0
  machine : Machine

/-- Whether a bracket is followed to its partner: `[` when the cell is zero, `]` when it is not. -/
def follows (s : Symbol) (v : UInt64) : Bool :=
  match s with
  | .opening => v == 0
  | .closing => v != 0
  | _ => false

/-- Does the work of a symbol other than a bracket. -/
def doSymbol (s : Symbol) : Action Unit :=
  match s with
  | .right => shift 1
  | .left => shift (-1)
  | .inc => do
    let i ← locate 0
    bump i 1
  | .dec => do
    let i ← locate 0
    bump i (← fun m => .ok m.width.mask m)
  | .out => do
    let i ← locate 0
    let v ← peek i
    emit [v.toUInt8]
  | .inp => do
    let i ← locate 0
    let b ← readByte
    poke i b.toUInt64
  | .opening | .closing => pure ()

/-- The index after the symbol at `index`. A bracket looks at the current cell. -/
def afterSymbol (s : Symbol) (jump : Option Nat) (index : Nat) : Action Nat :=
  match s with
  | .opening | .closing => do
    let i ← locate 0
    let v ← peek i
    -- A jump leads to the partner, and the symbol behind that one is the next.
    return (if follows s v then jump.getD index else index) + 1
  | _ => return index + 1

/-- Does one symbol: one step is counted, then the work is done. -/
def stepSymbol (s : Symbol) (jump : Option Nat) (index : Nat) : Action Nat := do
  tick
  doSymbol s
  afterSymbol s jump index

/-- A fault as seen from the symbol at an index: only faults on the tape name it. -/
def atSymbol (index : Nat) : Fault → Failure
  | .outOfBounds pos length => ⟨[.symbol index], .outOfBounds pos length⟩
  | e => ⟨[], e⟩

def Walk.step (code : Code) (w : Walk) : Stage Failure Walk :=
  match code.symbols[w.index]? with
  | none => .halt w
  | some s =>
    match stepSymbol s (code.jumps.getD w.index none) w.index w.machine with
    | .ok next m => .next ⟨next, m⟩
    | .error e m => .fail (atSymbol w.index e) ⟨w.index, m⟩

/-- Runs compiled text from its start. -/
def runCode (fuel : Nat) (code : Code) (m : Machine) : Outcome Failure Machine :=
  (iterate (Walk.step code) fuel ⟨0, m⟩).map Walk.machine

/-- Runs a text. Nothing is run when its brackets do not balance. -/
def execText (fuel : Nat) (src : Bytes) (m : Machine) : Outcome Failure Machine :=
  match Code.compile src with
  | .error e => .failed ⟨[], .unmatched e⟩ m
  | .ok code => runCode fuel code m

def runRendered (fuel : Nat) (o : Op) (m : Machine) : Outcome Failure Machine :=
  match Op.render [o] with
  | .error e => .failed ⟨[], .undefinedKind e.kind⟩ m
  | .ok symbols =>
    match Code.compile (Symbol.text symbols) with
    | .error e => .failed ⟨[], .unmatched e⟩ m
    | .ok code => (runCode fuel code m).mapError (Failure.inside (.op o.label))

/-- Runs the text of each op in order, noting each that succeeded. -/
def execRendered (fuel : Nat) : List Op → Machine → Outcome Failure Machine
  | [], m => .done m
  | o :: rest, m =>
    match runRendered fuel o m with
    | .done m => execRendered fuel rest (m.note o)
    | .failed e m => .failed e m
    | .pending m => .pending m

end Machine

end TapeForge
