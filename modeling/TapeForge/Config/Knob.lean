import TapeForge.Command.Flag
import TapeForge.Config.Loader
import TapeForge.Machine.Basic
import TapeForge.Packed.Run

/-!
# Knobs of machines

Each knob is set by a flag or by the configuration. A number from a flag wins unless it is zero; a
switch is on if either turns it on. The mode of the program decides whether machines check
preconditions by themselves.
-/

namespace TapeForge.Config

/-- The mode of a program, by its number. -/
structure Mode where
  code : UInt8
  deriving Repr, DecidableEq

namespace Mode

def production : Mode := ⟨1⟩

def development : Mode := ⟨2⟩

def name (m : Mode) : String :=
  if m = production then "production"
  else if m = development then "development"
  else "Mode(" ++ Decimal.ofNat m.code.toNat ++ ")"

def checked (m : Mode) : Bool := m = development

end Mode

def machineSchema : Schema :=
  let positive := Constraint.kind .int [(.above, .int 0)]
  let natural := Constraint.kind .int [(.atLeast, .int 0)]
  let width := Constraint.choice ([1, 2, 4, 8].map fun n => (false, .atom (.int n)))
  let switch := Constraint.kind .bool []
  .ofFields [("tape_length", positive), ("cell_width", width), ("live_input", switch),
    ("trace", switch), ("trace_cells", natural), ("check_preconditions", switch),
    ("step_limit", natural), ("fast", switch)]

/-- The names of configuration files, the more important first. -/
def fileNames : List Bytes := ["bfdsl.cue", ".bfdsl.cue"].map Bytes.ofString

/-- A directory: its name and its files. -/
structure Place where
  name : Bytes
  files : List (Bytes × Bytes)

/-- The configuration files in directories, in the order of the directories: their paths and
contents. -/
def configFiles (places : List Place) : List (Bytes × Bytes) :=
  places.flatMap fun p =>
    fileNames.filterMap fun f =>
      (p.files.lookup f).map fun content => (p.name ++ [47] ++ f, content)

def loadPlaces (places : List Place) : Loaded :=
  load (some machineSchema) ((configFiles places).map fun (_, content) => some content)

/-- What flags say about the knobs. -/
structure Choices where
  tapeLength : Int64 := 0
  cellWidth : Int64 := 0
  stepLimit : Int64 := 0
  traceCells : Int64 := 0
  live : Bool := false
  trace : Bool := false
  checked : Bool := false
  fast : Bool := false
  deriving Repr, DecidableEq

open Command in
/-- The integer that a value is; zero if it is none. -/
def wordOfValue : Value → Int64
  | .int n => Int64.ofInt n
  | _ => 0

open Command in
/-- The commands that set the knobs, inside of a state that `on` changes. -/
def Choices.commands {σ : Type} (on : (Choices → Choices) → σ → σ) :
    List (Bytes × Command σ) :=
  let number := fun (name : String) (set : Int64 → Choices → Choices) =>
    valueFlag (Bytes.ofString name) (.int none) fun v => on (set (wordOfValue v))
  let switch := fun (name : String) (set : Bool → Choices → Choices) =>
    switchFlag (Bytes.ofString name) fun b => on (set b)
  number "-tape-length" (fun n c => { c with tapeLength := n }) ++
    number "-cell-width" (fun n c => { c with cellWidth := n }) ++
    number "-step-limit" (fun n c => { c with stepLimit := n }) ++
    number "-trace-cells" (fun n c => { c with traceCells := n }) ++
    switch "-live" (fun b c => { c with live := b }) ++
    switch "-trace" (fun b c => { c with trace := b }) ++
    switch "-checked" (fun b c => { c with checked := b }) ++
    switch "-fast" (fun b c => { c with fast := b })

def numberKnob (flag : Int64) (c : Loaded) (path : String) : Except Fault Int64 := do
  let configured ← firstD Constraint.toWord? 0 c (Bytes.ofString path)
  return firstSet 0 [flag, configured]

/-- The knob for a switch. The configuration does not matter when the flag is on. -/
def switchKnob (flag : Bool) (c : Loaded) (path : String) : Except Fault Bool :=
  if flag then .ok true else firstD Constraint.toBool? false c (Bytes.ofString path)

namespace Choices

/-- The length of the tape; zero means the default. -/
def tapeLengthIn (f : Choices) (c : Loaded) : Except Fault Int64 :=
  numberKnob f.tapeLength c "tape_length"

/-- The width of cells; zero means the default. -/
def cellWidthIn (f : Choices) (c : Loaded) : Except Fault Int64 :=
  numberKnob f.cellWidth c "cell_width"

/-- The largest number of steps; zero means no limit. -/
def stepLimitIn (f : Choices) (c : Loaded) : Except Fault Int64 :=
  numberKnob f.stepLimit c "step_limit"

/-- The number of cells in trace messages; zero means the default. -/
def traceCellsIn (f : Choices) (c : Loaded) : Except Fault Int64 :=
  numberKnob f.traceCells c "trace_cells"

def liveIn (f : Choices) (c : Loaded) : Except Fault Bool := switchKnob f.live c "live_input"

def traceIn (f : Choices) (c : Loaded) : Except Fault Bool := switchKnob f.trace c "trace"

def checkedIn (f : Choices) (c : Loaded) : Except Fault Bool :=
  switchKnob f.checked c "check_preconditions"

/-- Whether texts are run as packed words. -/
def fastIn (f : Choices) (c : Loaded) : Except Fault Bool := switchKnob f.fast c "fast"

def machineConfig (f : Choices) (c : Loaded) (mode : Mode) (input : Bytes) (live : Option Reader) :
    Except Fault Machine.Config := do
  let tapeLength ← f.tapeLengthIn c
  let cellWidth ← f.cellWidthIn c
  let trace ← f.traceIn c
  let traceCells ← f.traceCellsIn c
  let checked ← f.checkedIn c
  let stepLimit ← f.stepLimitIn c
  return { tapeLength, cellWidth, input, live, trace, traceCells,
           checked := checked || mode.checked, stepLimit }

/-- Runs a text as packed words on a tape as configured. -/
def execute (f : Choices) (c : Loaded) (fuel : Nat) (source : Bytes) (input : Option Reader) :
    Except Fault (Outcome Packed.Stop Sink) := do
  let length := Machine.orDefault (← f.tapeLengthIn c) Machine.defaultTapeLength
  let width := Machine.orDefault (← f.cellWidthIn c) Machine.defaultCellWidth
  return Packed.execute fuel length width source input {}

end Choices

end TapeForge.Config
