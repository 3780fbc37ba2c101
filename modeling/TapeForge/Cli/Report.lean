import TapeForge.Cli.Options
import TapeForge.Cli.Path
import TapeForge.Machine.Direct
import TapeForge.Machine.Snapshot
import TapeForge.Machine.Text
import TapeForge.Op.Render
import TapeForge.Script.Interpreter
import TapeForge.Tap.Session

/-!
# The command line

What the program writes, shows and answers for some arguments, as a function of the files around it
and its standard input. One of three things is done: run a text, build the text of a script, or
execute the ops of a script.
-/

namespace TapeForge.Cli

/-- What the program finds around it. The places are searched for configuration. `read` gives the
content of a file, and `place` the name of a file that is made, or why that cannot be. -/
structure World where
  places : List Config.Place
  stdin : Bytes
  span : Bytes
  read : Bytes → Except Bytes Bytes
  place : Bytes → Except Bytes Bytes

inductive Made where
  | text (content : Bytes)
  | snapshot (s : Snapshot)

structure Report where
  exit : Nat := 0
  stdout : Bytes := []
  stderr : List Bytes := []
  made : List (Bytes × Made) := []

/-- The end of a run by an error, which names the span. -/
def Report.failed (r : Report) (w : World) (message : Bytes) : Report :=
  { r with
    exit := 1
    stderr := r.stderr ++ [message, Bytes.ofString "span: " ++ w.span] }

/-- The end of a run that cannot go on, by a bad configuration or a script that panics. -/
def Report.broken (r : Report) : Report :=
  { r with exit := 2, stderr := r.stderr ++ [Bytes.ofString "panic"] }

def Report.say (r : Report) (lines : List String) : Report :=
  { r with stderr := r.stderr ++ lines.map Bytes.ofString }

def Report.write (r : Report) (bs : Bytes) : Report := { r with stdout := r.stdout ++ bs }

def message (o : Options) (level : Log.Level) (text : Bytes) (attrs : List (String × Log.Content)) :
    List String :=
  Log.emit o.level {} [] level text (attrs.map fun (k, v) => ⟨Bytes.ofString k, v⟩)

def spanMessage (o : Options) (w : World) (level : Log.Level) (text : String)
    (attrs : List (String × Log.Content)) : List String :=
  Log.emit o.level {} [w.span] level (Bytes.ofString text)
    (attrs.map fun (k, v) => ⟨Bytes.ofString k, v⟩)

def stepFuel : Nat := 1000000000000000

def traceLines (o : Options) (m : Machine) : List String :=
  m.records.toList.flatMap fun r =>
    message o .debug (Bytes.ofString "trace")
      [("op", .text (Bytes.ofString r.op)), ("dp", .int r.dp.toInt),
        ("tape", .text (Bytes.ofString r.tape))]

/-- Goes on with the program of a script, after the messages of its prints. -/
def withScript (o : Options) (w : World) (r : Report) (path : Bytes)
    (f : Report → List Op → Report) : Report :=
  match w.read path with
  | .error e => r.failed w e
  | .ok source =>
    let built := Script.build Script.interpreter path source
    let r := r.say (built.prints.flatMap fun p => message o .info p [("script", .text path)])
    match built.program with
    | .ok ops => f r ops
    | .error e => r.failed w (Bytes.ofString (e.message Script.ScriptError.message))
    | .panic _ | .endless => r.broken

/-- Taps a machine after its run. What the machine read of the input is gone. -/
def tapMachine (o : Options) (w : World) (r : Report) (m : Machine) (read : Bool) : Report :=
  let names := Log.Content.words (Tap.names.map Bytes.ofString)
  let shown := Tap.run m (if read then [] else w.stdin)
  let r := r.say (spanMessage o w .info "tap: machine" [("globals", names)])
  let r := { r with stderr := r.stderr ++ shown.err, stdout := r.stdout ++ shown.out }
  if shown.aborted then r.broken else r.say (spanMessage o w .info "tap end: machine" [])

/-- Shows, saves and taps a machine after its run, as asked. -/
def finish (o : Options) (w : World) (r : Report) (m : Machine) (read : Bool) : Report :=
  let r := if 0 < o.printTape then r.say [m.display o.printTape] else r
  let tapped := fun (r : Report) => if o.tap then tapMachine o w r m read else r
  if o.dumpFile.isEmpty then tapped r
  else
    match w.place o.dumpFile with
    | .error why => r.failed w why
    | .ok name => tapped { r with made := r.made ++ [(name, .snapshot m.snapshot)] }

def afterRun (o : Options) (w : World) (r : Report) (live : Bool)
    (result : Outcome Failure Machine) : Report :=
  let m := result.state
  let read := live && (m.live.map Reader.pending) ≠ some w.stdin
  let r := (r.say (traceLines o m)).write m.output.bytes.toList
  match result with
  | .done m => finish o w r m read
  | .failed e _ => r.failed w (Bytes.ofString e.message)
  | .pending _ => r.failed w (Bytes.ofString "run did not end")

/-- What a run is made of once the configuration is known. -/
structure Setup where
  fast : Bool
  live : Bool
  machine : Machine.Config
  loaded : Config.Loaded

def setup (o : Options) (w : World) : Except Config.Fault Setup := do
  let loaded := Config.loadPlaces w.places
  let fast ← o.choices.fastIn loaded
  let live ← o.choices.liveIn loaded
  let reader := if live then some ⟨w.stdin, false⟩ else none
  let machine ← o.choices.machineConfig loaded .production o.input reader
  return { fast, live, machine, loaded }

def configLines (o : Options) (w : World) : List String :=
  match (Config.configFiles w.places).map Prod.fst with
  | [] => []
  | paths => message o .info (Bytes.ofString "config file") [("paths", .words paths)]

def buildCommand (o : Options) (w : World) (r : Report) : Report :=
  withScript o w r o.buildFile fun r ops =>
    match Op.render ops with
    | .error e => r.failed w (Bytes.ofString e.message)
    | .ok symbols =>
      let text := Bytes.ofString (Symbol.string symbols) ++ [10]
      if o.outFile.isEmpty then r.write text
      else
        match w.place o.outFile with
        | .error why => r.failed w why
        | .ok name => { r with made := r.made ++ [(name, .text text)] }

def execCommand (o : Options) (w : World) (r : Report) (s : Setup) : Report :=
  withScript o w r o.execFile fun r ops =>
    match Machine.ofConfig s.machine with
    | .error e => r.failed w (Bytes.ofString e.message)
    | .ok m => afterRun o w r s.live (m.exec stepFuel ops)

/-- Runs a text as packed words. -/
def fastCommand (o : Options) (w : World) (r : Report) (s : Setup) (source : Bytes) : Report :=
  let r := r.say (spanMessage o w .debug "fast path" [("file", .text o.runFile)])
  let input := o.input ++ (if s.live then w.stdin else [])
  match o.choices.execute s.loaded stepFuel source (some ⟨input, false⟩) with
  | .error _ => r.broken
  | .ok result =>
    let r := r.write result.state.bytes.toList
    match result.error? with
    | some (.fault e) => r.failed w (Bytes.ofString e.message)
    | some .panic => r.broken
    | none => r

def runCommand (o : Options) (w : World) (r : Report) (s : Setup) : Report :=
  match w.read o.runFile with
  | .error e => r.failed w e
  | .ok source =>
    if s.fast then fastCommand o w r s source
    else
      match Machine.ofConfig s.machine with
      | .error e => r.failed w (Bytes.ofString e.message)
      | .ok m => afterRun o w r s.live (m.execText stepFuel source)

def configured (o : Options) (w : World) (r : Report) (f : Report → Setup → Report) : Report :=
  let r := r.say (configLines o w)
  match setup o w with
  | .error _ => r.broken
  | .ok s => f r s

/-- Does what the options say: build before execute, execute before run. -/
def perform (o : Options) (w : World) : Report :=
  let started := fun (what : String) =>
    ({} : Report).say (Log.startLines o.level [] w.span (Bytes.ofString what))
  if !o.buildFile.isEmpty then buildCommand o w (started "build")
  else if !o.execFile.isEmpty then configured o w (started "exec") (execCommand o w)
  else configured o w (started "run") (runCommand o w)

/-- What is said when there is nothing to do. -/
def nothingToDo : Bytes :=
  Bytes.ofString "one of run <file.bf>, build <script.star> or exec <script.star> is required"

def parseArgs (args : List Bytes) : Except Report Options :=
  match Options.table.execute {} args with
  | (_, some (.action _ .help)) => .error { stderr := Options.table.usageLines }
  | (_, some e) => .error { exit := 2, stderr := [Bytes.ofString e.message] }
  | (o, none) =>
    if o.runFile.isEmpty && o.buildFile.isEmpty && o.execFile.isEmpty then
      .error { exit := 2, stderr := nothingToDo :: Options.table.usageLines }
    else .ok o

def run (args : List Bytes) (w : World) : Report :=
  match parseArgs args with
  | .error r => r
  | .ok o => perform o w

end TapeForge.Cli
