import TapeForge.Cli.Report
import TapeForge.Machine.SnapshotBytes

/-!
# The program

Reads the files that the options name and the configuration files around them, performs the options
and does what the report says. All decisions are those of `Cli.perform`.
-/

namespace TapeForge.Cli

def faultOf : IO.Error → PathFault
  | .inappropriateType _ code _ => if code = 20 then .notDirectory else .isDirectory
  | .invalidArgument .. => .tooLong
  | _ => .notFound

def readSource (path : Bytes) : IO (Except Bytes Bytes) := do
  try
    let name : String := path.toText
    return .ok (← IO.FS.readBinFile name).data.toList
  catch e =>
    let why := faultOf e
    return .error (refusal (if why = .isDirectory then "read" else "open") path why)

def readPlace (dir : String) : IO Config.Place := do
  let files ← Config.fileNames.mapM fun name => do
    match ← readSource (Bytes.ofString (dir ++ "/") ++ name) with
    | .ok content => return [(name, content)]
    | .error _ => return []
  return ⟨Bytes.ofString dir, files.flatten⟩

/-- The directories that are searched for configuration, the working directory first. -/
def readPlaces : IO (List Config.Place) := do
  let here := toString (← IO.currentDir)
  let home := (← IO.getEnv "HOME").map (· ++ "/.config")
  let user := ((← IO.getEnv "XDG_CONFIG_HOME").filter (· ≠ "")) <|> home
  (here :: user.toList ++ ["/etc"]).mapM readPlace

def readsInput (o : Options) (places : List Config.Place) : Bool :=
  o.tap ||
    match o.choices.liveIn (Config.loadPlaces places) with
    | .ok live => live
    | .error _ => false

def freshSpan : IO Bytes :=
  (List.replicate 26 ()).mapM fun _ => do
    let n ← IO.rand 0 31
    return (if n < 26 then 65 + n else 24 + n).toUInt8

/-- Makes a file. Answers why it cannot be made. -/
def makeFile (path : Bytes) (made : Made) : IO (Option Bytes) := do
  let content := match made with
    | .text content => content
    | .snapshot s => s.encode
  try
    IO.FS.writeBinFile path.toText ⟨content.toArray⟩
    return none
  catch e => return some (refusal "open" path (faultOf e))

/-- Performs options. If a file cannot be made, the options are performed with that known. -/
def act (o : Options) : IO Report := do
  let places ← readPlaces
  let stdin ← if readsInput o places then (← IO.getStdin).readBinToEnd else pure .empty
  let span ← freshSpan
  let sources ← [o.buildFile, o.execFile, o.runFile].mapM fun path => do
    return (path, ← readSource path)
  let read := fun path => (sources.lookup path).getD (.error (refusal "open" path .notFound))
  let world : World := { places, stdin := stdin.data.toList, span, read, place := .ok }
  let report := perform o world
  let refused ← report.made.filterMapM fun (path, made) => do
    return (← makeFile path made).map fun why => (path, why)
  return if refused.isEmpty then report
    else
      let place := fun path =>
        match refused.lookup path with
        | some why => .error why
        | none => .ok path
      perform o { world with place }

end TapeForge.Cli

open TapeForge in
def main (args : List String) : IO UInt32 := do
  let report ← match Cli.parseArgs (args.map Bytes.ofString) with
    | .error report => pure report
    | .ok options => Cli.act options
  (← IO.getStdout).write ⟨report.stdout.toArray⟩
  (← IO.getStderr).write ⟨(report.stderr.flatMap (· ++ [10])).toArray⟩
  return report.exit.toUInt32
