import TapeForge.Config.Knob
import TapeForge.Log.Span

/-!
# Options of the command line

The state that the commands of the command line set, and their table. Machines have their own flags
and messages their own levels; the program adds what to do and with which files.
-/

namespace TapeForge.Cli

open Command

structure Shared where
  choices : Config.Choices := {}
  level : Log.Level := .info
  deriving Repr, DecidableEq

/-- The commands for machines and messages, inside of a state that `on` changes. -/
def Shared.commands {σ : Type} (on : (Shared → Shared) → σ → σ) : List (Bytes × Command σ) :=
  Config.Choices.commands (fun f => on fun s => { s with choices := f s.choices }) ++
    Log.levelCommands fun l => on fun s => { s with level := l }

/-- The table of the commands for machines and messages alone. -/
def Shared.table : Table Shared :=
  ((Table.initial Shared).defineAll (Shared.commands id)).1

/-- What the command line says. An empty path is no path. -/
structure Options extends Shared where
  runFile : Bytes := []
  buildFile : Bytes := []
  execFile : Bytes := []
  outFile : Bytes := []
  input : Bytes := []
  printTape : Int64 := 0
  dumpFile : Bytes := []
  tap : Bool := false
  deriving Repr, DecidableEq

namespace Options

/-- The text that a value is; empty if it is none. -/
def textOfValue : Value → Bytes
  | .text s => s
  | _ => []

def ownCommands : List (Bytes × Command Options) :=
  let path := fun (name : String) (set : Bytes → Options → Options) =>
    valueFlag (Bytes.ofString name) .text fun v => set (textOfValue v)
  path "run" (fun s o => { o with runFile := s }) ++
    path "build" (fun s o => { o with buildFile := s }) ++
    path "exec" (fun s o => { o with execFile := s }) ++
    path "-o" (fun s o => { o with outFile := s }) ++
    path "-input" (fun s o => { o with input := s }) ++
    valueFlag (Bytes.ofString "-print-tape") (.int none)
      (fun v o => { o with printTape := Config.wordOfValue v }) ++
    path "-dump" (fun s o => { o with dumpFile := s }) ++
    switchFlag (Bytes.ofString "-tap") (fun b o => { o with tap := b })

def table : Table Options :=
  ((Table.initial Options).defineAll
    (Shared.commands (fun f o => { o with toShared := f o.toShared }) ++ ownCommands)).1

end Options

end TapeForge.Cli
