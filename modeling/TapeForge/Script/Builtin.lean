import TapeForge.Gadget.Branch
import TapeForge.Gadget.Equal
import TapeForge.Gadget.Stack
import TapeForge.Gadget.Switch
import TapeForge.Layout
import TapeForge.Script.Argument

/-!
# The builtins of program scripts

Scripts make ops by calling these. Each takes data and returns an op or a list of ops, or fails. The
constructors of ops and the gadgets panic on a collision of offsets and the like; a builtin recovers
that, and it is a failure of the call.
-/

namespace TapeForge.Script

inductive Builtin where
  | add
  | shift
  | move
  | zero
  | copy
  | loop
  | read
  | write
  | writeN
  | writeS
  | assertZero
  | off
  | ifEqThen
  | ifConseq
  | ifTmps
  | switch
  | push
  | pop
  | initStack
  deriving Repr, DecidableEq

namespace Builtin

def all : List Builtin :=
  [add, shift, move, zero, copy, loop, read, write, writeN, writeS, assertZero, off, ifEqThen,
    ifConseq, ifTmps, switch, push, pop, initStack]

def name : Builtin → String
  | add => "add"
  | shift => "shift"
  | move => "move"
  | zero => "zero"
  | copy => "copy"
  | loop => "loop"
  | read => "read"
  | write => "write"
  | writeN => "write_n"
  | writeS => "write_s"
  | assertZero => "assert_zero"
  | off => "off"
  | ifEqThen => "if_eq_then"
  | ifConseq => "if_conseq"
  | ifTmps => "if_tmps"
  | switch => "switch"
  | push => "push"
  | pop => "pop"
  | initStack => "init_stack"

def ofName? (s : String) : Option Builtin := all.find? (fun b => b.name = s)

def wordAt (values : List (Option Datum)) (i : Nat) (fallback : Int64) : Int64 :=
  match (values[i]?).join with
  | some d =>
    match wordOf d with
    | .ok n => n
    | .error _ => fallback
  | none => fallback

/-- The ops of a parameter; none when it was not given. -/
def opsAt (values : List (Option Datum)) (i : Nat) : Reply CallFault (List Op) :=
  match (values[i]?).join with
  | some d => d.ops.mapError .notOps
  | none => .ok []

def words (args : List Datum) : Except CallFault (List Int64) :=
  args.zipIdx.mapM fun (d, i) => (wordOf d).mapError (.argument i)

def caseOf (entry : Datum × Datum) : Reply CallFault Gadget.Case := do
  let key ← .of ((byteOf entry.1).mapError .keyNotByte)
  let body ← entry.2.ops.mapError (.caseNotOps key)
  return ⟨Int64.ofNat key.toNat, body⟩

def entriesAt (values : List (Option Datum)) (i : Nat) : List (Datum × Datum) :=
  match (values[i]?).join with
  | some (.dict entries) => entries
  | _ => []

def intParam (name : String) : Parameter := ⟨name, .int, false⟩

def opsParam (name : String) : Parameter := ⟨name, .any, true⟩

def run (b : Builtin) (args : List Datum) (named : List (Bytes × Datum)) :
    Reply CallFault Datum :=
  match b with
  | add => do
    Reply.of (takePositional [.int] args named)
    return .op (.add (wordAt (args.map some) 0 0))
  | shift => do
    Reply.of (takePositional [.int] args named)
    return .op (.shift (wordAt (args.map some) 0 0))
  | move => do
    let vs ← .of (takeNamed [intParam "src", intParam "dest"] args named)
    return .op (← .orPanic (Op.move? (wordAt vs 0 0) (wordAt vs 1 0)))
  | zero => do
    Reply.of (takePositional [] args named)
    return .op .zero
  | copy => do
    let vs ← .of (takeNamed [intParam "src", intParam "tmp", intParam "dest"] args named)
    return .op (← .orPanic (Op.copy? (wordAt vs 0 0) (wordAt vs 1 0) (wordAt vs 2 0)))
  | loop => do
    if !named.isEmpty then .error .unexpectedKeywords
    return .op (.loop (← (Datum.opsOf args).mapError .notOps))
  | read => do
    Reply.of (takePositional [] args named)
    return .op .read
  | write => do
    Reply.of (takePositional [] args named)
    return .op .write
  | writeN => do
    let vs ← .of (takeNamed [⟨"char", .any, false⟩, intParam "count", intParam "tmp1",
      intParam "tmp2"] args named)
    let char ← .of ((byteOf ((vs[0]?).join.getD .none)).mapError .notByte)
    return .op (← .orPanic (Op.writeN? char (wordAt vs 1 0) (wordAt vs 2 0) (wordAt vs 3 0)))
  | writeS => do
    Reply.of (takePositional [.text] args named)
    return .op (.writeS (match args with | .text s :: _ => s | _ => []))
  | assertZero => do
    return .op (.assertZero (← .of (words args)))
  | off => do
    if args.isEmpty then .error .missingReference
    match ← Reply.of (words args) with
    | [] => return .list []
    | reference :: targets =>
      return .list ((Offset.shifts reference targets).map fun o => .int o.toInt)
  | ifEqThen => do
    match args with
    | [] => .error .missingLiteral
    | lit :: body =>
      let lit ← .of ((byteOf lit).mapError .notByte)
      let body ← (Datum.opsOf body).mapError .notOps
      return Datum.ofOps (← .orPanic (Gadget.ifEqThen lit body))
  | ifConseq => do
    let vs ← .of (takeNamed [opsParam "tru", opsParam "fals", ⟨"dist", .int, true⟩] args named)
    let yes ← opsAt vs 0
    let no ← opsAt vs 1
    return Datum.ofOps (← .orPanic (Gadget.ifConseq yes no (wordAt vs 2 1)))
  | ifTmps => do
    let vs ← .of (takeNamed [intParam "tmp1", intParam "tmp2", opsParam "tru", opsParam "fals"]
      args named)
    let yes ← opsAt vs 2
    let no ← opsAt vs 3
    return Datum.ofOps (← .orPanic (Gadget.ifTmps (wordAt vs 0 0) (wordAt vs 1 0) yes no))
  | switch => do
    let vs ← .of (takeNamed [intParam "src", intParam "flag", ⟨"cases", .dict, false⟩,
      opsParam "default"] args named)
    let cases ← (entriesAt vs 2).mapM caseOf
    let fallback ← opsAt vs 3
    return Datum.ofOps
      (← .orPanic (Gadget.switch (wordAt vs 0 0) (wordAt vs 1 0) cases fallback))
  | push => do
    Reply.of (takePositional [] args named)
    return Datum.ofOps Gadget.push
  | pop => do
    Reply.of (takePositional [] args named)
    return Datum.ofOps Gadget.pop
  | initStack => do
    Reply.of (takePositional [.int] args named)
    return Datum.ofOps (← .orPanic (Gadget.initStack (wordAt (args.map some) 0 0)))

/-- Calls a builtin. What panics in it with an error fails. -/
def call (b : Builtin) (args : List Datum) (named : List (Bytes × Datum)) :
    Reply CallError Datum :=
  ((b.run args named).mapError fun fault => ⟨b.name, fault⟩).recover fun why => ⟨b.name, .build why⟩

end Builtin

def registers : Datum :=
  .dict (Layout.standard.registers.map fun r => (Datum.text r.name, .int r.offset.toInt))

end TapeForge.Script
