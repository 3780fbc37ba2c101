import TapeForge.Machine.Direct
import TapeForge.Machine.Text
import TapeForge.Proofs.Block
import TapeForge.Proofs.Effect

/-!
# The effects of text and of ops

The effect of a block of text and of a list of ops, by recursion on their shape. The action
`count` stands before every unit of work: with `tick` it counts the steps as the machine does,
with `pure ()` the work is done in silence.
-/

namespace TapeForge

namespace Machine

open TapeForge.Machine.Action TapeForge.Effect

def isOpen : Action Bool := do
  let i ← locate 0
  let v ← peek i
  return v != 0

/-- Copying without its checks. -/
def copyCells (src tmp dest : Offset) : Action Unit := do
  let s ← locate src
  let v ← peek s
  if v ≠ 0 then
    let t ← locate tmp
    let d ← locate dest
    bump t v
    bump d v
    poke s 0
  doMove tmp src

theorem doCopy_eq (o : Op) (src tmp dest : Offset) :
    doCopy o src tmp dest = isChecked >>= fun c =>
      if c then
        expectZero o tmp >>= fun _ => expectZero o dest >>= fun _ => copyCells src tmp dest
      else copyCells src tmp dest := rfl

/-- The largest value of a cell, which is one less than zero. -/
def cellMask : Action UInt64 := fun m => .ok m.width.mask m

/-- Emits one byte more. Whether there are more to come. -/
def emitTurn (code : UInt8) (char left : Nat) : Action Bool := do
  bump left (← cellMask)
  let v ← peek char
  emit [v.toUInt8]
  let more ← emitHead code char left
  return !more.isEmpty

/-- What is left of an op that is no loop: nothing, or bytes to emit. -/
def emission (count : Action Unit) : List Task → Effect Fault Machine
  | [.emitting code char left] => Loop (do count; emitTurn code char left) skip
  | _ => skip

end Machine

open Machine Effect

def Block.effect (count : Action Unit) : Block → Effect Fault Machine
  | nil => skip
  | plain p rest => Seq (act do count; doSymbol p.symbol) (rest.effect count)
  | loop body rest => Seq (Loop (do count; isOpen) (body.effect count)) (rest.effect count)

namespace Op

mutual

def effect (count : Action Unit) : Op → Effect Fault Machine
  | loop body => Loop (do count; isOpen) (effectAll count body)
  | o => after (do count; perform o) (emission count)

def effectAll (count : Action Unit) : List Op → Effect Fault Machine
  | [] => skip
  | o :: os => Seq (effect count o) (effectAll count os)

end

end Op

def Machine.noting (o : Op) : Action Unit := fun m => .ok () (m.note o)

def Op.sequence (f : Op → Effect Fault Machine) : List Op → Effect Fault Machine
  | [] => skip
  | o :: os => Seq (f o) (sequence f os)

/-- Effects of ops in turn, each op noted after it. -/
def Op.inTurn (f : Op → Effect Fault Machine) : List Op → Effect Fault Machine
  | [] => skip
  | o :: os => Seq (f o) (Seq (act (noting o)) (inTurn f os))

theorem Machine.seq_noting_iff (o : Op) (p : Effect Fault Machine) (m : Machine)
    (r : EStateM.Result Fault Machine Unit) : Seq (act (noting o)) p m r ↔ p (m.note o) r :=
  seq_act_iff (a := noting o) rfl r

theorem Block.effect_append (count : Action Unit) (b c : Block) :
    (b ++ c).effect count = Seq (b.effect count) (c.effect count) := by
  induction b with
  | nil => rw [nil_append, effect, skip_seq]
  | plain p rest ih => rw [plain_append, effect, effect, ih, seq_assoc]
  | loop body rest _ ih => rw [loop_append, effect, effect, ih, seq_assoc]

theorem Op.effect_blockAll (count : Action Unit) (os : List Op) :
    (blockAll os).effect count = sequence (fun o => o.block.effect count) os := by
  induction os with
  | nil => rw [blockAll, Block.effect, sequence]
  | cons o os ih => rw [blockAll, Block.effect_append, sequence, ih]

theorem Op.effectAll_eq (count : Action Unit) (os : List Op) :
    effectAll count os = sequence (effect count) os := by
  induction os with
  | nil => rw [effectAll, sequence]
  | cons o os ih => rw [effectAll, sequence, ih]

theorem Block.single_effect (count : Action Unit) (b : Block) : Single (b.effect count) := by
  induction b with
  | nil => exact single_skip
  | plain p rest ih => exact single_seq (single_act _) ih
  | loop body rest ihb ihr => exact single_seq (single_loop ihb) ihr

theorem Machine.single_emission (count : Action Unit) (ts : List Task) :
    Single (emission count ts) := by
  unfold emission
  split
  · exact single_loop single_skip
  · exact single_skip

namespace Op

theorem effect_of_not_loop (count : Action Unit) {o : Op} (h : ∀ body, o ≠ loop body) :
    o.effect count = after (do count; perform o) (emission count) := by
  rw [effect]
  exact h

mutual

/-- Induction on an op: a loop comes after its body, and the other ops have no parts. -/
theorem induct {P : Op → Prop} {Q : List Op → Prop} (hloop : ∀ body, Q body → P (.loop body))
    (hother : ∀ o, (∀ body, o ≠ .loop body) → P o) (hnil : Q [])
    (hcons : ∀ o os, P o → Q os → Q (o :: os)) : ∀ o : Op, P o
  | .loop body => hloop body (inductAll hloop hother hnil hcons body)
  | .add n => hother (.add n) (by simp)
  | .shift n => hother (.shift n) (by simp)
  | .move src dest => hother (.move src dest) (by simp)
  | .zero => hother .zero (by simp)
  | .copy src tmp dest => hother (.copy src tmp dest) (by simp)
  | .read => hother .read (by simp)
  | .write => hother .write (by simp)
  | .writeN char count tmp1 tmp2 => hother (.writeN char count tmp1 tmp2) (by simp)
  | .writeS text => hother (.writeS text) (by simp)
  | .assertZero offsets => hother (.assertZero offsets) (by simp)
  | .undefined kind => hother (.undefined kind) (by simp)

theorem inductAll {P : Op → Prop} {Q : List Op → Prop} (hloop : ∀ body, Q body → P (.loop body))
    (hother : ∀ o, (∀ body, o ≠ .loop body) → P o) (hnil : Q [])
    (hcons : ∀ o os, P o → Q os → Q (o :: os)) : ∀ os : List Op, Q os
  | [] => hnil
  | o :: os =>
      hcons o os (induct hloop hother hnil hcons o) (inductAll hloop hother hnil hcons os)

end

theorem single_effectAll (count : Action Unit) (os : List Op) : Single (effectAll count os) := by
  refine inductAll (P := fun o => Single (o.effect count))
    (Q := fun os => Single (effectAll count os)) ?_ ?_ ?_ ?_ os
  · intro body ih
    rw [effect]
    exact single_loop ih
  · intro o ho
    rw [effect_of_not_loop count ho]
    exact single_after (single_emission count)
  · rw [effectAll]
    exact single_skip
  · intro o os ho hos
    rw [effectAll]
    exact single_seq ho hos

end Op

end TapeForge
