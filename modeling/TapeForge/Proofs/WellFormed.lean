import TapeForge.Gadget.Branch
import TapeForge.Gadget.Equal
import TapeForge.Gadget.Stack
import TapeForge.Gadget.Switch
import TapeForge.Proofs.DualSemantics
import TapeForge.Proofs.MergeSort

/-!
# Well-formed ops

An op is well-formed if its kind is defined and the cells that have to be different are. The checked
constructors make sure of that, and a program whose ops are all well-formed has a text, which
compiles. A gadget checks its own arguments first; the ops that it then puts in are ones that their
constructors accept, also where an offset is computed from others.
-/

namespace TapeForge

namespace Op

/-- The offsets of an op that have to be different from each other. -/
def cells : Op → List Offset
  | move src dest => [src, dest]
  | copy src tmp dest => [src, tmp, dest]
  | writeN _ count tmp1 tmp2 => [count, tmp1, tmp2]
  | _ => []

/-- The kind of an op is defined, and its offsets are different where they have to be. -/
structure WellFormed (o : Op) : Prop where
  defined : ∀ kind, o ≠ undefined kind
  distinct : o.cells.Nodup

theorem wellFormed_iff_cells {o : Op} :
    o.WellFormed ↔ (∀ kind, o ≠ undefined kind) ∧ o.cells.Nodup :=
  ⟨fun h => ⟨h.defined, h.distinct⟩, fun h => ⟨h.1, h.2⟩⟩

/-- An op as its constructor makes it, which refuses offsets that coincide. -/
def construct (o : Op) : Except BuildError Op := do
  requireDistinct o.cells
  return o

theorem construct_move (src dest : Offset) : (move src dest).construct = move? src dest := rfl

theorem construct_copy (src tmp dest : Offset) :
    (copy src tmp dest).construct = copy? src tmp dest := rfl

theorem construct_writeN (char : UInt8) (count tmp1 tmp2 : Offset) :
    (writeN char count tmp1 tmp2).construct = writeN? char count tmp1 tmp2 := rfl

theorem construct_eq_ok_iff {o o' : Op} : o.construct = .ok o' ↔ o.cells.Nodup ∧ o = o' := by
  rw [construct, ← requireDistinct_eq_ok_iff]
  cases h : requireDistinct o.cells with
  | error e => simp [bind, Except.bind]
  | ok _ => simp [bind, Except.bind, pure, Except.pure]

theorem wellFormed_iff {o : Op} :
    o.WellFormed ↔ (∀ kind, o ≠ undefined kind) ∧ o.construct = .ok o := by
  rw [construct_eq_ok_iff]
  exact ⟨fun h => ⟨h.defined, h.distinct, rfl⟩, fun h => ⟨h.1, h.2.1⟩⟩

/-! ## Ops all through -/

variable {p q : Op → Prop}

@[simp]
theorem everyIn_nil : EveryIn p [] := by
  rw [EveryIn]
  trivial

@[simp]
theorem everyIn_cons {o : Op} {os : List Op} :
    EveryIn p (o :: os) ↔ o.Every p ∧ EveryIn p os := by
  rw [EveryIn]

theorem everyIn_iff {os : List Op} : EveryIn p os ↔ ∀ o ∈ os, o.Every p := by
  induction os with
  | nil => simp
  | cons o os ih => rw [everyIn_cons, ih, List.forall_mem_cons]

@[simp]
theorem everyIn_append {os os' : List Op} :
    EveryIn p (os ++ os') ↔ EveryIn p os ∧ EveryIn p os' := by
  simp only [everyIn_iff, List.forall_mem_append]

theorem every_loop {body : List Op} :
    (loop body).Every p ↔ p (loop body) ∧ EveryIn p body := by
  rw [Every]

theorem EveryIn.imp (h : ∀ o, p o → q o) (os : List Op) : EveryIn p os → EveryIn q os := by
  refine inductAll (P := fun o => o.Every p → o.Every q)
    (Q := fun os => EveryIn p os → EveryIn q os) ?_ ?_ ?_ ?_ os
  · intro body ih ho
    exact ⟨h _ ho.1, ih ho.2⟩
  · intro o ho hp
    cases o with
    | loop body => exact absurd rfl (ho body)
    | _ => exact h _ (every_of_not_loop ho hp)
  · exact id
  · intro o os iho ihos hp
    exact ⟨iho hp.1, ihos hp.2⟩

@[simp]
theorem every_wellFormed {o : Op} (ho : ∀ body, o ≠ loop body) :
    o.Every WellFormed ↔ o.WellFormed := by
  refine ⟨every_of_not_loop ho, fun h => ?_⟩
  cases o with
  | loop body => exact absurd rfl (ho body)
  | _ => exact h

@[simp]
theorem every_wellFormed_loop {body : List Op} :
    (loop body).Every WellFormed ↔ EveryIn WellFormed body := by
  rw [every_loop, and_iff_right]
  exact ⟨nofun, List.nodup_nil⟩

/-- Well-formed ops have a text, and it compiles. -/
theorem compile_of_wellFormed {os : List Op} (h : EveryIn WellFormed os) :
    ∃ symbols code, render os = .ok symbols ∧ Code.compile (Symbol.text symbols) = .ok code := by
  have hdefined : undefinedKindAll? os = none :=
    undefinedKindAll?_of_every (fun kind hkind => hkind.defined kind rfl) os h
  exact ⟨_, _, render_eq_ok hdefined, Code.compile_block _⟩

end Op

/-! ## Gadgets -/

namespace Gadget

inductive Use where
  | ifEqThen (s : EqScratch) (lit : UInt8) (body : List Op)
  | ifConseq (yes no : List Op) (dist : Offset)
  | ifTmps (tmp1 tmp2 : Offset) (yes no : List Op)
  | switch (src flag : Offset) (cases : List Case) (fallback : List Op)
  | push
  | pop
  | initStack (capacity : Int64)

namespace Use

def ops : Use → Except Op.BuildError (List Op)
  | ifEqThen s lit body => s.ifEqThen lit body
  | ifConseq yes no dist => Gadget.ifConseq yes no dist
  | ifTmps tmp1 tmp2 yes no => Gadget.ifTmps tmp1 tmp2 yes no
  | switch src flag cases fallback => Gadget.switch src flag cases fallback
  | push => .ok Gadget.push
  | pop => .ok Gadget.pop
  | initStack capacity => Gadget.initStack capacity

def bodies : Use → List Op
  | ifEqThen _ _ body => body
  | ifConseq yes no _ | ifTmps _ _ yes no => yes ++ no
  | switch _ _ cases fallback => (cases.map Case.body).flatten ++ fallback
  | push | pop | initStack _ => []

/-- What a gadget checks of its own arguments. -/
def check : Use → Except Op.BuildError Unit
  | ifEqThen s _ _ => Op.requireDistinct [0, s.flag, s.tmp, s.save]
  | ifConseq _ _ dist => Op.requireDistinct [0, dist, 2 * dist]
  | ifTmps tmp1 tmp2 _ _ => Op.requireDistinct [0, tmp1, tmp2]
  | switch src flag cases _ => do
    Op.requireDistinct [src, flag]
    Case.check none (Sorting.byKeyStable Case.key cases)
  | push | pop => .ok ()
  | initStack capacity => if capacity < 0 then .error (.negativeCapacity capacity) else .ok ()

/-- Where a check fails, so does what follows it; where it passes, well-formed ops follow. -/
structure Guards (check : Except Op.BuildError Unit) (ops : Except Op.BuildError (List Op)) :
    Prop where
  error : ∀ e, check = .error e → ops = .error e
  ok : check = .ok () → ∃ os, ops = .ok os ∧ Op.EveryIn Op.WellFormed os

theorem Guards.of_ops {check : Except Op.BuildError Unit} {os : List Op}
    (h : check = .ok () → Op.EveryIn Op.WellFormed os) : Guards check (do check; return os) where
  error := by
    rintro e rfl
    rfl
  ok hc := by
    rw [hc]
    exact ⟨os, rfl, h hc⟩

theorem Guards.of_ok {os : List Op} (h : Op.EveryIn Op.WellFormed os) :
    Guards (.ok ()) (.ok os) :=
  ⟨nofun, fun _ => ⟨os, rfl, h⟩⟩

theorem guards_ifEqThen (s : EqScratch) (lit : UInt8) {body : List Op}
    (h : Op.EveryIn Op.WellFormed body) :
    Guards (Op.requireDistinct [0, s.flag, s.tmp, s.save]) (s.ifEqThen lit body) := by
  refine .of_ops fun hc => ?_
  rw [Op.requireDistinct_eq_ok_iff] at hc
  -- The flag is reached from the scratch cell, so the distance between them counts.
  have hreach : s.flag - s.tmp ≠ 0 := by
    intro hzero
    have heq : s.flag = s.tmp := by grind
    simp [heq] at hc
  simp_all [Op.wellFormed_iff_cells, Op.cells, eq_comm]

theorem guards_ifConseq {yes no : List Op} (dist : Offset)
    (hyes : Op.EveryIn Op.WellFormed yes) (hno : Op.EveryIn Op.WellFormed no) :
    Guards (Op.requireDistinct [0, dist, 2 * dist]) (Gadget.ifConseq yes no dist) := by
  refine .of_ops fun _ => ?_
  simp_all [Op.wellFormed_iff_cells, Op.cells]

theorem guards_ifTmps {yes no : List Op} (tmp1 tmp2 : Offset)
    (hyes : Op.EveryIn Op.WellFormed yes) (hno : Op.EveryIn Op.WellFormed no) :
    Guards (Op.requireDistinct [0, tmp1, tmp2]) (Gadget.ifTmps tmp1 tmp2 yes no) := by
  refine .of_ops fun hc => ?_
  rw [Op.requireDistinct_eq_ok_iff] at hc
  simp_all [Op.wellFormed_iff_cells, Op.cells, eq_comm]

theorem wellFormed_switchChain {fallback : List Op} (h : Op.EveryIn Op.WellFormed fallback)
    (m n prev : Int64) {cases : List Case}
    (hcases : ∀ c ∈ cases, Op.EveryIn Op.WellFormed c.body) :
    Op.EveryIn Op.WellFormed (switchChain (.shift m) (.shift n) fallback prev cases) := by
  induction cases generalizing prev with
  | nil => simp_all [switchChain, Op.wellFormed_iff_cells, Op.cells]
  | cons c rest ih =>
    obtain ⟨hc, hrest⟩ := List.forall_mem_cons.1 hcases
    simp_all [switchChain, Op.wellFormed_iff_cells, Op.cells]

theorem guards_switch {fallback : List Op} (src flag : Offset) {cases : List Case}
    (hcases : ∀ c ∈ cases, Op.EveryIn Op.WellFormed c.body)
    (h : Op.EveryIn Op.WellFormed fallback) :
    Guards (check (.switch src flag cases fallback)) (Gadget.switch src flag cases fallback) := by
  have hsorted : ∀ c ∈ Sorting.byKeyStable Case.key cases, Op.EveryIn Op.WellFormed c.body :=
    fun c hc => hcases c ((Sorting.byKeyStable_perm Case.key cases).mem_iff.1 hc)
  have hchain := wellFormed_switchChain h (flag - src) (src - flag) 0 hsorted
  have henter : Op.EveryIn Op.WellFormed
      [.assertZero [flag], .shift flag, .add 1, .shift (src - flag)] := by
    simp [Op.wellFormed_iff_cells, Op.cells]
  have hleave : Op.EveryIn Op.WellFormed [.shift (-src)] := by
    simp [Op.wellFormed_iff_cells, Op.cells]
  have hops := @Guards.of_ops (check (.switch src flag cases fallback)) _ fun _ =>
    Op.everyIn_append.2 ⟨Op.everyIn_append.2 ⟨henter, hchain⟩, hleave⟩
  rw [check, bind_assoc] at hops
  exact hops

theorem guards_push : Guards (.ok ()) (.ok Gadget.push) :=
  .of_ok (by simp [Gadget.push, Op.wellFormed_iff_cells, Op.cells])

theorem guards_pop : Guards (.ok ()) (.ok Gadget.pop) :=
  .of_ok (by simp [Gadget.pop, Op.wellFormed_iff_cells, Op.cells])

theorem guards_initStack (capacity : Int64) :
    Guards (check (.initStack capacity)) (Gadget.initStack capacity) := by
  rw [check, Gadget.initStack]
  by_cases hneg : capacity < 0
  · rw [if_pos hneg, if_pos hneg]
    exact ⟨fun e he => by cases he; rfl, nofun⟩
  · rw [if_neg hneg, if_neg hneg]
    have hslot : Op.EveryIn Op.WellFormed [.add 1, .shift 1] := by
      simp [Op.wellFormed_iff_cells, Op.cells]
    -- However many slots there are, each is the same two ops.
    have hslots : Op.EveryIn Op.WellFormed
        (List.replicate capacity.toInt.toNat [Op.add 1, Op.shift 1]).flatten := by
      rw [Op.everyIn_iff, List.forall_mem_flatten]
      intro os hos
      rw [List.eq_of_mem_replicate hos]
      exact Op.everyIn_iff.1 hslot
    refine .of_ok (Op.everyIn_append.2 ⟨Op.everyIn_append.2 ⟨?_, hslots⟩, ?_⟩)
    · simp [Op.wellFormed_iff_cells, Op.cells]
    · simp [Op.wellFormed_iff_cells, Op.cells]

/-- A gadget fails where its check does, and otherwise gives ops that are as well-formed as those
it is given. -/
theorem guards (u : Use) (h : Op.EveryIn Op.WellFormed u.bodies) : Guards u.check u.ops := by
  cases u with
  | ifEqThen s lit body => exact guards_ifEqThen s lit h
  | ifConseq yes no dist =>
    obtain ⟨hyes, hno⟩ := Op.everyIn_append.1 h
    exact guards_ifConseq dist hyes hno
  | ifTmps tmp1 tmp2 yes no =>
    obtain ⟨hyes, hno⟩ := Op.everyIn_append.1 h
    exact guards_ifTmps tmp1 tmp2 hyes hno
  | switch src flag cases fallback =>
    obtain ⟨hcases, hfallback⟩ := Op.everyIn_append.1 h
    refine guards_switch src flag (fun c hc => ?_) hfallback
    rw [Op.everyIn_iff] at hcases ⊢
    exact fun o ho => hcases o (List.mem_flatten.2 ⟨_, List.mem_map_of_mem hc, ho⟩)
  | push => exact guards_push
  | pop => exact guards_pop
  | initStack capacity => exact guards_initStack capacity

end Use

end Gadget

end TapeForge
