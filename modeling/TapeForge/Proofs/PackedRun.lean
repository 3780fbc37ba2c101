import TapeForge.Packed.Run
import TapeForge.Proofs.Cells
import TapeForge.Proofs.PackedLink
import TapeForge.Proofs.Segment

/-!
# Packed runs have the effect of folded text

A run of packed code is a segment for each part of the folded text that it holds: a word for a
lump, and for a loop two jumps, each of which leads past the other one.
-/

namespace TapeForge

open Effect

namespace Packed

/-- The effect of folded text, given how lumps are done and how the current cell is looked at. -/
def Folded.effect {ε σ : Type} (look : EStateM ε σ Bool) (work : Lump → EStateM ε σ Unit) :
    Folded → Effect ε σ
  | nil => skip
  | lump l rest => Seq (act (work l)) (rest.effect look work)
  | loop body rest => Seq (Loop look (body.effect look work)) (rest.effect look work)

theorem Folded.sim_effect {ε σ τ : Type} {R : σ → τ → Prop} {look : EStateM ε σ Bool}
    {look' : EStateM ε τ Bool} {work : Lump → EStateM ε σ Unit}
    {work' : Lump → EStateM ε τ Unit} (hlook : Alike R look look')
    (hwork : ∀ l : Lump, Alike R (work l) (work' l)) (f : Folded) :
    Sim R (f.effect look work) (f.effect look' work') := by
  induction f with
  | nil => exact sim_skip
  | lump l rest ih => exact sim_seq (sim_act (hwork l)) ih
  | loop body rest ihb ihr => exact sim_seq (sim_loop hlook ihb) ihr

/-- The fault behind a stop. A panic has none; no text of the length at issue here comes to one, so
it does not matter what stands for it. -/
def Stop.cause : Stop → Fault
  | fault e => e
  | panic => .stepLimit

/-- A packed run apart from its place in the code. -/
structure Core where
  dp : Int64
  tape : Array UInt64
  width : Width
  input : Option Reader
  output : Buffer

def Core.at (j : Nat) (c : Core) : State := { c with ip := j }

def State.core (s : State) : Core := { s with }

namespace Core

variable (c : Core) (i : Nat)

def index? : Option Nat := (c.at 0).index?

/-- The cell with an index, and the core with another value in it. -/
def get : UInt64 := c.tape.getD i 0

def set (v : UInt64) : Core := { c with tape := c.tape.setIfInBounds i v }

def onCell {α : Type} (f : Nat → Core → EStateM.Result Fault Core α) : EStateM Fault Core α :=
  fun c =>
    match c.index? with
    | none => .error (.outOfBounds c.dp c.tape.size) c
    | some i => f i c

def look : EStateM Fault Core Bool := onCell fun i c => .ok (c.get i != 0) c

def emit (i : Nat) (c : Core) : EStateM.Result Fault Core Unit :=
  let output := c.output.put (c.get i).toUInt8
  if output.broken then .error .writeFailed { c with output } else .ok () { c with output }

def read (i : Nat) (c : Core) : EStateM.Result Fault Core Unit :=
  match c.input with
  | none => .ok () (c.set i 0)
  | some r =>
    let output := c.output.flush
    if output.broken then .error .writeFailed { c with output }
    else
      match r.pending with
      | b :: rest =>
        .ok () { c.set i b.toUInt64 with output, input := some { r with pending := rest } }
      | [] =>
        if r.fails then .error .readFailed { c with output }
        else .ok () { c.set i 0 with output, input := none }

def work : Lump → EStateM Fault Core Unit
  | .add n => onCell fun i c => .ok () (c.set i (c.width.cut (c.get i + n.toUInt64)))
  | .shift n => fun c => .ok () { c with dp := c.dp + n }
  | .clear => onCell fun i c => .ok () (c.set i 0)
  | .out => onCell emit
  | .inp => onCell read

end Core

/-! ## Words -/

/-- A stage goes on, or fails, as a result says. -/
def Follows {α : Type} (leave : α → Core → State) (s : Stage Stop State) :
    EStateM.Result Fault Core α → Prop
  | .ok x c => s = .next (leave x c)
  | .error e c => ∃ t, s = .fail (.fault e) t ∧ t.core = c

variable {code : Assembly} {j : Nat}

/-- A word that is no shift is done on the current cell. -/
theorem step_on_cell {v : Verb} {arg : Int64} (hw : code.words[j]? = some (.make v arg))
    (hv : v ≠ .shift) (harg : Word.Holds arg) (c : Core) :
    step code (c.at j) =
      match c.index? with
      | none => .fail (.fault (.outOfBounds c.dp c.tape.size)) (c.at j)
      | some i => doWord code.far (c.at j) v arg i := by
  have hip : ¬ (c.at j).ip < 0 := Int.not_lt.2 (Int.natCast_nonneg j)
  have hnat : (c.at j).ip.toNat = j := Int.toNat_natCast j
  rw [step, if_neg hip, hnat, hw]
  simp only [Word.verb?_make, Word.arg_make v harg]
  cases v with
  | shift => exact absurd rfl hv
  | _ => rfl

theorem step_shift {arg : Int64} (hw : code.words[j]? = some (.make .shift arg))
    (harg : Word.Holds arg) (c : Core) :
    step code (c.at j) = .next (Core.at (j + 1) { c with dp := c.dp + arg }) := by
  have hip : ¬ (c.at j).ip < 0 := Int.not_lt.2 (Int.natCast_nonneg j)
  have hnat : (c.at j).ip.toNat = j := Int.toNat_natCast j
  rw [step, if_neg hip, hnat, hw]
  simp only [Word.verb?_make, Word.arg_make .shift harg]
  rfl

/-- A step that does something with the current cell, if each stage of it is told. -/
theorem performs_onCell {α : Type} {v : Verb} {arg : Int64}
    (hw : code.words[j]? = some (.make v arg)) (hv : v ≠ .shift) (harg : Word.Holds arg)
    {f : Nat → Core → EStateM.Result Fault Core α} {leave : α → Core → State}
    (h : ∀ i c, Follows leave (doWord code.far (c.at j) v arg i) (f i c)) :
    Performs (step code) Stop.cause State.core (Core.at j) (Core.onCell f) leave := by
  intro c
  have hstep := step_on_cell hw hv harg c
  unfold Core.onCell
  cases hi : c.index? with
  | none =>
      rw [hi] at hstep
      exact ⟨.fault (.outOfBounds c.dp c.tape.size), _, hstep, rfl, rfl⟩
  | some i =>
      rw [hi] at hstep
      have hf := h i c
      dsimp only at hstep ⊢
      cases hr : f i c with
      | ok x c' =>
          rw [hr] at hf
          exact hstep.trans hf
      | error e c' =>
          rw [hr] at hf
          obtain ⟨t, ht, hcore⟩ := hf
          exact ⟨.fault e, t, hstep.trans ht, rfl, hcore⟩

theorem doWord_out (far : Array Int64) (arg : Int64) (i : Nat) (c : Core) :
    Follows (fun _ => Core.at (j + 1)) (doWord far (c.at j) .out arg i) (c.emit i) := by
  have hword : doWord far (c.at j) .out arg i =
      if (c.output.put (c.get i).toUInt8).broken then
        .fail (.fault .writeFailed) { c.at j with output := c.output.put (c.get i).toUInt8 }
      else .next { (c.at j).advance with output := c.output.put (c.get i).toUInt8 } := rfl
  rw [hword]
  unfold Core.emit
  by_cases hb : (c.output.put (c.get i).toUInt8).broken
  · simp only [hb, if_true]
    exact ⟨_, rfl, rfl⟩
  · simp only [hb]
    rfl

theorem doWord_inp (far : Array Int64) (arg : Int64) (i : Nat) (c : Core) :
    Follows (fun _ => Core.at (j + 1)) (doWord far (c.at j) .inp arg i) (c.read i) := by
  have hword : doWord far (c.at j) .inp arg i = readInto (c.at j) i := rfl
  rw [hword]
  obtain ⟨dp, tape, width, input, output⟩ := c
  cases input with
  | none => rfl
  | some r =>
      obtain ⟨pending, fails⟩ := r
      simp only [Core.read, readInto, Core.at]
      by_cases hb : output.flush.broken
      · simp only [hb, if_true]
        exact ⟨_, rfl, rfl⟩
      · cases pending with
        | cons b rest =>
            simp only [hb]
            rfl
        | nil =>
            cases fails with
            | true =>
                simp only [hb]
                exact ⟨_, rfl, rfl⟩
            | false =>
                simp only [hb]
                rfl

theorem performs_lump {l : Lump} (hw : code.words[j]? = some (.make l.verb l.arg))
    (hl : l.Holds) :
    Performs (step code) Stop.cause State.core (Core.at j) (Core.work l)
      fun _ => Core.at (j + 1) := by
  cases l with
  | shift n => exact fun c => step_shift hw hl c
  | add n => exact performs_onCell hw (by simp [Lump.verb]) hl fun i c => rfl
  | clear => exact performs_onCell hw (by decide) hl fun i c => rfl
  | out => exact performs_onCell hw (by decide) hl fun i c => doWord_out _ _ i c
  | inp => exact performs_onCell hw (by decide) hl fun i c => doWord_inp _ _ i c

/-! ## Jumps -/

theorem holds_ofNat {k : Nat} (h : k < 8388608) : Word.Holds (Int64.ofNat k) := by
  rw [Word.Holds, Int64.toInt_ofNat_of_lt (by omega)]
  omega

theorem farJump_eq {far : Array Int64} {k : Nat} {dist : Int64} (hk : k < 8388608)
    (hfar : far[k]? = some dist) (s : State) :
    farJump far s (.ofNat k) = .next (s.jump dist) := by
  have hint : (Int64.ofNat k).toInt = k := Int64.toInt_ofNat_of_lt (by omega)
  have hneg : ¬ Int64.ofNat k < 0 := by
    rw [Int64.lt_iff_toInt_lt, hint, Int64.toInt_zero]
    omega
  rw [farJump, if_neg hneg, hint, Int.toNat_natCast, hfar]

theorem jump_at {dist : Int64} {k : Nat} (h : (j : Int) + dist.toInt + 1 = k) (c : Core) :
    (c.at j).jump dist = c.at k := by
  unfold State.jump Core.at
  rw [h]

/-- A word that jumps on some values of the current cell, near or far. -/
theorem performs_hop {near far : Verb} {dist : Int64} {k : Nat} {leave : Bool → Core → State}
    (taken : UInt64 → Prop) [DecidablePred taken] (hop : Hop code j near far dist)
    (h : (j : Int) + dist.toInt + 1 = k) (hne : near ≠ .shift) (hfe : far ≠ .shift)
    (hnear : ∀ i (c : Core), doWord code.far (c.at j) near dist i =
      .next (if taken (c.get i) then (c.at j).jump dist else c.at (j + 1)))
    (hfar : ∀ e i (c : Core), doWord code.far (c.at j) far e i =
      if taken (c.get i) then farJump code.far (c.at j) e else .next (c.at (j + 1)))
    (hleave : ∀ v : UInt64, leave (v != 0) = if taken v then Core.at k else Core.at (j + 1)) :
    Performs (step code) Stop.cause State.core (Core.at j) Core.look leave := by
  cases hop with
  | near hw hd =>
      -- The distance stands in the word.
      refine performs_onCell hw hne hd fun i c => ?_
      show doWord code.far (c.at j) near dist i = .next (leave (c.get i != 0) c)
      rw [hnear, hleave, jump_at h]
      split <;> rfl
  | @far e hw he hentry =>
      -- The word names the entry of the far table that has the distance.
      refine performs_onCell hw hfe (holds_ofNat he) fun i c => ?_
      show doWord code.far (c.at j) far (.ofNat e) i = .next (leave (c.get i != 0) c)
      rw [hfar, hleave, farJump_eq he hentry, jump_at h]
      split <;> rfl

/-- An opening bracket: past the loop when the current cell is zero. -/
theorem performs_opening {dist : Int64} {k : Nat}
    (hop : Hop code j .jumpZero .farJumpZero dist) (h : (j : Int) + dist.toInt + 1 = k) :
    Performs (step code) Stop.cause State.core (Core.at j) Core.look
      fun b => if b then Core.at (j + 1) else Core.at k := by
  refine performs_hop (· = 0) hop h (by decide) (by decide) (fun _ _ => rfl)
    (fun _ _ _ => rfl) ?_
  intro v
  by_cases h0 : v = 0 <;> simp [h0]

/-- A closing bracket: back into the loop when the current cell is not zero. -/
theorem performs_closing {dist : Int64} {k : Nat}
    (hop : Hop code j .jumpNonZero .farJumpNonZero dist) (h : (j : Int) + dist.toInt + 1 = k) :
    Performs (step code) Stop.cause State.core (Core.at j) Core.look
      fun b => if b then Core.at k else Core.at (j + 1) := by
  refine performs_hop (· ≠ 0) hop h (by decide) (by decide) (fun _ _ => rfl)
    (fun _ _ _ => rfl) ?_
  intro v
  by_cases h0 : v = 0 <;> simp [h0]

/-! ## Runs -/

theorem segment_folded {f : Folded} (hf : f.Holds) (hlen : f.instrs.length < 0x7fffffffffffffff)
    (hplaced : Placed code j f) :
    Segment (step code) Stop.cause State.core (Core.at j) (Core.at (j + f.instrs.length))
      (f.effect Core.look Core.work) := by
  induction f generalizing j with
  | nil => exact Segment.skip _
  | lump l rest ih =>
      simp only [Folded.instrs, List.length_cons] at hlen
      have hnext : j + (Folded.lump l rest).instrs.length = j + 1 + rest.instrs.length := by
        simp only [Folded.instrs, List.length_cons]
        omega
      rw [hnext, Folded.effect]
      exact Segment.seq (Segment.act (performs_lump hplaced.1 hf.1))
        (ih hf.2 (by omega) hplaced.2)
  | loop body rest ihb ihr =>
      obtain ⟨hopening, hbody, hclosing, hrest⟩ := hplaced
      simp only [Folded.instrs, List.length_cons, List.length_append] at hlen
      have hblen : body.instrs.length < 0x7fffffffffffffff := by omega
      have hdist := Folded.toInt_ofNat_length hblen
      have hnext : j + (Folded.loop body rest).instrs.length =
          j + 2 + body.instrs.length + rest.instrs.length := by
        simp only [Folded.instrs, List.length_cons, List.length_append]
        omega
      have hpast : j + 1 + body.instrs.length + 1 = j + 2 + body.instrs.length := by omega
      rw [hnext, Folded.effect]
      -- The instruction pointer moves on after a jump too, so distances are one short of the hop.
      refine Segment.seq (Segment.loop ?_ (ihb hf.1 hblen hbody) ?_) (ihr hf.2 (by omega) hrest)
      · rw [← hpast]
        refine performs_closing hclosing ?_
        rw [Folded.toInt_neg_ofNat_length hblen]
        omega
      · refine performs_opening hopening ?_
        rw [hdist]
        omega

/-- A run of packed code ends as the fold of its text says. -/
theorem ends_iterate {b : Block} (h : b.symbols.length ≤ 16777216) (c : Core)
    (r : EStateM.Result Fault Core Unit) :
    Ends Stop.cause (fun fuel => (iterate (step (ofCode b.code)) fuel (c.at 0)).map State.core) r ↔
      (fold .none b).effect Core.look Core.work c r := by
  obtain ⟨hplaced, hsize⟩ := placed_ofCode h
  have hlen := length_fold_le .none b
  simp only [Pending.weight] at hlen
  refine Segment.ends_iff
    (segment_folded (holds_fold (p := .none) trivial b) (by omega) hplaced) ?_ r
  intro c
  refine ⟨?_, rfl⟩
  have hip : ¬ (c.at (0 + (fold .none b).instrs.length)).ip < 0 :=
    Int.not_lt.2 (Int.natCast_nonneg _)
  have hnone : (ofCode b.code).words[0 + (fold .none b).instrs.length]? = none := by
    rw [Nat.zero_add, ← hsize]
    exact Array.getElem?_size
  have hnat : (c.at (0 + (fold .none b).instrs.length)).ip.toNat =
      0 + (fold .none b).instrs.length := Int.toNat_natCast _
  rw [step, if_neg hip, hnat, hnone]

end Packed

end TapeForge
