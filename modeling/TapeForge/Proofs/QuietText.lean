import TapeForge.Proofs.Cells
import TapeForge.Proofs.Semantics

/-!
# Text in silence

What the texts of shifts, additions and transfer loops do to the cells when no step is counted.
Each lemma names the machine in which a text ends, or the fault it meets; the texts of ops are
then put together from these.
-/

namespace TapeForge

open Machine Machine.Action Effect

/-- The effect of a block when no step is counted. -/
def Block.quiet (b : Block) : Effect Fault Machine := b.effect (pure ())

namespace Block

variable {b c body rest : Block} {p : Plain} {m m₁ : Machine} {e : Fault}
  {r : EStateM.Result Fault Machine Unit}

theorem single_quiet (b : Block) : Single b.quiet := b.single_effect _

theorem quiet_nil (m : Machine) : nil.quiet m (.ok () m) := rfl

theorem quiet_append_ok (h : b.quiet m (.ok () m₁)) (h' : c.quiet m₁ r) :
    (b ++ c).quiet m r := by
  rw [quiet, effect_append]
  exact .step h h'

theorem quiet_append_error (h : b.quiet m (.error e m₁)) : (b ++ c).quiet m (.error e m₁) := by
  rw [quiet, effect_append]
  exact .stop h

theorem quiet_plain_ok (h : doSymbol p.symbol m = .ok () m₁) (h' : rest.quiet m₁ r) :
    (plain p rest).quiet m r := by
  rw [quiet, effect, pure_bind]
  exact .step (act_ok h) h'

theorem quiet_plain_error (h : doSymbol p.symbol m = .error e m₁) :
    (plain p rest).quiet m (.error e m₁) := by
  rw [quiet, effect, pure_bind]
  exact .stop (act_error h)

theorem quiet_loop_ok (h : Loop isOpen body.quiet m (.ok () m₁)) (h' : rest.quiet m₁ r) :
    (loop body rest).quiet m r := by
  rw [quiet, effect, pure_bind]
  exact .step h h'

theorem quiet_loop_error (h : Loop isOpen body.quiet m (.error e m₁)) :
    (loop body rest).quiet m (.error e m₁) := by
  rw [quiet, effect, pure_bind]
  exact .stop h

end Block

namespace Machine

variable {m : Machine} {i : Nat}

/-! ## Symbols at a cell, and off the tape -/

theorem isOpen_eq_ok (h : m.index? m.dp = some i) : isOpen m = .ok (m.get i != 0) m := by
  rw [isOpen, bind_of_ok (locate_here h)]
  rfl

theorem isOpen_eq_error (h : m.index? m.dp = none) :
    isOpen m = .error (.outOfBounds m.dp m.tape.size) m := by
  rw [isOpen, bind_of_error (locate_here_error h)]

theorem isOpen_state {m m' : Machine} {b : Bool} (h : isOpen m = .ok b m') : m' = m := by
  cases hi : m.index? m.dp with
  | some i =>
      rw [isOpen_eq_ok hi] at h
      cases h
      rfl
  | none =>
      rw [isOpen_eq_error hi] at h
      cases h

theorem doSymbol_inc (h : m.index? m.dp = some i) :
    doSymbol .inc m = .ok () (m.set i (m.width.cut (m.get i + 1))) := by
  rw [doSymbol, bind_of_ok (locate_here h)]
  rfl

theorem doSymbol_dec (h : m.index? m.dp = some i) :
    doSymbol .dec m = .ok () (m.set i (m.width.cut (m.get i - 1))) := by
  rw [doSymbol, bind_of_ok (locate_here h), ← Width.cut_add_mask]
  rfl

theorem doSymbol_out (h : m.index? m.dp = some i) (hroom : m.output.room = none) :
    doSymbol .out m = .ok () (m.put [(m.get i).toUInt8]) := by
  rw [doSymbol, bind_of_ok (locate_here h)]
  exact emit_eq_ok hroom _

theorem doSymbol_error {p : Plain} (hr : p ≠ .right) (hl : p ≠ .left)
    (h : m.index? m.dp = none) :
    doSymbol p.symbol m = .error (.outOfBounds m.dp m.tape.size) m := by
  cases p with
  | right => exact absurd rfl hr
  | left => exact absurd rfl hl
  | inc => exact bind_of_error (locate_here_error h)
  | dec => exact bind_of_error (locate_here_error h)
  | out => exact bind_of_error (locate_here_error h)
  | inp => exact bind_of_error (locate_here_error h)

end Machine

/-! ## Shifts and additions -/

theorem Int64.ofNat_toInt_toNat {n : Int64} (h : 0 ≤ n) : Int64.ofNat n.toInt.toNat = n := by
  have hlt := n.toInt_lt
  rw [Int64.le_iff_toInt_le, Int64.toInt_zero] at h
  apply Int64.toInt_inj.1
  rw [Int64.toInt_ofNat_of_lt (by omega)]
  omega

theorem UInt64.ofNat_toInt_toNat {n : Int64} (h : 0 ≤ n) :
    UInt64.ofNat n.toInt.toNat = n.toUInt64 := by
  conv => rhs; rw [← Int64.ofNat_toInt_toNat h]
  rfl

theorem Int64.minValue_lt_iff {n : Int64} :
    Int64.minValue < n ↔ -0x8000000000000000 < n.toInt := by
  have hmin : Int64.minValue.toInt = -0x8000000000000000 := by decide
  rw [Int64.lt_iff_toInt_lt, hmin]

theorem Int64.toInt_neg_of_lt {n : Int64} (h : Int64.minValue < n) : (-n).toInt = -n.toInt := by
  have hlow := Int64.minValue_lt_iff.1 h
  have hhigh := n.toInt_lt
  rw [Int64.toInt_neg]
  apply Int.bmod_eq_of_le_mul_two <;> omega

/-- The opposite of a negative number is positive, the most negative number apart. -/
theorem Int64.neg_nonneg {n : Int64} (hmin : Int64.minValue < n) (h : n < 0) : 0 ≤ -n := by
  rw [Int64.lt_iff_toInt_lt, Int64.toInt_zero] at h
  rw [Int64.le_iff_toInt_le, Int64.toInt_neg_of_lt hmin, Int64.toInt_zero]
  omega

namespace Block

variable {m : Machine} {i : Nat}

theorem quiet_times_right (k : Nat) (m : Machine) :
    (times .right k).quiet m (.ok () (m.moved (Int64.ofNat k))) := by
  induction k generalizing m with
  | zero =>
      have h0 : m.moved (Int64.ofNat 0) = m := m.moved_zero
      rw [h0]
      exact quiet_nil m
  | succ k ih =>
      have hk : m.moved (Int64.ofNat (k + 1)) = (m.moved 1).moved (Int64.ofNat k) := by
        rw [moved_moved, Int64.ofNat_add]
        congr 1
        exact Int64.add_comm _ _
      rw [hk]
      exact quiet_plain_ok (p := .right) rfl (ih (m.moved 1))

theorem quiet_times_left (k : Nat) (m : Machine) :
    (times .left k).quiet m (.ok () (m.moved (-Int64.ofNat k))) := by
  induction k generalizing m with
  | zero =>
      have h0 : m.moved (-Int64.ofNat 0) = m := m.moved_zero
      rw [h0]
      exact quiet_nil m
  | succ k ih =>
      have hk : m.moved (-Int64.ofNat (k + 1)) = (m.moved (-1)).moved (-Int64.ofNat k) := by
        rw [moved_moved, Int64.ofNat_add]
        congr 1
        grind
      rw [hk]
      exact quiet_plain_ok (p := .left) rfl (ih (m.moved (-1)))

theorem quiet_shift {n : Int64} (hn : Int64.minValue < n) (m : Machine) :
    (shift n).quiet m (.ok () (m.moved n)) := by
  unfold shift run
  split
  · rename_i hneg
    have h := quiet_times_left (-n).toInt.toNat m
    rw [Int64.ofNat_toInt_toNat (Int64.neg_nonneg hn hneg), Int64.neg_neg] at h
    exact h
  · rename_i hneg
    have h := quiet_times_right n.toInt.toNat m
    rw [Int64.ofNat_toInt_toNat (Int64.not_lt.1 hneg)] at h
    exact h

theorem quiet_times_inc (k : Nat) {m : Machine} (hi : m.index? m.dp = some i)
    (hfit : m.width.Fits (m.get i)) :
    (times .inc k).quiet m (.ok () (m.set i (m.width.cut (m.get i + UInt64.ofNat k)))) := by
  induction k generalizing m with
  | zero =>
      have h0 : m.get i + UInt64.ofNat 0 = m.get i := UInt64.add_zero _
      rw [h0, Width.cut_eq_self hfit, set_get]
      exact quiet_nil m
  | succ k ih =>
      have hlt := (index?_eq_some_iff.1 hi).2
      have h := ih (m := m.set i (m.width.cut (m.get i + 1))) (by simpa using hi)
        (by rw [get_set_self m _ hlt]; exact m.width.fits_cut _)
      have hk : m.get i + 1 + UInt64.ofNat k = m.get i + UInt64.ofNat (k + 1) := by
        rw [UInt64.ofNat_add, UInt64.add_assoc, UInt64.add_comm 1]
        rfl
      rw [get_set_self m _ hlt, set_set, width_set, Width.cut_cut_add, hk] at h
      exact quiet_plain_ok (p := .inc) (doSymbol_inc hi) h

theorem quiet_times_dec (k : Nat) {m : Machine} (hi : m.index? m.dp = some i)
    (hfit : m.width.Fits (m.get i)) :
    (times .dec k).quiet m (.ok () (m.set i (m.width.cut (m.get i + -UInt64.ofNat k)))) := by
  induction k generalizing m with
  | zero =>
      have h0 : m.get i + -UInt64.ofNat 0 = m.get i := UInt64.add_zero _
      rw [h0, Width.cut_eq_self hfit, set_get]
      exact quiet_nil m
  | succ k ih =>
      have hlt := (index?_eq_some_iff.1 hi).2
      have h := ih (m := m.set i (m.width.cut (m.get i - 1))) (by simpa using hi)
        (by rw [get_set_self m _ hlt]; exact m.width.fits_cut _)
      have hk : m.get i - 1 + -UInt64.ofNat k = m.get i + -UInt64.ofNat (k + 1) := by
        rw [UInt64.ofNat_add]
        grind
      rw [get_set_self m _ hlt, set_set, width_set, Width.cut_cut_add, hk] at h
      exact quiet_plain_ok (p := .dec) (doSymbol_dec hi) h

theorem quiet_add {n : Int64} (hn : Int64.minValue < n) (hi : m.index? m.dp = some i)
    (hfit : m.width.Fits (m.get i)) :
    (add n).quiet m (.ok () (m.set i (m.width.cut (m.get i + n.toUInt64)))) := by
  unfold add run
  split
  · rename_i hneg
    have h := quiet_times_dec (-n).toInt.toNat hi hfit
    rw [UInt64.ofNat_toInt_toNat (Int64.neg_nonneg hn hneg), Int64.toUInt64_neg,
      UInt64.neg_neg] at h
    exact h
  · rename_i hneg
    have h := quiet_times_inc n.toInt.toNat hi hfit
    rw [UInt64.ofNat_toInt_toNat (Int64.not_lt.1 hneg)] at h
    exact h

/-- Adding off the tape fails at the first symbol, if there is one. -/
theorem quiet_add_error {n : Int64} (hn : Int64.minValue < n) (hn0 : n ≠ 0)
    (hi : m.index? m.dp = none) :
    (add n).quiet m (.error (.outOfBounds m.dp m.tape.size) m) := by
  -- The run has a first symbol, and that fails whichever way the run counts.
  have hfail : ∀ (p : Plain) (k : Nat), p ≠ .right → p ≠ .left → k ≠ 0 →
      (times p k).quiet m (.error (.outOfBounds m.dp m.tape.size) m) := by
    intro p k hr hl hk
    cases k with
    | zero => exact absurd rfl hk
    | succ k => exact quiet_plain_error (doSymbol_error hr hl hi)
  have hne : n.toInt ≠ 0 := fun h => hn0 (Int64.toInt_inj.1 h)
  unfold add run
  split
  · rename_i hneg
    rw [Int64.lt_iff_toInt_lt, Int64.toInt_zero] at hneg
    refine hfail .dec _ (by decide) (by decide) ?_
    rw [Int64.toInt_neg_of_lt hn]
    omega
  · rename_i hneg
    rw [Int64.lt_iff_toInt_lt, Int64.toInt_zero] at hneg
    exact hfail .inc _ (by decide) (by decide) (by omega)

end Block

/-! ## Loops that count a cell down -/

namespace Machine

variable {m : Machine} {i : Nat}

theorem doSymbol_dec_of_ne (h : m.index? m.dp = some i) (hm : m.Masked) (hi : m.get i ≠ 0) :
    doSymbol .dec m = .ok () (m.set i (m.get i - 1)) := by
  rw [doSymbol_dec h, Width.cut_eq_self (hm.fits_sub_one hi)]

/-- A loop that takes one off the current cell in each turn comes to its end. -/
theorem loop_of_sub_one {body : Effect Fault Machine} (inv : Machine → Prop)
    (final : Machine → Machine) (hhere : ∀ m, inv m → m.index? m.dp = some i)
    (hlast : ∀ m, inv m → m.get i = 0 → final m = m)
    (hturn : ∀ m, inv m → m.get i ≠ 0 →
      ∃ m', body m (.ok () m') ∧ inv m' ∧ m'.get i = m.get i - 1 ∧ final m' = final m)
    {m : Machine} (hm : inv m) : Loop isOpen body m (.ok () (final m)) := by
  -- The cell itself is the measure: a round takes one from it.
  refine loop_of_turn inv (fun m => (m.get i).toNat) final ?_ hm
  intro s hs
  have hopen := isOpen_eq_ok (hhere s hs)
  by_cases h0 : s.get i = 0
  · refine .last ?_
    rw [hopen, hlast s hs h0, h0]
    rfl
  · obtain ⟨s', hbody, hinv, hget, hfinal⟩ := hturn s hs h0
    have hlt : (s'.get i).toNat < (s.get i).toNat := by
      rw [hget]
      have := UInt64.toNat_sub_one h0
      omega
    refine .more ?_ hbody hinv hlt hfinal
    rw [hopen, bne_iff_ne.2 h0]

end Machine

/-! ## What texts keep -/

namespace Machine

theorem located_of_doSymbol {m m' : Machine} {p : Plain} (hr : p ≠ .right) (hl : p ≠ .left)
    (h : doSymbol p.symbol m = .ok () m') : ∃ i, m.index? m.dp = some i := by
  cases hi : m.index? m.dp with
  | some i => exact ⟨i, rfl⟩
  | none =>
      rw [doSymbol_error hr hl hi] at h
      cases h

/-- Reading changes nothing but the input and its readers. -/
theorem readByte_frame {m m' : Machine} {b : UInt8} (h : readByte m = .ok b m') :
    m' = { m with input := m'.input, cursor := m'.cursor, live := m'.live } := by
  rw [readByte_eq] at h
  cases hr : refill m with
  | error e m₁ =>
      rw [bind_of_error hr] at h
      cases h
  | ok x m₁ =>
      -- A refill never moves the cursor; that is left to the byte taken.
      have hm₁ : m₁ = { m with input := m₁.input, live := m₁.live } := by
        unfold refill at hr
        split at hr
        · cases hr
          rfl
        · split at hr
          · cases hr
            rfl
          · split at hr <;> cases hr <;> rfl
      rw [bind_of_ok hr] at h
      unfold takeByte at h
      split at h <;> cases h <;> rw [hm₁]

/-- Something about machines with masked cells and a reliable output that no symbol can change. -/
structure Kept (P : Machine → Prop) : Prop where
  masked {m : Machine} : P m → m.Masked
  reliable {m : Machine} : P m → m.output.room = none
  set {m : Machine} (i : Nat) {v : UInt64} : P m → m.width.Fits v → P (m.set i v)
  moved {m : Machine} (n : Int64) : P m → P (m.moved n)
  put {m : Machine} (bs : Bytes) : P m → P (m.put bs)
  readByte {m m' : Machine} {b : UInt8} : P m → readByte m = .ok b m' → P m'

namespace Kept

variable {P : Machine → Prop} (h : Kept P) {m m' : Machine}

include h

theorem doSymbol {p : Plain} (hm : P m) (hp : doSymbol p.symbol m = .ok () m') : P m' := by
  cases p with
  | right =>
      cases hp
      exact h.moved 1 hm
  | left =>
      cases hp
      exact h.moved (-1) hm
  | inc =>
      obtain ⟨i, hi⟩ := located_of_doSymbol (by decide) (by decide) hp
      rw [Plain.symbol, doSymbol_inc hi] at hp
      cases hp
      exact h.set i hm (Width.fits_cut _ _)
  | dec =>
      obtain ⟨i, hi⟩ := located_of_doSymbol (by decide) (by decide) hp
      rw [Plain.symbol, doSymbol_dec hi] at hp
      cases hp
      exact h.set i hm (Width.fits_cut _ _)
  | out =>
      obtain ⟨i, hi⟩ := located_of_doSymbol (by decide) (by decide) hp
      rw [Plain.symbol, doSymbol_out hi (h.reliable hm)] at hp
      cases hp
      exact h.put _ hm
  | inp =>
      obtain ⟨i, hi⟩ := located_of_doSymbol (by decide) (by decide) hp
      rw [Plain.symbol, Machine.doSymbol, bind_of_ok (locate_here hi)] at hp
      cases hb : Action.readByte m with
      | error e m₁ =>
          rw [bind_of_error hb] at hp
          cases hp
      | ok b m₁ =>
          rw [bind_of_ok hb] at hp
          cases hp
          exact h.set i (h.readByte hm hb) (Width.fits_byte _ b)

theorem quiet {b : Block} (hm : P m) (hb : b.quiet m (.ok () m')) : P m' := by
  induction b generalizing m m' with
  | nil =>
      cases hb
      exact hm
  | plain p rest ih =>
      rw [Block.quiet, Block.effect, pure_bind] at hb
      obtain ⟨h₁, h₂⟩ | _ := hb
      cases hp : Machine.doSymbol p.symbol m with
      | ok x m₁ =>
          rw [act, after_of_ok hp] at h₁
          cases h₁
          exact ih (h.doSymbol hm hp) h₂
      | error e m₁ =>
          rw [act, after_of_error hp] at h₁
          cases h₁
  | loop body rest ihb ihr =>
      rw [Block.quiet, Block.effect, pure_bind] at hb
      obtain ⟨h₁, h₂⟩ | _ := hb
      refine ihr ?_ h₂
      clear h₂
      generalize hr : EStateM.Result.ok () _ = r at h₁
      induction h₁ with
      | fault _ => cases hr
      | leave hhead =>
          cases hr
          cases isOpen_state hhead
          exact hm
      | stop _ _ => cases hr
      | turn hhead hbody _ ih =>
          cases isOpen_state hhead
          exact ih (ihb hm hbody) hr

end Kept

end Machine

end TapeForge
