import TapeForge.Proofs.Cells
import TapeForge.Proofs.Semantics

/-!
# Ops in silence

What single ops do to the cells when no step is counted: the machine in which an op ends, or the
fault it meets, for each way the cells it names may lie.
-/

namespace TapeForge

open Machine Machine.Action Effect

namespace Op

/-- The effect of an op when no step is counted. -/
def quiet (o : Op) : Effect Fault Machine := o.effect (pure ())

def quietAll (os : List Op) : Effect Fault Machine := effectAll (pure ()) os

variable {o : Op} {m m' : Machine}

theorem single_quietAll (os : List Op) : Single (quietAll os) := single_effectAll _ os

theorem quiet_loop (body : List Op) : (loop body).quiet = Loop isOpen (quietAll body) := by
  rw [quiet, effect, pure_bind]
  rfl

theorem quiet_eq (ho : ∀ body, o ≠ loop body) :
    o.quiet = after (perform o) (emission (pure ())) := by
  rw [quiet, effect_of_not_loop _ ho, pure_bind]

theorem quiet_ok (ho : ∀ body, o ≠ loop body) (h : perform o m = .ok [] m') :
    o.quiet m (.ok () m') := by
  rw [quiet_eq ho, after_of_ok h]
  rfl

theorem quiet_error (ho : ∀ body, o ≠ loop body) {e : Fault} (h : perform o m = .error e m') :
    o.quiet m (.error e m') := by
  rw [quiet_eq ho, after_of_error h]

theorem quietAll_cons (o : Op) (os : List Op) :
    quietAll (o :: os) = Seq o.quiet (quietAll os) := by
  rw [quietAll, effectAll]
  rfl

theorem single_quiet (o : Op) : Single o.quiet := by
  have h := single_quietAll [o]
  rw [quietAll_cons, quietAll, effectAll, seq_skip] at h
  exact h

theorem quietAll_append (os us : List Op) :
    quietAll (os ++ us) = Seq (quietAll os) (quietAll us) := by
  induction os with
  | nil =>
      rw [List.nil_append]
      exact (skip_seq _).symm
  | cons o os ih => rw [List.cons_append, quietAll_cons, quietAll_cons, ih, seq_assoc]

-- Where an effect is the goal, it is not to be computed in search of a quantifier.
attribute [irreducible] quiet

end Op

namespace Machine

variable {m : Machine} {s t d : Nat} {src tmp dest : Offset}

/-- Different offsets lead to different cells. -/
theorem index_ne (hs : m.index? (m.dp + src) = some s) (hd : m.index? (m.dp + dest) = some d)
    (h : src ≠ dest) : s ≠ d := by
  rintro rfl
  exact h (Int64.add_right_inj _ |>.1 (index?_inj hs hd))

/-! ## Moves -/

theorem doMove_error (hs : m.index? (m.dp + src) = none) :
    doMove src dest m = .error (.outOfBounds (m.dp + src) m.tape.size) m := by
  rw [doMove, bind_of_error (locate_eq_error hs)]

theorem doMove_of_ne (hs : m.index? (m.dp + src) = some s) (h0 : m.get s ≠ 0) :
    doMove src dest m = (do
      let d ← locate dest
      bump d (m.get s)
      poke s 0 : Action Unit) m := by
  rw [doMove, bind_of_ok (locate_eq_ok hs)]
  exact congrFun (if_pos h0) m

theorem doMove_zero (hs : m.index? (m.dp + src) = some s) (h0 : m.get s = 0) :
    doMove src dest m = .ok () m := by
  rw [doMove, bind_of_ok (locate_eq_ok hs)]
  exact congrFun (if_neg fun h => h h0) m

theorem doMove_dest_error (hs : m.index? (m.dp + src) = some s) (h0 : m.get s ≠ 0)
    (hd : m.index? (m.dp + dest) = none) :
    doMove src dest m = .error (.outOfBounds (m.dp + dest) m.tape.size) m := by
  rw [doMove_of_ne hs h0, bind_of_error (locate_eq_error hd)]

/-- A zero cell may be moved like any other, for it adds nothing. -/
theorem doMove_ok (hs : m.index? (m.dp + src) = some s) (hd : m.index? (m.dp + dest) = some d)
    (hfit : m.width.Fits (m.get d)) :
    doMove src dest m = .ok () ((m.set d (m.width.cut (m.get d + m.get s))).set s 0) := by
  by_cases h0 : m.get s = 0
  · rw [doMove_zero hs h0, h0, UInt64.add_zero, Width.cut_eq_self hfit, set_get, ← h0, set_get]
  · rw [doMove_of_ne hs h0, bind_of_ok (locate_eq_ok hd)]
    rfl

/-! ## Copies -/

theorem copyCells_error (hs : m.index? (m.dp + src) = none) :
    copyCells src tmp dest m = .error (.outOfBounds (m.dp + src) m.tape.size) m := by
  rw [copyCells, bind_of_error (locate_eq_error hs)]

theorem copyCells_zero (hs : m.index? (m.dp + src) = some s) (h0 : m.get s = 0) :
    copyCells src tmp dest m = doMove tmp src m := by
  rw [copyCells, bind_of_ok (locate_eq_ok hs)]
  exact congrFun (if_neg fun h => h h0) m

theorem copyCells_of_ne (hs : m.index? (m.dp + src) = some s) (h0 : m.get s ≠ 0) :
    copyCells src tmp dest m = (do
      let t ← locate tmp
      let d ← locate dest
      bump t (m.get s)
      bump d (m.get s)
      poke s 0
      doMove tmp src : Action Unit) m := by
  rw [copyCells, bind_of_ok (locate_eq_ok hs)]
  exact congrFun (if_pos h0) m

theorem copyCells_tmp_error (hs : m.index? (m.dp + src) = some s) (h0 : m.get s ≠ 0)
    (ht : m.index? (m.dp + tmp) = none) :
    copyCells src tmp dest m = .error (.outOfBounds (m.dp + tmp) m.tape.size) m := by
  rw [copyCells_of_ne hs h0, bind_of_error (locate_eq_error ht)]

theorem copyCells_dest_error (hs : m.index? (m.dp + src) = some s) (h0 : m.get s ≠ 0)
    (ht : m.index? (m.dp + tmp) = some t) (hd : m.index? (m.dp + dest) = none) :
    copyCells src tmp dest m = .error (.outOfBounds (m.dp + dest) m.tape.size) m := by
  rw [copyCells_of_ne hs h0, bind_of_ok (locate_eq_ok ht), bind_of_error (locate_eq_error hd)]

theorem copyCells_ok (hs : m.index? (m.dp + src) = some s) (h0 : m.get s ≠ 0)
    (ht : m.index? (m.dp + tmp) = some t) (hd : m.index? (m.dp + dest) = some d) (htd : t ≠ d) :
    copyCells src tmp dest m =
      doMove tmp src (((m.set t (m.width.cut (m.get t + m.get s))).set d
        (m.width.cut (m.get d + m.get s))).set s 0) := by
  rw [copyCells_of_ne hs h0, bind_of_ok (locate_eq_ok ht), bind_of_ok (locate_eq_ok hd)]
  conv => rhs; rw [← get_set_ne m (m.width.cut (m.get t + m.get s)) htd]
  rfl

/-! ## Ops that are done -/

/-- Ops are followed one at a time. -/
theorem quietAll_step {o : Op} {os : List Op} {m m' : Machine}
    {r : EStateM.Result Fault Machine Unit} (h : o.quiet m (.ok () m'))
    (hos : Op.quietAll os m' r) : Op.quietAll (o :: os) m r := by
  rw [Op.quietAll_cons]
  exact .step h hos

theorem quietAll_nil (m : Machine) : Op.quietAll [] m (.ok () m) := rfl

theorem quiet_shift (m : Machine) (k : Int64) : (Op.shift k).quiet m (.ok () (m.moved k)) :=
  Op.quiet_ok (by simp) rfl

theorem quiet_add {i : Nat} (hi : m.index? m.dp = some i) (k : Int64) :
    (Op.add k).quiet m (.ok () (m.set i (m.width.cut (m.get i + k.toUInt64)))) := by
  refine Op.quiet_ok (by simp) ?_
  rw [perform, bind_of_ok (locate_here hi)]
  rfl

theorem quiet_zero {i : Nat} (hi : m.index? m.dp = some i) :
    Op.zero.quiet m (.ok () (m.set i 0)) := by
  refine Op.quiet_ok (by simp) ?_
  rw [perform, bind_of_ok (locate_here hi)]
  rfl

/-- A move of which the cells and their values are known. -/
theorem quiet_move (m : Machine) {src dest : Offset} {i j : Nat} {v w : UInt64} {width : Width}
    (hwidth : m.width = width) (hs : m.index? (m.dp + src) = some i)
    (hd : m.index? (m.dp + dest) = some j) (hv : m.get i = v) (hw : m.get j = w)
    (hfit : width.Fits w) :
    (Op.move src dest).quiet m (.ok () ((m.set j (width.cut (w + v))).set i 0)) := by
  subst hwidth hv hw
  refine Op.quiet_ok (by simp) ?_
  rw [perform, bind_of_ok (doMove_ok hs hd hfit)]
  rfl

theorem expectZero_ok {i : Nat} (o : Op) {offset : Offset}
    (hi : m.index? (m.dp + offset) = some i) (h0 : m.get i = 0) :
    expectZero o offset m = .ok () m := by
  have hpeek : peek i m = .ok 0 m := congrArg (EStateM.Result.ok · m) h0
  rw [expectZero, bind_of_ok (locate_eq_ok hi), bind_of_ok hpeek]
  rfl

theorem expectZeros_ok (o : Op) {offsets : List Offset}
    (h : ∀ offset ∈ offsets, ∃ i, m.index? (m.dp + offset) = some i ∧ m.get i = 0) :
    expectZeros o offsets m = .ok () m := by
  induction offsets with
  | nil => rfl
  | cons offset rest ih =>
      obtain ⟨i, hi, h0⟩ := h offset (by simp)
      rw [expectZeros, bind_of_ok (expectZero_ok o hi h0)]
      exact ih fun offset ho => h offset (List.mem_cons_of_mem _ ho)

theorem isChecked_eq (m : Machine) : isChecked m = .ok m.checked m := rfl

/-- A precondition that holds is passed, whether it is checked or not. -/
theorem quiet_assertZero {offsets : List Offset}
    (h : ∀ offset ∈ offsets, ∃ i, m.index? (m.dp + offset) = some i ∧ m.get i = 0) :
    (Op.assertZero offsets).quiet m (.ok () m) := by
  refine Op.quiet_ok (by simp) ?_
  rw [perform, bind_of_ok (isChecked_eq m)]
  cases m.checked with
  | true => exact (bind_of_ok (expectZeros_ok _ h)).trans rfl
  | false => rfl

/-- Where the scratch cell is zero, what is copied to it is moved back. -/
theorem copyCells_clear (hs : m.index? (m.dp + src) = some s) (ht : m.index? (m.dp + tmp) = some t)
    (hd : m.index? (m.dp + dest) = some d) (hst : s ≠ t) (hsd : s ≠ d) (htd : t ≠ d)
    (hfit : m.width.Fits (m.get s)) (ht0 : m.get t = 0) (hd0 : m.get d = 0) :
    copyCells src tmp dest m = .ok () (m.set d (m.get s)) := by
  by_cases h0 : m.get s = 0
  · rw [copyCells_zero hs h0, doMove_zero ht ht0, h0, ← hd0, set_get]
  · have hlt := (index?_eq_some_iff.1 hs).2
    have hlt' := (index?_eq_some_iff.1 ht).2
    -- The source is zero in between, so moving the scratch cell back restores it.
    have hcut : m.width.cut (0 + m.get s) = m.get s := by
      rw [UInt64.zero_add, Width.cut_eq_self hfit]
    have hget : (((m.set t (m.get s)).set d (m.get s)).set s 0).get s = 0 :=
      get_set_self _ _ (by simpa using hlt)
    have hget' : (((m.set t (m.get s)).set d (m.get s)).set s 0).get t = m.get s := by
      rw [get_set_ne _ _ hst, get_set_ne _ _ htd.symm, get_set_self _ _ hlt']
    have hback := doMove_ok (m := ((m.set t (m.get s)).set d (m.get s)).set s 0)
      (show Machine.index? _ (_ + tmp) = some t by simpa using ht)
      (show Machine.index? _ (_ + src) = some s by simpa using hs)
      (by rw [hget]; exact Width.fits_zero _)
    rw [copyCells_ok hs h0 ht hd htd, ht0, hd0, hcut, hback, hget, hget', width_set, width_set,
      width_set, hcut, set_set, set_comm _ _ _ hst, set_comm _ _ _ htd.symm, set_set,
      set_comm _ _ _ hsd.symm, set_comm _ _ _ hst.symm, set_get, ← ht0, set_get]

/-- Where the scratch cell and the destination are zero, a copy passes its checks and changes the
destination only. -/
theorem quiet_copy (hs : m.index? (m.dp + src) = some s) (ht : m.index? (m.dp + tmp) = some t)
    (hd : m.index? (m.dp + dest) = some d) (hst : s ≠ t) (hsd : s ≠ d) (htd : t ≠ d)
    (hfit : m.width.Fits (m.get s)) (ht0 : m.get t = 0) (hd0 : m.get d = 0) :
    (Op.copy src tmp dest).quiet m (.ok () (m.set d (m.get s))) := by
  have hcells := copyCells_clear hs ht hd hst hsd htd hfit ht0 hd0
  have hcopy : doCopy (.copy src tmp dest) src tmp dest m = .ok () (m.set d (m.get s)) := by
    rw [doCopy_eq, bind_of_ok (isChecked_eq m)]
    cases m.checked with
    | true =>
        rw [if_pos rfl, bind_of_ok (expectZero_ok _ ht ht0), bind_of_ok (expectZero_ok _ hd hd0)]
        exact hcells
    | false => exact hcells
  refine Op.quiet_ok (by simp) ?_
  rw [perform, bind_of_ok hcopy]
  rfl

/-! ## Emission -/

section Emission

variable {code : UInt8} {char left : Nat}

theorem emitHead_zero (h0 : m.get left = 0) :
    emitHead code char left m = .ok [] (m.set char (m.width.cut (m.get char + -byteCell code))) :=
  congrFun (if_pos h0) m

theorem emitHead_of_ne (h0 : m.get left ≠ 0) :
    emitHead code char left m = .ok [.emitting code char left] m :=
  congrFun (if_neg h0) m

/-- The machine after one byte more. -/
def emitted (m : Machine) (char left : Nat) : Machine :=
  (m.put [(m.get char).toUInt8]).set left (m.get left - 1)

theorem emitTurn_eq (code : UInt8) (hm : m.Masked) (hroom : m.output.room = none)
    (hne : left ≠ char) (h0 : m.get left ≠ 0) :
    emitTurn code char left m =
      (emitHead code char left >>= fun more => pure !more.isEmpty) (m.emitted char left) := by
  have hbump : bump left m.width.mask m = .ok () (m.set left (m.get left - 1)) := by
    show EStateM.Result.ok () (m.set left (m.width.cut (m.get left + m.width.mask))) = _
    rw [Width.cut_add_mask, Width.cut_eq_self (hm.fits_sub_one h0)]
  have hpeek : peek char (m.set left (m.get left - 1)) =
      .ok (m.get char) (m.set left (m.get left - 1)) := by
    rw [← get_set_ne m (m.get left - 1) hne]
    rfl
  have hmask : cellMask m = .ok m.width.mask m := rfl
  rw [emitTurn, bind_of_ok hmask, bind_of_ok hbump,
    bind_of_ok hpeek, bind_of_ok (emit_eq_ok (by exact hroom) _)]
  rfl

/-- Emission ends with nothing left to emit, and the character taken off its cell. -/
theorem loop_emitTurn (hchar : char < m.tape.size) (hleft : left < m.tape.size)
    (hne : left ≠ char) (hm : m.Masked) (hroom : m.output.room = none) (h0 : m.get left ≠ 0) :
    Loop (emitTurn code char left) skip m
      (.ok () (((m.put (List.replicate (m.get left).toNat (m.get char).toUInt8)).set left 0).set
        char (m.width.cut (m.get char + -byteCell code)))) := by
  refine loop_of_turn
    (fun m : Machine => char < m.tape.size ∧ left < m.tape.size ∧ m.Masked ∧ m.output.room = none ∧
      m.get left ≠ 0)
    (fun m => (m.get left).toNat)
    (fun m => ((m.put (List.replicate (m.get left).toNat (m.get char).toUInt8)).set left 0).set
        char (m.width.cut (m.get char + -byteCell code)))
    ?_ ⟨hchar, hleft, hm, hroom, h0⟩
  rintro m ⟨hchar, hleft, hm, hroom, h0⟩
  -- A turn emits one byte and counts the cell down, which is the measure.
  have hturn := emitTurn_eq code hm hroom hne h0
  have hget : (m.emitted char left).get left = m.get left - 1 :=
    get_set_self (m.put _) _ hleft
  have hgetc : (m.emitted char left).get char = m.get char :=
    get_set_ne (m.put _) _ hne
  have hnat := UInt64.toNat_sub_one h0
  by_cases h1 : m.get left - 1 = 0
  · -- The last byte: what is left is zero already, and one byte has been put.
    have hone : (m.get left).toNat = 1 := by
      rw [← hnat, h1]
      rfl
    refine .last ?_
    rw [hturn, bind_of_ok (emitHead_zero (hget.trans h1)), hgetc, hone]
    simp only [emitted, h1]
    rfl
  · have hmore : emitTurn code char left m = .ok true (m.emitted char left) := by
      rw [hturn, bind_of_ok (emitHead_of_ne (by rwa [hget]))]
      rfl
    refine .more hmore rfl ⟨?_, ?_, ?_, hroom, by rwa [hget]⟩ (by rw [hget]; omega) ?_
    · simpa [emitted] using hchar
    · simpa [emitted] using hleft
    · exact Masked.set (m := m.put _) hm left (hm.fits_sub_one h0)
    · have hput : ∀ bs, (m.emitted char left).put bs =
          (m.put ((m.get char).toUInt8 :: bs)).set left (m.get left - 1) := by
        intro bs
        rw [emitted, put_set, put_put]
        rfl
      rw [hget, hgetc, hput, set_set, ← hnat, List.replicate_succ]
      rfl

end Emission

end Machine

end TapeForge
