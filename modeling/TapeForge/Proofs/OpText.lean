import TapeForge.Proofs.DirectCells
import TapeForge.Proofs.Transfer

/-!
# Each op and its text

An op that is no loop is done at once, its text one unit at a time. From a machine with masked
cells, with checks off and with a reliable output, both end in the same machine, or both meet the
same fault after the same output. The cells at the fault may differ: the text stops in the middle
of its work.
-/

namespace TapeForge

open Machine Machine.Action Effect

/-! ## Offsets and values in range -/

/-- Less than `2 ^ 62` away from zero, so that differences do not overflow. -/
def Small (n : Int64) : Prop := -0x4000000000000000 < n.toInt ∧ n.toInt < 0x4000000000000000

instance (n : Int64) : Decidable (Small n) :=
  inferInstanceAs (Decidable (_ ∧ _))

namespace Small

variable {a b : Int64}

theorem zero : Small 0 := by decide

theorem min_lt (h : Small a) : Int64.minValue < a := by
  have := h.1
  rw [Int64.minValue_lt_iff]
  omega

theorem sub_min_lt (ha : Small a) (hb : Small b) : Int64.minValue < a - b := by
  obtain ⟨ha₁, ha₂⟩ := ha
  obtain ⟨hb₁, hb₂⟩ := hb
  have h : (a - b).toInt = a.toInt - b.toInt := by
    rw [Int64.toInt_sub]
    apply Int.bmod_eq_of_le_mul_two <;> omega
  rw [Int64.minValue_lt_iff]
  omega

theorem neg_min_lt (h : Small a) : Int64.minValue < -a := by
  have := h.2
  rw [Int64.minValue_lt_iff, Int64.toInt_neg_of_lt h.min_lt]
  omega

theorem ofByte (b : UInt8) : Small (Int64.ofNat b.toNat) := by
  have := b.toNat_lt
  rw [Small, Int64.toInt_ofNat_of_lt (by omega)]
  omega

end Small

theorem toUInt64_ofByte (b : UInt8) : (Int64.ofNat b.toNat).toUInt64 = byteCell b := by
  rw [byteCell, ← UInt8.toNat_toUInt64]
  exact UInt64.ofNat_toNat

/-! ## Machines from which both are run -/

namespace Machine

/-- Cells within the mask, checks off, and an output that never fails. -/
structure Ready (m : Machine) : Prop where
  masked : m.Masked
  unchecked : m.checked = false
  reliable : m.output.room = none

namespace Ready

variable {m : Machine}

theorem set (h : m.Ready) (i : Nat) {v : UInt64} (hv : m.width.Fits v) : (m.set i v).Ready :=
  ⟨h.masked.set i hv, h.unchecked, h.reliable⟩

theorem moved (h : m.Ready) (n : Int64) : (m.moved n).Ready :=
  ⟨h.masked, h.unchecked, h.reliable⟩

theorem put (h : m.Ready) (bs : Bytes) : (m.put bs).Ready :=
  ⟨h.masked, h.unchecked, h.reliable⟩

end Ready

/-- A machine in which some cells have been written. -/
structure Written (m m' : Machine) : Prop where
  frame : m' = { m with tape := m'.tape }
  size : m'.tape.size = m.tape.size
  masked : m'.Masked

namespace Written

variable {m m' : Machine}

theorem refl (h : m.Masked) : Written m m := ⟨rfl, rfl, h⟩

theorem set (h : Written m m') (i : Nat) {v : UInt64} (hv : m.width.Fits v) :
    Written m (m'.set i v) := by
  have hw : m'.width = m.width := by rw [h.frame]
  refine ⟨?_, (size_set ..).trans h.size, h.masked.set i (hw ▸ hv)⟩
  conv => lhs; rw [h.frame]
  rfl

theorem dp (h : Written m m') : m'.dp = m.dp := by rw [h.frame]

theorem output (h : Written m m') : m'.output = m.output := by rw [h.frame]

theorem ready (h : Written m m') (hm : m.Ready) : m'.Ready :=
  ⟨h.masked, by rw [h.frame]; exact hm.unchecked, by rw [h.output]; exact hm.reliable⟩

theorem index? (h : Written m m') (p : Int64) : m'.index? p = m.index? p := by
  simp only [Machine.index?, h.size]

theorem trans {m'' : Machine} (h : Written m m') (h' : Written m' m'') : Written m m'' :=
  ⟨by rw [h'.frame, h.frame], h'.size.trans h.size, h'.masked⟩

end Written

theorem written_doMove {m m' : Machine} {src dest : Offset} (hm : m.Masked)
    (h : doMove src dest m = .ok () m') :
    Written m m' ∧ ∃ s, m.index? (m.dp + src) = some s := by
  cases hs : m.index? (m.dp + src) with
  | none =>
      rw [doMove_error hs] at h
      cases h
  | some s =>
      refine ⟨?_, s, rfl⟩
      by_cases h0 : m.get s = 0
      · rw [doMove_zero hs h0] at h
        cases h
        exact .refl hm
      · cases hd : m.index? (m.dp + dest) with
        | none =>
            rw [doMove_dest_error hs h0 hd] at h
            cases h
        | some d =>
            rw [doMove_ok hs hd (hm.fits d)] at h
            cases h
            exact ((Written.refl hm).set d (Width.fits_cut _ _)).set s (Width.fits_zero _)

theorem written_copyCells {m m' : Machine} {src tmp dest : Offset} (hm : m.Masked)
    (htd : tmp ≠ dest) (h : copyCells src tmp dest m = .ok () m') :
    Written m m' ∧ ∃ t, m.index? (m.dp + tmp) = some t := by
  cases hs : m.index? (m.dp + src) with
  | none =>
      rw [copyCells_error hs] at h
      cases h
  | some s =>
      -- Where the source is zero, only the scratch cell is moved back.
      by_cases h0 : m.get s = 0
      · rw [copyCells_zero hs h0] at h
        exact written_doMove hm h
      · cases ht : m.index? (m.dp + tmp) with
        | none =>
            rw [copyCells_tmp_error hs h0 ht] at h
            cases h
        | some t =>
            cases hd : m.index? (m.dp + dest) with
            | none =>
                rw [copyCells_dest_error hs h0 ht hd] at h
                cases h
            | some d =>
                rw [copyCells_ok hs h0 ht hd (index_ne ht hd htd)] at h
                have hw := (((Written.refl hm).set t (Width.fits_cut _ (m.get t + m.get s))).set d
                  (Width.fits_cut _ (m.get d + m.get s))).set s (Width.fits_zero _)
                exact ⟨hw.trans (written_doMove hw.masked h).1, t, rfl⟩

end Machine

/-! ## Actions and texts -/

/-- What an action comes to, a text comes to as well, with its data pointer off by `c`. A fault
finds the same output. -/
def Mirrors (c : Int64) (r : EStateM.Result Fault Machine Unit)
    (q : EStateM.Result Fault Machine Unit → Prop) : Prop :=
  match r with
  | .ok _ m => q (.ok () (m.moved c))
  | .error e m => ∃ n, q (.error e n) ∧ m.output = n.output

namespace Mirrors

theorem of_ok {m : Machine} {q : EStateM.Result Fault Machine Unit → Prop} (h : q (.ok () m)) :
    Mirrors 0 (.ok () m) q := by
  show q (.ok () (m.moved 0))
  rwa [moved_zero]

variable {c c' k : Int64} {r : EStateM.Result Fault Machine Unit} {b body : Block} {n : Machine}

theorem append_ok {b' : Block} {n' : Machine} (hb : b.quiet n (.ok () n'))
    (h : Mirrors c r (b'.quiet n')) : Mirrors c r ((b ++ b').quiet n) := by
  cases r with
  | ok _ m => exact Block.quiet_append_ok hb h
  | error e m =>
      obtain ⟨n₁, hn₁, hout⟩ := h
      exact ⟨n₁, Block.quiet_append_ok hb hn₁, hout⟩

theorem shift_append (hk : Int64.minValue < k) (h : Mirrors c r (b.quiet (n.moved k))) :
    Mirrors c r ((Block.shift k ++ b).quiet n) :=
  append_ok (Block.quiet_shift hk n) h

theorem append_shift (hk : Int64.minValue < k) (hc : c + k = c') (h : Mirrors c r (b.quiet n)) :
    Mirrors c' r ((b ++ Block.shift k).quiet n) := by
  cases r with
  | ok _ m =>
      have hshift := Block.quiet_shift hk (m.moved c)
      rw [moved_moved, hc] at hshift
      exact Block.quiet_append_ok h hshift
  | error e m =>
      obtain ⟨n', hn', hout⟩ := h
      exact ⟨n', Block.quiet_append_error hn', hout⟩

theorem after_loop {rest : Block} {n' : Machine} (hloop : Loop isOpen body.quiet n (.ok () n'))
    (h : Mirrors c r (rest.quiet n')) : Mirrors c r ((Block.loop body rest).quiet n) := by
  cases r with
  | ok _ m => exact Block.quiet_loop_ok hloop h
  | error e m =>
      obtain ⟨n', hn', hout⟩ := h
      exact ⟨n', Block.quiet_loop_ok hloop hn', hout⟩

theorem of_loop_error {rest : Block} {e : Fault} {m n' : Machine}
    (hloop : Loop isOpen body.quiet n (.error e n')) (hout : m.output = n'.output) :
    Mirrors c (.error e m) ((Block.loop body rest).quiet n) :=
  ⟨n', Block.quiet_loop_error hloop, hout⟩

theorem loop_shift (hk : Int64.minValue < k) (hc : c + k = c')
    (h : Mirrors c r (Loop isOpen body.quiet n)) :
    Mirrors c' r ((Block.loop body (Block.shift k)).quiet n) := by
  cases r with
  | ok _ m =>
      have hshift := Block.quiet_shift hk (m.moved c)
      rw [moved_moved, hc] at hshift
      exact Block.quiet_loop_ok h hshift
  | error e m =>
      obtain ⟨n', hn', hout⟩ := h
      exact ⟨n', Block.quiet_loop_error hn', hout⟩

end Mirrors

section Transfers

variable {m : Machine} {src tmp dest : Offset}

/-- The first turn of a loop whose body fails. -/
theorem loop_first_error {body : Effect Fault Machine} {n n' : Machine} {s : Nat} {e : Fault}
    (hs : n.index? n.dp = some s) (h0 : n.get s ≠ 0) (hbody : body n (.error e n')) :
    Loop isOpen body n (.error e n') := by
  have hopen : isOpen n = .ok true n := by rw [isOpen_eq_ok hs, bne_iff_ne.2 h0]
  exact .stop hopen hbody

theorem loop_skip {body : Effect Fault Machine} {n : Machine} {s : Nat}
    (hs : n.index? n.dp = some s) (h0 : n.get s = 0) : Loop isOpen body n (.ok () n) := by
  refine .leave ?_
  rw [isOpen_eq_ok hs, h0]
  rfl

theorem mirrors_roundOne (hm : m.Masked) (hsrc : Small src) (hdest : Small dest)
    (hne : src ≠ dest) :
    Mirrors src (doMove src dest m)
      (Loop isOpen (Block.roundOne (dest - src) (src - dest)).quiet (m.moved src)) := by
  have hdst : m.dp + src + (dest - src) = m.dp + dest := by grind
  cases hs : m.index? (m.dp + src) with
  | none =>
      rw [doMove_error hs]
      exact ⟨_, .fault (isOpen_eq_error hs), rfl⟩
  | some s =>
      by_cases h0 : m.get s = 0
      · rw [doMove_zero hs h0]
        exact loop_skip (n := m.moved src) hs h0
      · cases hd : m.index? (m.dp + dest) with
        | none =>
            rw [doMove_dest_error hs h0 hd]
            -- The text takes one off the source before it leaves the tape; the output is the same.
            obtain ⟨n, hn, hout⟩ := Block.quiet_dec_hop_error (m := m.moved src)
              (Block.shift (src - dest)) (hdest.sub_min_lt hsrc) hs hm h0
              (by simpa [hdst] using hd)
            rw [dp_moved, hdst] at hn
            exact ⟨n, loop_first_error (n := m.moved src) hs h0 hn, hout⟩
        | some d =>
            rw [doMove_ok hs hd (hm.fits d)]
            exact Block.quiet_loop_roundOne (m := m.moved src) (hdest.sub_min_lt hsrc)
              (hsrc.sub_min_lt hdest) (by grind) hs (by simpa [hdst] using hd)
              (index_ne hs hd hne) hm

theorem mirrors_move {a b c : Int64} (hm : m.Masked) (hsrc : Small src) (hdest : Small dest)
    (hne : src ≠ dest) (ha : Int64.minValue < a) (ha' : Int64.minValue < -a)
    (hca : c + a = src) (hcb : c + b = dest) :
    Mirrors c (doMove src dest m) ((Block.move a b).quiet (m.moved c)) := by
  have hba : b - a = dest - src := by grind
  have hab : a - b = src - dest := by grind
  have hback : src + -a = c := by grind
  unfold Block.move
  refine .shift_append ha (.loop_shift ha' hback ?_)
  rw [moved_moved, hca, hba, hab]
  exact mirrors_roundOne hm hsrc hdest hne

/-- The end of a copy: from the source to the temporary cell, which is moved back. -/
theorem mirrors_copy_back (hm : m.Masked) (hsrc : Small src) (htmp : Small tmp)
    (hne : tmp ≠ src) :
    Mirrors 0 (doMove tmp src m)
      ((Block.shift (tmp - src) ++ (Block.move 0 (src - tmp) ++ Block.shift (-tmp))).quiet
        (m.moved src)) := by
  have hthere : src + (tmp - src) = tmp := by grind
  refine .shift_append (htmp.sub_min_lt hsrc) ?_
  rw [moved_moved, hthere]
  refine .append_shift (c := tmp) htmp.neg_min_lt (by grind) ?_
  exact mirrors_move hm htmp hsrc hne Small.zero.min_lt Small.zero.neg_min_lt
    (Int64.add_zero tmp) (by grind)

theorem mirrors_copy (hm : m.Masked) (hsrc : Small src) (htmp : Small tmp) (hdest : Small dest)
    (hst : src ≠ tmp) (hsd : src ≠ dest) (htd : tmp ≠ dest) :
    Mirrors 0 (copyCells src tmp dest m) ((Block.copy src tmp dest).quiet m) := by
  have htmp' : m.dp + src + (tmp - src) = m.dp + tmp := by grind
  have hdest' : m.dp + src + (tmp - src + (dest - tmp)) = m.dp + dest := by grind
  refine .shift_append hsrc.min_lt ?_
  cases hs : m.index? (m.dp + src) with
  | none =>
      rw [copyCells_error hs]
      exact .of_loop_error (.fault (isOpen_eq_error hs)) rfl
  | some s =>
      by_cases h0 : m.get s = 0
      · rw [copyCells_zero hs h0]
        exact .after_loop (loop_skip (n := m.moved src) hs h0)
          (mirrors_copy_back hm hsrc htmp hst.symm)
      · cases ht : m.index? (m.dp + tmp) with
        | none =>
            obtain ⟨n, hn, hout⟩ := Block.quiet_dec_hop_error (m := m.moved src)
              (Block.shift (dest - tmp) ++ Block.plain .inc (Block.shift (src - dest)))
              (htmp.sub_min_lt hsrc) hs hm h0 (by simpa [htmp'] using ht)
            rw [dp_moved, htmp'] at hn
            rw [copyCells_tmp_error hs h0 ht]
            exact .of_loop_error (loop_first_error (n := m.moved src) hs h0 hn) hout
        | some t =>
            cases hd : m.index? (m.dp + dest) with
            | none =>
                -- The first round adds one to the scratch cell, then fails at the destination.
                obtain ⟨n, hn, hout⟩ := Block.quiet_dec_hop_hop_error (m := m.moved src)
                  (Block.shift (src - dest)) (htmp.sub_min_lt hsrc)
                  (hdest.sub_min_lt htmp) hs hm h0 (by simpa [htmp'] using ht)
                  (by simpa [hdest'] using hd)
                rw [dp_moved, hdest'] at hn
                rw [copyCells_dest_error hs h0 ht hd]
                exact .of_loop_error (loop_first_error (n := m.moved src) hs h0 hn) hout
            | some d =>
                have htd' := index_ne ht hd htd
                have hloop := Block.quiet_loop_roundTwo (m := m.moved src)
                  (htmp.sub_min_lt hsrc) (hdest.sub_min_lt htmp) (hsrc.sub_min_lt hdest)
                  (by grind) hs (by simpa [htmp'] using ht) (by simpa [hdest'] using hd)
                  (index_ne hs ht hst) (index_ne hs hd hsd) htd' hm
                rw [copyCells_ok hs h0 ht hd htd']
                -- The loop has emptied the source; what is left is moving the scratch cell back.
                refine .after_loop hloop (mirrors_copy_back ?_ hsrc htmp hst.symm)
                exact ((hm.set t (Width.fits_cut _ _)).set d (Width.fits_cut _ _)).set s
                  (Width.fits_zero _)

end Transfers

/-! ## Emission -/

section Emissions

variable {m : Machine} {code : UInt8} {tmp1 tmp2 : Offset}

/-- What a counted emission does once its counter has been copied. -/
def emitCells (code : UInt8) (tmp1 tmp2 : Offset) : Action (List Task) := do
  let char ← locate tmp1
  bump char (byteCell code)
  let left ← locate tmp2
  emitHead code char left

/-- The text of a counted emission once its counter has been copied. -/
def Block.emitCells (code : UInt8) (tmp1 tmp2 : Offset) : Block :=
  shift tmp1 ++ (add (Int64.ofNat code.toNat) ++ (shift (tmp2 - tmp1) ++
    loop (roundEmit (tmp1 - tmp2) (tmp2 - tmp1))
      (shift (tmp1 - tmp2) ++ (add (-Int64.ofNat code.toNat) ++ shift (-tmp1)))))

/-- Emission from the head on: the bytes left are put, the counter and the character cleared. -/
theorem after_emitHead (code : UInt8) {char left : Nat} (hm : m.Ready) (hchar : char < m.tape.size)
    (hleft : left < m.tape.size) (hne : left ≠ char) :
    after (emitHead code char left) (emission (pure ())) m
      (.ok () (((m.put (List.replicate (m.get left).toNat (m.get char).toUInt8)).set left 0).set
        char (m.width.cut (m.get char + -byteCell code)))) := by
  by_cases h0 : m.get left = 0
  · rw [after_of_ok (emitHead_zero h0), h0, UInt64.toNat_zero, List.replicate_zero, put_nil]
    have hset : m.set left 0 = m := by rw [← h0, set_get]
    rw [hset]
    rfl
  · rw [after_of_ok (emitHead_of_ne h0)]
    exact loop_emitTurn hchar hleft hne hm.masked hm.reliable h0

/-- The text after an emission: the character is taken off its cell. -/
theorem Block.quiet_takeOff (code : UInt8) {t : Nat} (hm : m.Masked)
    (ht : m.index? (m.dp + tmp1) = some t) (htmp1 : Small tmp1) (htmp2 : Small tmp2) :
    (shift (tmp1 - tmp2) ++ (add (-Int64.ofNat code.toNat) ++ shift (-tmp1))).quiet
      (m.moved tmp2) (.ok () (m.set t (m.width.cut (m.get t + -byteCell code)))) := by
  have hback : tmp2 + (tmp1 - tmp2) = tmp1 := by grind
  have hshift := quiet_shift (htmp1.sub_min_lt htmp2) (m.moved tmp2)
  rw [moved_moved, hback] at hshift
  have hadd := quiet_add (m := m.moved tmp1) (Small.ofByte code).neg_min_lt ht (hm.fits t)
  rw [Int64.toUInt64_neg, toUInt64_ofByte] at hadd
  have hhome := quiet_shift htmp1.neg_min_lt
    ((m.set t (m.width.cut (m.get t + -byteCell code))).moved tmp1)
  rw [moved_moved, Int64.add_right_neg, moved_zero] at hhome
  exact quiet_append_ok hshift (quiet_append_ok hadd hhome)

/-- An emission whose character is in its cell. -/
theorem mirrors_emitLoop (code : UInt8) (hm : m.Ready) {t : Nat}
    (ht : m.index? (m.dp + tmp1) = some t) (htmp1 : Small tmp1) (htmp2 : Small tmp2)
    (hne : tmp1 ≠ tmp2) :
    ∃ r, after (locate tmp2 >>= emitHead code t) (emission (pure ())) m r ∧
      Mirrors 0 r ((Block.loop (Block.roundEmit (tmp1 - tmp2) (tmp2 - tmp1))
        (Block.shift (tmp1 - tmp2) ++ (Block.add (-Int64.ofNat code.toNat) ++
          Block.shift (-tmp1)))).quiet (m.moved tmp2)) := by
  have hback : tmp2 + (tmp1 - tmp2) = tmp1 := by grind
  -- Nothing has been emitted when the counter turns out to lie beyond the tape.
  cases hd : m.index? (m.dp + tmp2) with
  | none =>
      refine ⟨.error (.outOfBounds (m.dp + tmp2) m.tape.size) m, ?_, m.moved tmp2,
        Block.quiet_loop_error (.fault ?_), rfl⟩
      · exact (after_of_error (bind_of_error (locate_eq_error hd)) _).2 rfl
      · exact isOpen_eq_error hd
  | some d =>
      have hne' := index_ne hd ht hne.symm
      have hdone := after_emitHead code hm (index?_eq_some_iff.1 ht).2
        (index?_eq_some_iff.1 hd).2 hne'
      have hloop := Block.quiet_loop_roundEmit (m := m.moved tmp2) (htmp1.sub_min_lt htmp2)
        (htmp2.sub_min_lt htmp1) (by grind) hd (by simpa [Int64.add_assoc, hback] using ht)
        hne' hm.masked hm.reliable
      have hoff := Block.quiet_takeOff code (t := t)
        (m := (m.put (List.replicate (m.get d).toNat (m.get t).toUInt8)).set d 0)
        (Masked.set (m := m.put _) hm.masked d (Width.fits_zero _))
        (by simpa using ht) htmp1 htmp2
      rw [get_set_ne _ _ hne', get_put] at hoff
      have hhead : (locate tmp2 >>= emitHead code t) m = emitHead code t d m :=
        bind_of_ok (locate_eq_ok hd)
      rw [after, ← hhead] at hdone
      exact ⟨_, hdone, .of_ok (Block.quiet_loop_ok hloop hoff)⟩

theorem mirrors_emitCells (code : UInt8) (hm : m.Ready) {t : Nat}
    (ht : m.index? (m.dp + tmp1) = some t) (htmp1 : Small tmp1) (htmp2 : Small tmp2)
    (hne : tmp1 ≠ tmp2) :
    ∃ r, after (emitCells code tmp1 tmp2) (emission (pure ())) m r ∧
      Mirrors 0 r ((Block.emitCells code tmp1 tmp2).quiet m) := by
  have hthere : tmp1 + (tmp2 - tmp1) = tmp2 := by grind
  have hbump : bump t (byteCell code) m =
      .ok () (m.set t (m.width.cut (m.get t + byteCell code))) := rfl
  have hadd := Block.quiet_add (m := m.moved tmp1) (Small.ofByte code).min_lt ht
    (hm.masked.fits t)
  rw [toUInt64_ofByte code, set_moved] at hadd
  have hw : Written m (m.set t (m.width.cut (m.get t + byteCell code))) :=
    (Written.refl hm.masked).set t (Width.fits_cut _ _)
  simp only [get_moved, width_moved] at hadd
  -- From here on only the cell of the character has changed.
  generalize m.set t (m.width.cut (m.get t + byteCell code)) = m₁ at hbump hadd hw
  have ht₁ : m₁.index? (m₁.dp + tmp1) = some t := by rw [hw.dp, hw.index?, ht]
  have hshift := Block.quiet_shift (htmp2.sub_min_lt htmp1) (m₁.moved tmp1)
  rw [moved_moved, hthere] at hshift
  obtain ⟨r, hdirect, htext⟩ := mirrors_emitLoop code (hw.ready hm) ht₁ htmp1 htmp2 hne
  refine ⟨r, ?_, .shift_append htmp1.min_lt (.append_ok hadd (.append_ok hshift htext))⟩
  simp only [after, emitCells, bind_of_ok (locate_eq_ok ht), bind_of_ok hbump]
  exact hdirect

/-- An addition to a cell that holds `v` and `cur` more. -/
theorem Block.quiet_add_more {i : Nat} (v : UInt64) (cur : Int64) {n : Int64}
    (hn : Int64.minValue < n) (hi : m.index? m.dp = some i) :
    (add n).quiet (m.set i (m.width.cut (v + cur.toUInt64)))
      (.ok () (m.set i (m.width.cut (v + (cur + n).toUInt64)))) := by
  have hlt := (index?_eq_some_iff.1 hi).2
  have h := quiet_add (m := m.set i (m.width.cut (v + cur.toUInt64))) hn (by simpa using hi)
    (by rw [get_set_self m _ hlt]; exact Width.fits_cut _ _)
  rw [get_set_self m _ hlt, set_set, width_set, Width.cut_cut_add, UInt64.add_assoc,
    ← Int64.toUInt64_add] at h
  exact h

/-- The text of a string adds to the cell each byte in the place of the byte before it. -/
theorem Block.quiet_writeS {i : Nat} {v : UInt64} (text : Bytes) {cur : Int64} {m : Machine}
    (hcur : Small cur) (hi : m.index? m.dp = some i) (hv : m.width.Fits v)
    (hroom : m.output.room = none) :
    (writeS cur text).quiet (m.set i (m.width.cut (v + cur.toUInt64)))
      (.ok () ((m.put (text.map fun b => (v + byteCell b).toUInt8)).set i v)) := by
  induction text generalizing cur m with
  | nil =>
      have h := quiet_add_more v cur hcur.neg_min_lt hi
      have h0 : v + (0 : Int64).toUInt64 = v := UInt64.add_zero v
      rw [Int64.add_right_neg, h0, Width.cut_eq_self hv] at h
      rw [List.map_nil, put_nil]
      exact h
  | cons b rest ih =>
      have hc := Small.ofByte b
      -- From the byte before to this one, so that the cell holds `v` and this byte.
      have hsum : cur + (Int64.ofNat b.toNat - cur) = Int64.ofNat b.toNat := by grind
      have hadd := quiet_add_more v cur (hc.sub_min_lt hcur) hi
      rw [hsum] at hadd
      have hout := doSymbol_out
        (m := m.set i (m.width.cut (v + (Int64.ofNat b.toNat).toUInt64))) (by simpa using hi) hroom
      rw [get_set_self m _ (index?_eq_some_iff.1 hi).2, Width.toUInt8_cut, put_set] at hout
      have hrest := ih (m := m.put [(v + (Int64.ofNat b.toNat).toUInt64).toUInt8]) hc hi hv hroom
      rw [put_put, toUInt64_ofByte] at hrest
      rw [toUInt64_ofByte] at hout hadd
      exact quiet_append_ok hadd (quiet_plain_ok (p := .out) hout hrest)

/-- Off the tape the text of a string fails before its first byte. -/
theorem Block.quiet_writeS_error {b : UInt8} {rest : Bytes} (hi : m.index? m.dp = none) :
    (writeS 0 (b :: rest)).quiet m (.error (.outOfBounds m.dp m.tape.size) m) := by
  have hc := Small.ofByte b
  by_cases h0 : Int64.ofNat b.toNat - 0 = 0
  · rw [writeS, h0]
    exact quiet_plain_error (doSymbol_error (by decide) (by decide) hi)
  · exact quiet_append_error (quiet_add_error (hc.sub_min_lt .zero) h0 hi)

end Emissions

/-! ## Every op that is no loop -/

namespace Op

/-- An op and its text have the same end. -/
def Mirrored (o : Op) (m : Machine) : Prop :=
  ∃ r, o.quiet m r ∧ Mirrors 0 r (o.block.quiet m)

variable {o : Op} {m : Machine} {i : Nat}

theorem mirrored_of_ok {m' : Machine} (ho : ∀ body, o ≠ loop body)
    (h : perform o m = .ok [] m') (htext : o.block.quiet m (.ok () m')) : o.Mirrored m :=
  ⟨_, quiet_ok ho h, .of_ok htext⟩

theorem mirrored_of_error {e : Fault} {m' n : Machine} (ho : ∀ body, o ≠ loop body)
    (h : perform o m = .error e m') (htext : o.block.quiet m (.error e n))
    (hout : m'.output = n.output) : o.Mirrored m :=
  ⟨_, quiet_error ho h, n, htext, hout⟩

/-- An op that is one action. -/
theorem mirrored_of_action {a : Action Unit} (ho : ∀ body, o ≠ loop body)
    (hperform : perform o m = (a >>= fun _ => pure []) m)
    (h : Mirrors 0 (a m) (o.block.quiet m)) : o.Mirrored m := by
  cases ha : a m with
  | ok x m' =>
      rw [ha] at h
      rw [bind_of_ok ha] at hperform
      exact ⟨_, quiet_ok ho hperform, h⟩
  | error e m' =>
      rw [ha] at h
      rw [bind_of_error ha] at hperform
      exact ⟨_, quiet_error ho hperform, h⟩

/-- An op whose text is one symbol. -/
theorem mirrored_of_symbol {p : Plain} (ho : ∀ body, o ≠ loop body)
    (hperform : perform o = doSymbol p.symbol >>= fun _ => pure [])
    (hblock : o.block = .plain p .nil) : o.Mirrored m := by
  refine mirrored_of_action ho (congrFun hperform m) ?_
  rw [hblock]
  cases hp : doSymbol p.symbol m with
  | ok x m' => exact .of_ok (Block.quiet_plain_ok hp (Block.quiet_nil m'))
  | error e m' => exact ⟨m', Block.quiet_plain_error hp, rfl⟩

theorem mirrored_add {n : Int64} (hm : m.Ready) (hn : Small n)
    (hz : n = 0 → ∃ i, m.index? m.dp = some i) : (add n).Mirrored m := by
  cases hi : m.index? m.dp with
  | some i =>
      refine mirrored_of_ok (by simp) ?_ (Block.quiet_add hn.min_lt hi (hm.masked.fits i))
      rw [perform, bind_of_ok (locate_here hi)]
      rfl
  | none =>
      have hn0 : n ≠ 0 := by
        intro h
        obtain ⟨i, hi'⟩ := hz h
        rw [hi] at hi'
        cases hi'
      refine mirrored_of_error (by simp) ?_ (Block.quiet_add_error hn.min_lt hn0 hi) rfl
      rw [perform, bind_of_error (locate_here_error hi)]

theorem mirrored_shift {n : Int64} (hn : Small n) : (shift n).Mirrored m :=
  mirrored_of_ok (by simp) rfl (Block.quiet_shift hn.min_lt m)

theorem mirrored_zero (hm : m.Ready) : zero.Mirrored m := by
  cases hi : m.index? m.dp with
  | some i =>
      refine mirrored_of_ok (by simp) ?_
        (Block.quiet_loop_ok (Block.quiet_loop_zero hi hm.masked) (Block.quiet_nil _))
      rw [perform, bind_of_ok (locate_here hi)]
      rfl
  | none =>
      refine mirrored_of_error (by simp) ?_
        (Block.quiet_loop_error (.fault (isOpen_eq_error hi))) rfl
      rw [perform, bind_of_error (locate_here_error hi)]

theorem mirrored_move {src dest : Offset} (hm : m.Ready) (hsrc : Small src) (hdest : Small dest)
    (hne : src ≠ dest) : (move src dest).Mirrored m := by
  refine mirrored_of_action (by simp) rfl ?_
  have h := mirrors_move hm.masked hsrc hdest hne hsrc.min_lt hsrc.neg_min_lt
    (Int64.zero_add src) (Int64.zero_add dest)
  rwa [moved_zero] at h

theorem doCopy_of_unchecked (hm : m.checked = false) (o : Op) (src tmp dest : Offset) :
    doCopy o src tmp dest m = copyCells src tmp dest m := by
  have hc : isChecked m = .ok false m := congrArg (EStateM.Result.ok · m) hm
  rw [doCopy_eq, bind_of_ok hc]
  rfl

theorem mirrored_copy {src tmp dest : Offset} (hm : m.Ready) (hsrc : Small src)
    (htmp : Small tmp) (hdest : Small dest) (hst : src ≠ tmp) (hsd : src ≠ dest)
    (htd : tmp ≠ dest) : (copy src tmp dest).Mirrored m := by
  refine mirrored_of_action (a := doCopy _ src tmp dest) (by simp) rfl ?_
  rw [doCopy_of_unchecked hm.unchecked]
  exact mirrors_copy hm.masked hsrc htmp hdest hst hsd htd

theorem block_writeN (code : UInt8) (count tmp1 tmp2 : Offset) :
    (writeN code count tmp1 tmp2).block =
      Block.copy count tmp1 tmp2 ++ Block.emitCells code tmp1 tmp2 := rfl

theorem mirrored_writeN {code : UInt8} {count tmp1 tmp2 : Offset} (hm : m.Ready)
    (hcount : Small count) (htmp1 : Small tmp1) (htmp2 : Small tmp2) (h1 : count ≠ tmp1)
    (h2 : count ≠ tmp2) (h12 : tmp1 ≠ tmp2) : (writeN code count tmp1 tmp2).Mirrored m := by
  have ho : ∀ body, writeN code count tmp1 tmp2 ≠ loop body := by simp
  have hcopy := mirrors_copy hm.masked hcount htmp1 htmp2 h1 h2 h12
  rw [Mirrored, block_writeN, quiet_eq ho]
  have hperform : perform (writeN code count tmp1 tmp2) =
      doCopy (writeN code count tmp1 tmp2) count tmp1 tmp2 >>=
        fun _ => emitCells code tmp1 tmp2 := rfl
  cases hc : copyCells count tmp1 tmp2 m with
  | error e m' =>
      rw [hc] at hcopy
      obtain ⟨n, hn, hout⟩ := hcopy
      rw [← doCopy_of_unchecked hm.unchecked (writeN code count tmp1 tmp2)] at hc
      refine ⟨_, (after_of_error ?_ _).2 rfl, n, Block.quiet_append_error hn, hout⟩
      rw [hperform]
      exact bind_of_error hc
  | ok x m' =>
      rw [hc] at hcopy
      obtain ⟨hw, t, ht⟩ := written_copyCells hm.masked h12 hc
      rw [← doCopy_of_unchecked hm.unchecked (writeN code count tmp1 tmp2)] at hc
      -- The copy leaves the machine ready, and the emission is compared from there.
      obtain ⟨r, hr, hmir⟩ := mirrors_emitCells code (hw.ready hm)
        (by rw [hw.dp, hw.index?, ht]) htmp1 htmp2 h12
      refine ⟨r, ?_, ?_⟩
      · simp only [after, hperform, bind_of_ok hc]
        exact hr
      · have hcopy' : (Block.copy count tmp1 tmp2).quiet m (.ok () m') := moved_zero m' ▸ hcopy
        cases r with
        | ok _ m'' => exact Block.quiet_append_ok hcopy' hmir
        | error e m'' =>
            obtain ⟨n, hn, hout⟩ := hmir
            exact ⟨n, Block.quiet_append_ok hcopy' hn, hout⟩

theorem doWriteS_of_unchecked (hm : m.checked = false) (o : Op) {text : Bytes} (ht : text ≠ [])
    (hi : m.index? m.dp = some i) :
    doWriteS o text m = emit (text.map fun b => (m.get i + byteCell b).toUInt8) m := by
  have hc : isChecked m = .ok false m := congrArg (EStateM.Result.ok · m) hm
  have hp : peek i m = .ok (m.get i) m := rfl
  rw [doWriteS, if_pos ht, bind_of_ok (locate_here hi), bind_of_ok hp, bind_of_ok hc]
  rfl

theorem mirrored_writeS (hm : m.Ready) (text : Bytes) : (writeS text).Mirrored m := by
  cases text with
  | nil => exact mirrored_of_ok (by simp) rfl (Block.quiet_nil m)
  | cons b rest =>
      refine mirrored_of_action (a := doWriteS _ (b :: rest)) (by simp) rfl ?_
      cases hi : m.index? m.dp with
      | none =>
          rw [doWriteS, if_pos (by simp), bind_of_error (locate_here_error hi)]
          exact ⟨m, Block.quiet_writeS_error hi, rfl⟩
      | some i =>
          have hfit := hm.masked.fits i
          have h := Block.quiet_writeS (b :: rest) Small.zero hi hfit hm.reliable
          have h0 : m.get i + (0 : Int64).toUInt64 = m.get i := UInt64.add_zero _
          rw [h0, Width.cut_eq_self hfit, set_get, ← put_set, set_get] at h
          rw [doWriteS_of_unchecked hm.unchecked _ (by simp) hi, emit_eq_ok hm.reliable]
          exact .of_ok h

theorem mirrored_assertZero (hm : m.Ready) (offsets : List Offset) :
    (assertZero offsets).Mirrored m := by
  refine mirrored_of_ok (by simp) ?_ (Block.quiet_nil m)
  have hc : isChecked m = .ok false m := congrArg (EStateM.Result.ok · m) hm.unchecked
  rw [perform, bind_of_ok hc]
  rfl

end Op

end TapeForge
