import TapeForge.Gadget.Stack
import TapeForge.Proofs.Unlimited
import TapeForge.Proofs.Window

/-!
# Stacks

A stack is followed through its window on the tape. Its markers of free slots steer the loops that
carry a value past them, so each of these loops is described for any number of markers, by
induction on that number. From them follows what one push and one pop do to the window, and then
what any sequence of them does to a machine.
-/

namespace TapeForge.Gadget

open Machine Machine.Action Effect

def ones (k : Nat) : List UInt64 := List.replicate k 1

theorem ones_succ (k : Nat) : ones (k + 1) = 1 :: ones k := rfl

@[simp] theorem length_ones (k : Nat) : (ones k).length = k := List.length_replicate

@[simp] theorem reverse_ones (k : Nat) : (ones k).reverse = ones k := List.reverse_replicate

/-- A marker may be counted at either end. -/
theorem ones_append_one (k : Nat) (vs : List UInt64) : ones k ++ 1 :: vs = ones (k + 1) ++ vs := by
  induction k with
  | zero => rfl
  | succ k ih => rw [ones_succ, List.cons_append, ih, ones_succ (k + 1), List.cons_append]

/-- The separator ends the markers, so there is a first cell. -/
theorem exists_cons_ones (k : Nat) (vs : List UInt64) :
    ∃ x rest, x :: rest = ones k ++ 0 :: vs ∧ rest.length = k + vs.length := by
  cases k with
  | zero => exact ⟨0, vs, rfl, (Nat.zero_add _).symm⟩
  | succ k =>
      refine ⟨1, ones k ++ 0 :: vs, rfl, ?_⟩
      rw [List.length_append, length_ones, List.length_cons]
      omega

section Window

variable {m : Machine} {a n : Nat} {ls rs us vs : List UInt64} {v x : UInt64}

/-! ## Cells that hold markers -/

theorem cut_marker_sub (w : Width) : w.cut (1 + (-1 : Int64).toUInt64) = 0 := by
  cases w <;> decide

theorem cut_marker_add (w : Width) : w.cut (0 + (1 : Int64).toUInt64) = 1 := by
  cases w <;> decide

/-- A value that is added to a marker is left when the marker is taken off. -/
theorem cut_past_marker {w : Width} (hv : w.Fits v) :
    w.cut (w.cut (1 + v) + (-1 : Int64).toUInt64) = v := by
  have hone : (1 : UInt64) + (-1 : Int64).toUInt64 = 0 := by decide
  rw [Width.cut_cut_add, UInt64.add_comm 1 v, UInt64.add_assoc, hone, UInt64.add_zero,
    Width.cut_eq_self hv]

variable (hw : m.Window a n)

include hw

theorem quiet_unmark (hlen : ls.length < n) :
    (Op.add (-1)).quiet (m.view a ls 1 rs) (.ok () (m.view a ls 0 rs)) := by
  rw [← cut_marker_sub m.width]
  exact quiet_add_view hw hlen (-1)

theorem quiet_mark (hlen : ls.length < n) :
    (Op.add 1).quiet (m.view a ls 0 rs) (.ok () (m.view a ls 1 rs)) := by
  rw [← cut_marker_add m.width]
  exact quiet_add_view hw hlen 1

/-- An empty cell to the right of the value takes it. -/
theorem quiet_carry_right (hlen : ls.length + 1 < n) (hv : m.width.Fits v) :
    (Op.move (-1) 0).quiet (m.view a (v :: ls) 0 rs) (.ok () (m.view a (0 :: ls) v rs)) := by
  have h : (Op.move (-1) 0).quiet (m.view a (v :: ls) 0 rs)
      (.ok () (m.view a (0 :: ls) (m.width.cut (0 + v)) rs)) :=
    quiet_move_from_left hw hlen m.width.fits_zero
  rw [UInt64.zero_add, Width.cut_eq_self hv] at h
  exact h

/-- An empty cell to the left of the value takes it. -/
theorem quiet_carry_left (hlen : ls.length + 1 < n) (hv : m.width.Fits v) :
    (Op.move 1 0).quiet (m.view a ls 0 (v :: rs)) (.ok () (m.view a ls v (0 :: rs))) := by
  have h : (Op.move 1 0).quiet (m.view a ls 0 (v :: rs))
      (.ok () (m.view a ls (m.width.cut (0 + v)) (0 :: rs))) :=
    quiet_move_from_right hw hlen m.width.fits_zero
  rw [UInt64.zero_add, Width.cut_eq_self hv] at h
  exact h

/-! ## Loops over markers -/

theorem loop_leave {body : List Op} (hlen : ls.length < n) :
    (Op.loop body).quiet (m.view a ls 0 rs) (.ok () (m.view a ls 0 rs)) := by
  rw [Op.quiet_loop]
  exact .leave (isOpen_view hw hlen)

theorem loop_turn {body : List Op} {m' : Machine} {r : EStateM.Result Fault Machine Unit}
    (hlen : ls.length < n) (hbody : Op.quietAll body (m.view a ls 1 rs) (.ok () m'))
    (hrest : (Op.loop body).quiet m' r) : (Op.loop body).quiet (m.view a ls 1 rs) r := by
  rw [Op.quiet_loop] at hrest ⊢
  exact .turn (isOpen_view hw hlen) hbody hrest

/-- A loop that walks right over markers stops at the first zero. -/
theorem quiet_walk_right (k : Nat) (hcells : x :: rs = ones k ++ 0 :: us)
    (hlen : ls.length + rs.length < n) :
    (Op.loop [.shift 1]).quiet (m.view a ls x rs) (.ok () (m.view a (ones k ++ ls) 0 us)) := by
  induction k generalizing x ls rs with
  | zero =>
      cases hcells
      exact loop_leave hw (by omega)
  | succ k ih =>
      obtain ⟨y, rest, hrest, -⟩ := exists_cons_ones k us
      rw [ones_succ, List.cons_append, ← hrest] at hcells
      cases hcells
      rw [List.length_cons] at hlen
      rw [← ones_append_one]
      refine loop_turn hw (by omega) (quietAll_step quiet_shift_right (quietAll_nil _)) ?_
      exact ih hrest (by rw [List.length_cons]; omega)

/-- A loop that walks left over markers stops at the first zero. -/
theorem quiet_walk_left (k : Nat) (hcells : x :: ls = ones k ++ 0 :: us)
    (hlen : ls.length < n) :
    (Op.loop [.shift (-1)]).quiet (m.view a ls x rs) (.ok () (m.view a us 0 (ones k ++ rs))) := by
  induction k generalizing x ls rs with
  | zero =>
      cases hcells
      exact loop_leave hw hlen
  | succ k ih =>
      obtain ⟨y, rest, hrest, -⟩ := exists_cons_ones k us
      rw [ones_succ, List.cons_append, ← hrest] at hcells
      cases hcells
      rw [List.length_cons] at hlen
      rw [← ones_append_one]
      refine loop_turn hw hlen (quietAll_step quiet_shift_left (quietAll_nil _)) ?_
      exact ih hrest (by omega)

/-- The loop that carries a value right: each marker changes places with the value to its left. -/
theorem quiet_carry_right_all (ls : List UInt64) (k : Nat) (hv : m.width.Fits v)
    (hcells : x :: rs = ones k ++ 0 :: us) (hlen : ls.length + rs.length + 1 < n) :
    (Op.loop [.add (-1), .move (-1) 0, .shift (-1), .add 1, .shift 2]).quiet
      (m.view a (v :: ls) x rs) (.ok () (m.view a (v :: (ones k ++ ls)) 0 us)) := by
  induction k generalizing x ls rs with
  | zero =>
      cases hcells
      exact loop_leave hw (by rw [List.length_cons]; omega)
  | succ k ih =>
      obtain ⟨y, rest, hrest, -⟩ := exists_cons_ones k us
      rw [ones_succ, List.cons_append, ← hrest] at hcells
      cases hcells
      rw [List.length_cons] at hlen
      -- One round swaps the marker with the value and goes on to the next cell.
      have hturn : Op.quietAll [.add (-1), .move (-1) 0, .shift (-1), .add 1, .shift 2]
          (m.view a (v :: ls) 1 (y :: rest)) (.ok () (m.view a (v :: 1 :: ls) y rest)) := by
        refine quietAll_step (quiet_unmark hw (by rw [List.length_cons]; omega)) ?_
        refine quietAll_step (quiet_carry_right hw (by omega) hv) ?_
        refine quietAll_step quiet_shift_left ?_
        refine quietAll_step (quiet_mark hw (by omega)) ?_
        exact quietAll_step quiet_shift_right_two (quietAll_nil _)
      rw [← ones_append_one]
      refine loop_turn hw (by rw [List.length_cons]; omega) hturn ?_
      exact ih (1 :: ls) hrest (by rw [List.length_cons]; omega)

/-- The loop that carries a value left: each marker changes places with the value to its right. -/
theorem quiet_carry_left_all (k : Nat) (hv : m.width.Fits v)
    (hcells : x :: ls = ones k ++ 0 :: us) (hlen : ls.length + 1 < n) :
    (Op.loop [.add (-1), .move 1 0, .shift 1, .add 1, .shift (-2)]).quiet
      (m.view a ls x (v :: rs)) (.ok () (m.view a us 0 (v :: (ones k ++ rs)))) := by
  induction k generalizing x ls rs with
  | zero =>
      cases hcells
      exact loop_leave hw (by omega)
  | succ k ih =>
      obtain ⟨y, rest, hrest, -⟩ := exists_cons_ones k us
      rw [ones_succ, List.cons_append, ← hrest] at hcells
      cases hcells
      rw [List.length_cons] at hlen
      have hturn : Op.quietAll [.add (-1), .move 1 0, .shift 1, .add 1, .shift (-2)]
          (m.view a (y :: rest) 1 (v :: rs)) (.ok () (m.view a rest y (v :: 1 :: rs))) := by
        refine quietAll_step (quiet_unmark hw (by rw [List.length_cons]; omega)) ?_
        refine quietAll_step (quiet_carry_left hw (by rw [List.length_cons]; omega) hv) ?_
        refine quietAll_step quiet_shift_right ?_
        refine quietAll_step (quiet_mark hw (by simp only [List.length_cons]; omega)) ?_
        exact quietAll_step quiet_shift_left_two (quietAll_nil _)
      rw [← ones_append_one]
      refine loop_turn hw (by rw [List.length_cons]; omega) hturn ?_
      exact ih hrest (by omega)

/-! ## One operation -/

/-- A push in a window that has a free slot. The value passes the slots, and the data pointer
walks back over them. -/
theorem quiet_push (k : Nat) (vs : List UInt64) (hv : m.width.Fits v)
    (hlen : k + vs.length + 2 < n) :
    Op.quietAll push (m.view a [] v (ones (k + 1) ++ 0 :: vs))
      (.ok () (m.view a [] 0 (ones k ++ 0 :: v :: vs))) := by
  obtain ⟨x, right, hright, hrlen⟩ := exists_cons_ones k vs
  obtain ⟨y, left, hleft, hllen⟩ := exists_cons_ones k []
  rw [ones_succ, List.cons_append, ← hright]
  -- The first free slot takes the value on top of its marker, and gives up the marker.
  refine quietAll_step (quiet_move_right hw (by grind) m.width.fits_one) ?_
  refine quietAll_step quiet_shift_right ?_
  refine quietAll_step (quiet_add_view hw (by grind) (-1)) ?_
  rw [cut_past_marker hv]
  refine quietAll_step quiet_shift_right ?_
  -- The other markers pass it on to the separator.
  refine quietAll_step (quiet_carry_right_all hw [0] k hv hright (by grind)) ?_
  rw [← hleft]
  refine quietAll_step (quiet_carry_right hw (by grind) hv) ?_
  -- The new separator is stepped over, for it would stop the way back at once.
  refine quietAll_step quiet_shift_left_two ?_
  exact quietAll_step (quiet_walk_left hw k hleft (by grind)) (quietAll_nil _)

/-- A pop in a window that has a value. The data pointer walks over the slots, and the value is
carried back past them. -/
theorem quiet_pop (k : Nat) (vs : List UInt64) (hv : m.width.Fits v)
    (hlen : k + vs.length + 2 < n) :
    Op.quietAll pop (m.view a [] 0 (ones k ++ 0 :: v :: vs))
      (.ok () (m.view a [] v (ones (k + 1) ++ 0 :: vs))) := by
  obtain ⟨x, right, hright, hrlen⟩ := exists_cons_ones k (v :: vs)
  obtain ⟨y, left, hleft, hllen⟩ := exists_cons_ones k []
  rw [← hright]
  refine quietAll_step (quiet_assertZero_view hw (by grind)) ?_
  refine quietAll_step quiet_shift_right ?_
  refine quietAll_step (quiet_walk_right hw k hright (by grind)) ?_
  rw [← hleft]
  -- The top leaves a zero behind, which is the separator from now on.
  refine quietAll_step (quiet_carry_left hw (by grind) hv) ?_
  refine quietAll_step quiet_shift_left ?_
  refine quietAll_step (quiet_carry_left_all hw k hv hleft (by grind)) ?_
  refine quietAll_step (quiet_carry_left hw (by grind) hv) ?_
  refine quietAll_step quiet_shift_right ?_
  refine quietAll_step (quiet_mark hw (by grind)) ?_
  exact quietAll_step quiet_shift_left (quietAll_nil _)

/-- Markers are written one after the other. -/
theorem quiet_markers (k : Nat) {os : List Op} {r : EStateM.Result Fault Machine Unit}
    (hlen : ls.length + k < n) (h : Op.quietAll os (m.view a (ones k ++ ls) 0 []) r) :
    Op.quietAll ((List.replicate k [.add 1, .shift 1]).flatten ++ os)
      (m.view a ls 0 (List.replicate k 0)) r := by
  induction k generalizing ls with
  | zero => exact h
  | succ k ih =>
      rw [← ones_append_one] at h
      refine quietAll_step (quiet_mark hw (by omega)) ?_
      refine quietAll_step quiet_shift_right ?_
      exact ih (by grind) h

/-- The markers of an empty stack are written into a window of zeros. -/
theorem quiet_initStack {c : Int64} (hc : 0 ≤ c) (hlen : c.toInt.toNat + 1 < n) :
    ∃ os, initStack c = .ok os ∧
      Op.quietAll os (m.view a [] 0 (List.replicate (c.toInt.toNat + 1) 0))
        (.ok () (m.view a [] 0 (ones c.toInt.toNat ++ [0]))) := by
  refine ⟨_, if_neg (Int64.not_lt.2 hc), ?_⟩
  refine quietAll_step (quiet_assertZero_view hw (by grind)) ?_
  refine quietAll_step quiet_shift_right ?_
  refine quiet_markers hw _ (by grind) ?_
  have hhome : (m.view a (ones c.toInt.toNat ++ [0]) 0 []).moved (-(c + 1)) =
      m.view a [] 0 (ones c.toInt.toNat ++ [0]) := by
    have hlength : Int64.ofNat (ones c.toInt.toNat ++ [0]).length = c + 1 := by
      rw [List.length_append, length_ones, Int64.ofNat_add]
      exact congrArg (· + 1) (Int64.ofNat_toNatClampNeg c hc)
    rw [← hlength, view_home, view_start, List.reverse_append, reverse_ones]
    rfl
  rw [← hhome]
  exact quietAll_step (quiet_shift _ _) (quietAll_nil _)

end Window

/-! ## A stack on a machine -/

/-- The cells of a stack: the temp cell, the free slots, the separator, and the values with the
top first. -/
def region (c : Nat) (temp : UInt64) (vs : List UInt64) : List UInt64 :=
  temp :: (ones (c - vs.length) ++ 0 :: vs)

theorem length_region {c : Nat} {temp : UInt64} {vs : List UInt64} (h : vs.length ≤ c) :
    (region c temp vs).length = c + 2 := by
  rw [region, List.length_cons, List.length_append, length_ones, List.length_cons]
  omega

/-- A machine that holds a stack at its data pointer, and nothing else that the machine `o` did
not hold. -/
structure Holds (o : Machine) (c : Nat) (temp : UInt64) (vs : List UInt64) (m : Machine) :
    Prop where
  dp : m.dp = o.dp
  inside : ∀ k, (hk : k < (region c temp vs).length) →
    m.cell (o.dp + .ofNat k) = .ok (region c temp vs)[k]
  outside : ∀ p, (∀ k, k < c + 2 → p ≠ o.dp + .ofNat k) → m.cell p = o.cell p

/-- The machine with a value stored in its current cell. -/
def stage (v : UInt64) (m : Machine) : Machine :=
  { m with tape := m.tape.setIfInBounds m.dp.toInt.toNat v }

inductive Act where
  /-- Stage a value in the temp cell, and push it. -/
  | push (v : UInt64)
  /-- Pop a value into the temp cell; then clear the cell. -/
  | pop

/-- Acts are done in turn on a stack that holds some values, as long as there is a free slot for
each value pushed and a value for each pop. -/
def Serves (o : Machine) (c : Nat) : List Act → List UInt64 → Machine → Prop
  | [], _, _ => True
  | .push v :: acts, vs, m => vs.length < c → o.width.Fits v →
      ∃ fuel m', exec fuel push (stage v m) = .done m' ∧ Holds o c 0 (v :: vs) m' ∧
        Serves o c acts (v :: vs) m'
  | .pop :: _, [], _ => True
  | .pop :: acts, v :: vs, m =>
      ∃ fuel m', exec fuel pop m = .done m' ∧ Holds o c v vs m' ∧
        Serves o c acts vs (stage 0 m')

/-- A stack that lies in the window of the machine `o`. -/
structure Lies (o : Machine) (a c : Nat) (temp : UInt64) (vs : List UInt64) (m : Machine) :
    Prop where
  room : vs.length ≤ c
  fits : ∀ v ∈ vs, o.width.Fits v
  twin : Twin Unlimited m (o.lay a (region c temp vs))

section Lies

variable {o m : Machine} {a c : Nat} {temp v : UInt64} {vs : List UInt64}

theorem Lies.holds (hw : o.Window a (c + 2)) (h : Lies o a c temp vs m) :
    Holds o c temp vs m where
  dp := by
    obtain ⟨records, steps, limit, rfl, _⟩ := h.twin
    exact dp_lay _ _ _
  inside := by
    intro k hk
    have hindex := hw k (by rwa [length_region h.room] at hk)
    rw [h.twin.cell, cell_eq_ok (by rw [index?_lay, hindex]),
      get_lay_getElem _ _ _ hk (index?_eq_some_iff.1 hindex).2]
  outside := by
    intro p hp
    rw [h.twin.cell]
    cases hindex : o.index? p with
    | none => simp only [Machine.cell, index?_lay, hindex, size_lay]
    | some j =>
        have hout : j < a ∨ a + (region c temp vs).length ≤ j := by
          rw [length_region h.room]
          rcases Nat.lt_or_ge j a with hleft | hleft
          · exact .inl hleft
          · -- A cell of the window has no position but its own.
            refine .inr (Nat.le_of_not_lt fun hright => ?_)
            have hk := hw (j - a) (by omega)
            rw [Nat.add_sub_cancel' hleft] at hk
            exact hp (j - a) (by omega) (index?_inj hindex hk)
        rw [cell_eq_ok hindex, cell_eq_ok (by rw [index?_lay, hindex]),
          get_lay_outside _ _ _ hout]

theorem Lies.stage (hw : o.Window a (c + 2)) (h : Lies o a c temp vs m) (v : UInt64) :
    Lies o a c v vs (stage v m) where
  room := h.room
  fits := h.fits
  twin := by
    have hdp : m.dp.toInt.toNat = a := by
      have hstart := (index?_eq_some_iff.1 (hw 0 (by omega))).1
      rw [show o.dp + Int64.ofNat 0 = o.dp from Int64.add_zero _] at hstart
      rw [(h.holds hw).dp]
      omega
    have hset : Gadget.stage v m = m.set a v := by
      rw [← hdp]
      rfl
    obtain ⟨records, steps, limit, hm, hlimit⟩ := h.twin
    refine ⟨records, steps, limit, ?_, hlimit⟩
    have hlay : (o.lay a (region c temp vs)).set a v = o.lay a (region c v vs) := set_set ..
    rw [hset, hm, ← hlay]
    rfl

theorem Lies.push (hw : o.Window a (c + 2)) (h : Lies o a c v vs m) (hroom : vs.length < c)
    (hv : o.width.Fits v) :
    ∃ fuel m', exec fuel push m = .done m' ∧ Lies o a c 0 (v :: vs) m' := by
  have hfree : c - vs.length = c - (vs.length + 1) + 1 := by omega
  have hquiet := quiet_push hw (c - (vs.length + 1)) vs hv (by omega)
  rw [view_start, view_start, ← hfree] at hquiet
  obtain ⟨fuel, m', hrun, ht⟩ := h.twin.exec_done hquiet
  exact ⟨fuel, m', hrun, hroom, List.forall_mem_cons.2 ⟨hv, h.fits⟩, ht⟩

theorem Lies.pop (hw : o.Window a (c + 2)) (h : Lies o a c 0 (v :: vs) m) :
    ∃ fuel m', exec fuel pop m = .done m' ∧ Lies o a c v vs m' := by
  obtain ⟨hv, hvs⟩ := List.forall_mem_cons.1 h.fits
  have hroom := h.room
  rw [List.length_cons] at hroom
  have hfree : c - vs.length = c - (vs.length + 1) + 1 := by omega
  have hquiet := quiet_pop hw (c - (vs.length + 1)) vs hv (by omega)
  rw [view_start, view_start, ← hfree] at hquiet
  obtain ⟨fuel, m', hrun, ht⟩ := h.twin.exec_done hquiet
  exact ⟨fuel, m', hrun, by omega, hvs, ht⟩

/-- A stack serves any acts, one after the other. -/
theorem Lies.serves (hw : o.Window a (c + 2)) (acts : List Act) (h : Lies o a c 0 vs m) :
    Serves o c acts vs m := by
  induction acts generalizing vs m with
  | nil => trivial
  | cons act acts ih =>
      cases act with
      | push v =>
          intro hroom hv
          obtain ⟨fuel, m', hrun, hlies⟩ := (h.stage hw v).push hw hroom hv
          exact ⟨fuel, m', hrun, hlies.holds hw, ih hlies⟩
      | pop =>
          cases vs with
          | nil => trivial
          | cons v vs =>
              obtain ⟨fuel, m', hrun, hlies⟩ := h.pop hw
              exact ⟨fuel, m', hrun, hlies.holds hw, ih (hlies.stage hw 0)⟩

end Lies

/-- From zeros at the data pointer, the stack is set up and then serves any acts: each push and
each pop is done, with the data pointer back on the temp cell; a push leaves zero there, and a pop
the value pushed last of those that are left; and no cell outside the region is touched. -/
theorem initStack_serves (m : Machine) (c : Int64) (acts : List Act) (hc : 0 ≤ c)
    (hlimit : m.limit ≤ 0)
    (hzero : ∀ k, k < c.toInt.toNat + 2 → m.cell (m.dp + .ofNat k) = .ok 0) :
    ∃ os fuel m', initStack c = .ok os ∧ exec fuel os m = .done m' ∧
      Holds m c.toInt.toNat 0 [] m' ∧ Serves m c.toInt.toNat acts [] m' := by
  have hw : m.Window m.dp.toInt.toNat (c.toInt.toNat + 2) :=
    window_of_cell fun k hk => ⟨0, hzero k hk⟩
  obtain ⟨os, hos, hquiet⟩ := quiet_initStack hw hc (by omega)
  have hzeros : m.lay m.dp.toInt.toNat (List.replicate (c.toInt.toNat + 2) 0) = m := by
    refine m.lay_self _ _ fun k hk => ?_
    rw [List.length_replicate] at hk
    rw [List.getElem_replicate]
    have hcell := hzero k hk
    rw [cell_eq_ok (hw k hk)] at hcell
    exact Except.ok.inj hcell
  rw [view_start, view_start, ← List.replicate_succ, hzeros] at hquiet
  obtain ⟨fuel, m', hrun, ht⟩ := (twin_refl hlimit : Twin Unlimited m m).exec_done hquiet
  have hlies : Lies m m.dp.toInt.toNat c.toInt.toNat 0 [] m' :=
    ⟨Nat.zero_le _, by simp, ht⟩
  exact ⟨os, fuel, m', hos, hrun, hlies.holds hw, hlies.serves hw acts⟩

/-- Two slots of byte cells, filled with two values, which come back in turn. -/
theorem initStack_serves_two :
    ∃ os fuel m', initStack 2 = .ok os ∧
      exec fuel os { tape := #[9, 0, 0, 0, 0, 9], dp := 1, width := .one } = .done m' ∧
      Holds { tape := #[9, 0, 0, 0, 0, 9], dp := 1, width := .one } 2 0 [] m' ∧
      Serves { tape := #[9, 0, 0, 0, 0, 9], dp := 1, width := .one } 2
        [.push 255, .push 0, .pop, .pop, .push 7] [] m' := by
  refine initStack_serves { tape := #[9, 0, 0, 0, 0, 9], dp := 1, width := .one } 2
    [.push 255, .push 0, .pop, .pop, .push 7] (by decide) (by decide) ?_
  have hcells : (2 : Int64).toInt.toNat + 2 = 4 := by decide
  intro k hk
  rw [hcells] at hk
  rcases k with _ | _ | _ | _ | k
  · rfl
  · rfl
  · rfl
  · rfl
  · omega

end TapeForge.Gadget
