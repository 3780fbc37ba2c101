import TapeForge.Proofs.DirectCells

/-!
# A window on the tape

Some cells of a tape, seen from the data pointer: the cells to its left, the nearest first, the
current cell, and the cells to its right. A gadget that stays inside its window is followed by
rewriting these lists, and nothing outside the window changes.
-/

namespace TapeForge

open Machine Machine.Action Effect

namespace Machine

def lay (m : Machine) (a : Nat) : List UInt64 → Machine
  | [] => m
  | v :: vs => (m.lay (a + 1) vs).set a v

section Lay

variable (m : Machine) (a : Nat) (vs : List UInt64)

theorem frame_lay : ∃ tape, m.lay a vs = { m with tape } ∧ tape.size = m.tape.size := by
  induction vs generalizing a with
  | nil => exact ⟨m.tape, rfl, rfl⟩
  | cons v vs ih =>
      obtain ⟨tape, h, hsize⟩ := ih (a + 1)
      refine ⟨tape.setIfInBounds a v, ?_, by simpa using hsize⟩
      rw [lay, h]
      rfl

@[simp] theorem dp_lay : (m.lay a vs).dp = m.dp := by
  obtain ⟨tape, h, _⟩ := m.frame_lay a vs
  rw [h]

@[simp] theorem width_lay : (m.lay a vs).width = m.width := by
  obtain ⟨tape, h, _⟩ := m.frame_lay a vs
  rw [h]

@[simp] theorem size_lay : (m.lay a vs).tape.size = m.tape.size := by
  obtain ⟨tape, h, hsize⟩ := m.frame_lay a vs
  rw [h]
  exact hsize

@[simp] theorem index?_lay (p : Int64) : (m.lay a vs).index? p = m.index? p := by
  simp only [index?, size_lay]

theorem get_lay_outside {j : Nat} (h : j < a ∨ a + vs.length ≤ j) :
    (m.lay a vs).get j = m.get j := by
  induction vs generalizing a with
  | nil => rfl
  | cons v vs ih =>
      rw [List.length_cons] at h
      rw [lay, get_set_ne _ _ (by omega), ih (a + 1) (by omega)]

theorem get_lay (us : List UInt64) (v : UInt64) (h : a + us.length < m.tape.size) :
    (m.lay a (us ++ v :: vs)).get (a + us.length) = v := by
  induction us generalizing a with
  | nil => exact get_set_self _ _ (by simpa using h)
  | cons u us ih =>
      rw [List.length_cons] at h
      have hidx : a + (u :: us).length = a + 1 + us.length := by
        rw [List.length_cons]
        omega
      rw [List.cons_append, lay, hidx, get_set_ne _ _ (by omega)]
      exact ih (a + 1) (by omega)

theorem set_lay (us : List UInt64) (v w : UInt64) :
    (m.lay a (us ++ v :: vs)).set (a + us.length) w = m.lay a (us ++ w :: vs) := by
  induction us generalizing a with
  | nil => exact set_set ..
  | cons u us ih =>
      have hidx : a + (u :: us).length = a + 1 + us.length := by
        rw [List.length_cons]
        omega
      rw [List.cons_append, List.cons_append, lay, lay, hidx, set_comm _ _ _ (by omega), ih]

/-- Writing what is there already changes nothing. -/
theorem lay_self (h : ∀ k, (hk : k < vs.length) → m.get (a + k) = vs[k]) : m.lay a vs = m := by
  induction vs generalizing a with
  | nil => rfl
  | cons v vs ih =>
      have hrest : m.lay (a + 1) vs = m := by
        refine ih (a + 1) fun k hk => ?_
        have := h (k + 1) (by simpa using hk)
        rwa [List.getElem_cons_succ, show a + (k + 1) = a + 1 + k by omega] at this
      have hv : m.get a = v := h 0 (by simp)
      rw [lay, hrest, ← hv, set_get]

end Lay

/-- The positions from the data pointer on are the cells from an index on. -/
def Window (m : Machine) (a n : Nat) : Prop :=
  ∀ k, k < n → m.index? (m.dp + .ofNat k) = some (a + k)

theorem index?_of_cell {m : Machine} {p : Int64} {v : UInt64} (h : m.cell p = .ok v) :
    ∃ i, m.index? p = some i ∧ m.get i = v := by
  unfold cell at h
  split at h
  · rename_i i hi
    exact ⟨i, hi, Except.ok.inj h⟩
  · cases h

theorem cell_eq_ok {m : Machine} {p : Int64} {i : Nat} (h : m.index? p = some i) :
    m.cell p = .ok (m.get i) := by
  simp only [cell, h, get]

/-- Cells one after the other are a window: the positions do not wrap, for a position after the
last one is negative. -/
theorem window_of_cell {m : Machine} {n : Nat}
    (h : ∀ k, k < n → ∃ v, m.cell (m.dp + .ofNat k) = .ok v) : m.Window m.dp.toInt.toNat n := by
  intro k hk
  induction k with
  | zero =>
      obtain ⟨v, hv⟩ := h 0 hk
      obtain ⟨i, hi, -⟩ := index?_of_cell hv
      have hdp : m.dp + Int64.ofNat 0 = m.dp := Int64.add_zero _
      rw [hdp] at hi ⊢
      have htoInt := (index?_eq_some_iff.1 hi).1
      rw [hi]
      congr 1
      omega
  | succ k ih =>
      have hprev := (index?_eq_some_iff.1 (ih (by omega))).1
      obtain ⟨v, hv⟩ := h (k + 1) hk
      obtain ⟨i, hi, -⟩ := index?_of_cell hv
      have hnext := (index?_eq_some_iff.1 hi).1
      have hsucc : m.dp + Int64.ofNat (k + 1) = m.dp + Int64.ofNat k + 1 := by
        rw [Int64.ofNat_add, Int64.add_assoc]
        rfl
      -- If the sum wrapped, the position would be negative and have no index.
      have hbound := (m.dp + Int64.ofNat k).toInt_lt
      have hone : (1 : Int64).toInt = 1 := by decide
      rw [hsucc, Int64.toInt_add, hprev, hone, Int.bmod_def] at hnext
      rw [hprev] at hbound
      have hindex : i = m.dp.toInt.toNat + (k + 1) := by
        generalize m.dp.toInt.toNat = a at hnext hbound ⊢
        omega
      rw [hi, hindex]

theorem get_lay_getElem (m : Machine) (a : Nat) (vs : List UInt64) {k : Nat} (hk : k < vs.length)
    (h : a + k < m.tape.size) : (m.lay a vs).get (a + k) = vs[k] := by
  have hsplit : vs = vs.take k ++ vs[k] :: vs.drop (k + 1) := by
    rw [List.getElem_cons_drop, List.take_append_drop]
  have hlength : (vs.take k).length = k := by
    rw [List.length_take]
    omega
  have hget := m.get_lay a (vs.drop (k + 1)) (vs.take k) vs[k] (by rw [hlength]; exact h)
  rw [← hsplit, hlength] at hget
  exact hget

/-- The machine with a window filled in, and the data pointer in it: to its left the cells `ls`,
the nearest first, and to its right the cells `rs`. -/
def view (m : Machine) (a : Nat) (ls : List UInt64) (v : UInt64) (rs : List UInt64) : Machine :=
  (m.lay a (ls.reverse ++ v :: rs)).moved (.ofNat ls.length)

section View

variable {m : Machine} {a n : Nat} {ls rs : List UInt64} {l v w : UInt64}

theorem ofNat_succ_add_neg_one (k : Nat) : Int64.ofNat (k + 1) + -1 = Int64.ofNat k := by
  rw [Int64.ofNat_add, Int64.add_assoc]
  exact Int64.add_zero _

theorem dp_view : (m.view a ls v rs).dp = m.dp + .ofNat ls.length := by
  rw [view, dp_moved, dp_lay]

theorem width_view : (m.view a ls v rs).width = m.width := by
  rw [view, width_moved, width_lay]

theorem index?_view (p : Int64) : (m.view a ls v rs).index? p = m.index? p := by
  rw [view, index?_moved, index?_lay]

theorem view_right : (m.view a ls v (w :: rs)).moved 1 = m.view a (v :: ls) w rs := by
  rw [view, view, moved_moved, List.length_cons, Int64.ofNat_add, List.reverse_cons,
    List.append_assoc]
  rfl

theorem view_left : (m.view a (l :: ls) v rs).moved (-1) = m.view a ls l (v :: rs) := by
  rw [view, view, moved_moved, List.length_cons, ofNat_succ_add_neg_one, List.reverse_cons,
    List.append_assoc]
  rfl

theorem view_start : m.view a [] v rs = m.lay a (v :: rs) :=
  moved_zero _

/-- A shift by the number of cells to the left leads to the start of the window. -/
theorem view_home :
    (m.view a ls v rs).moved (-(.ofNat ls.length)) = m.lay a (ls.reverse ++ v :: rs) := by
  rw [view, moved_moved, Int64.add_right_neg, moved_zero]

/-! ## Shifts of a view -/

theorem quiet_shift_right :
    (Op.shift 1).quiet (m.view a ls v (w :: rs)) (.ok () (m.view a (v :: ls) w rs)) := by
  rw [← view_right]
  exact quiet_shift _ 1

theorem quiet_shift_left :
    (Op.shift (-1)).quiet (m.view a (l :: ls) v rs) (.ok () (m.view a ls l (v :: rs))) := by
  rw [← view_left]
  exact quiet_shift _ (-1)

theorem quiet_shift_right_two {u : UInt64} :
    (Op.shift 2).quiet (m.view a ls v (w :: u :: rs))
      (.ok () (m.view a (w :: v :: ls) u rs)) := by
  have h := quiet_shift (m.view a ls v (w :: u :: rs)) (1 + 1)
  rw [← moved_moved, view_right, view_right] at h
  exact h

theorem quiet_shift_left_two {k : UInt64} :
    (Op.shift (-2)).quiet (m.view a (l :: k :: ls) v rs)
      (.ok () (m.view a ls k (l :: v :: rs))) := by
  have h := quiet_shift (m.view a (l :: k :: ls) v rs) (-1 + -1)
  rw [← moved_moved, view_left, view_left] at h
  exact h

/-! ## Cells of a view -/

theorem set_view : (m.view a ls v rs).set (a + ls.length) w = m.view a ls w rs := by
  have h := m.set_lay a rs ls.reverse v w
  rw [List.length_reverse] at h
  rw [view, set_moved, h]
  rfl

theorem set_view_right {u : UInt64} :
    (m.view a ls v (u :: rs)).set (a + (ls.length + 1)) w = m.view a ls v (w :: rs) := by
  have h := m.set_lay a rs (ls.reverse ++ [v]) u w
  rw [List.length_append, List.length_reverse, List.append_assoc, List.append_assoc] at h
  rw [view, set_moved, view]
  exact congrArg (fun n : Machine => n.moved (.ofNat ls.length)) h

theorem set_view_left :
    (m.view a (l :: ls) v rs).set (a + ls.length) w = m.view a (w :: ls) v rs := by
  have h := m.set_lay a (v :: rs) ls.reverse l w
  rw [List.length_reverse] at h
  rw [view, set_moved, view, List.reverse_cons, List.reverse_cons, List.append_assoc,
    List.append_assoc]
  exact congrArg (fun n : Machine => n.moved (.ofNat (ls.length + 1))) h

section Cells

variable (hw : m.Window a n)

include hw

theorem here_view (hlen : ls.length < n) :
    (m.view a ls v rs).index? ((m.view a ls v rs).dp + 0) = some (a + ls.length) := by
  rw [index?_view, dp_view, Int64.add_zero, hw _ hlen]

theorem right_view (hlen : ls.length + 1 < n) :
    (m.view a ls v rs).index? ((m.view a ls v rs).dp + 1) = some (a + (ls.length + 1)) := by
  have h := hw (ls.length + 1) hlen
  rw [Int64.ofNat_add, ← Int64.add_assoc] at h
  rw [index?_view, dp_view]
  exact h

theorem left_view (hlen : ls.length < n) :
    (m.view a (l :: ls) v rs).index? ((m.view a (l :: ls) v rs).dp + (-1)) =
      some (a + ls.length) := by
  rw [index?_view, dp_view, List.length_cons, Int64.add_assoc, ofNat_succ_add_neg_one, hw _ hlen]

theorem get_view (hlen : ls.length < n) : (m.view a ls v rs).get (a + ls.length) = v := by
  have hlt := (index?_eq_some_iff.1 (hw _ hlen)).2
  have h := m.get_lay a rs ls.reverse v (by rw [List.length_reverse]; exact hlt)
  rw [List.length_reverse] at h
  exact h

theorem get_view_right (hlen : ls.length + 1 < n) :
    (m.view a ls v (w :: rs)).get (a + (ls.length + 1)) = w := by
  rw [← get_moved _ _ 1, view_right]
  exact get_view hw hlen

theorem get_view_left (hlen : ls.length < n) :
    (m.view a (l :: ls) v rs).get (a + ls.length) = l := by
  rw [← get_moved _ _ (-1), view_left]
  exact get_view hw hlen

/-! ## Ops on a view -/

theorem isOpen_view (hlen : ls.length < n) :
    isOpen (m.view a ls v rs) = .ok (v != 0) (m.view a ls v rs) := by
  rw [isOpen, bind_of_ok (locate_eq_ok (here_view hw hlen))]
  have hpeek : peek (a + ls.length) (m.view a ls v rs) = .ok v (m.view a ls v rs) :=
    congrArg (EStateM.Result.ok · _) (get_view hw hlen)
  rw [bind_of_ok hpeek]
  rfl

theorem quiet_add_view (hlen : ls.length < n) (k : Int64) :
    (Op.add k).quiet (m.view a ls v rs)
      (.ok () (m.view a ls (m.width.cut (v + k.toUInt64)) rs)) := by
  have hhere : (m.view a ls v rs).index? (m.view a ls v rs).dp = some (a + ls.length) := by
    rw [← Int64.add_zero (m.view a ls v rs).dp]
    exact here_view hw hlen
  have h := quiet_add hhere k
  rw [get_view hw hlen, set_view, width_view] at h
  exact h

theorem quiet_assertZero_view (hlen : ls.length < n) :
    (Op.assertZero [0]).quiet (m.view a ls 0 rs) (.ok () (m.view a ls 0 rs)) := by
  refine quiet_assertZero fun offset ho => ?_
  rw [List.mem_singleton] at ho
  subst ho
  exact ⟨_, here_view hw hlen, get_view hw hlen⟩

/-- The current cell is moved one to the right. -/
theorem quiet_move_right (hlen : ls.length + 1 < n) (hfit : m.width.Fits w) :
    (Op.move 0 1).quiet (m.view a ls v (w :: rs))
      (.ok () (m.view a ls 0 (m.width.cut (w + v) :: rs))) := by
  have h := quiet_move (m.view a ls v (w :: rs)) width_view
    (here_view hw (by omega)) (right_view hw hlen)
    (get_view hw (by omega)) (get_view_right hw hlen) hfit
  rw [set_view_right, set_view] at h
  exact h

/-- The cell to the left is moved to the current cell. -/
theorem quiet_move_from_left (hlen : ls.length + 1 < n) (hfit : m.width.Fits v) :
    (Op.move (-1) 0).quiet (m.view a (l :: ls) v rs)
      (.ok () (m.view a (0 :: ls) (m.width.cut (v + l)) rs)) := by
  have h := quiet_move (m.view a (l :: ls) v rs) width_view
    (left_view hw (by omega)) (here_view hw hlen)
    (get_view_left hw (by omega)) (get_view hw hlen) hfit
  rw [set_view, set_view_left] at h
  exact h

/-- The cell to the right is moved to the current cell. -/
theorem quiet_move_from_right (hlen : ls.length + 1 < n) (hfit : m.width.Fits v) :
    (Op.move 1 0).quiet (m.view a ls v (w :: rs))
      (.ok () (m.view a ls (m.width.cut (v + w)) (0 :: rs))) := by
  have h := quiet_move (m.view a ls v (w :: rs)) width_view
    (right_view hw hlen) (here_view hw (by omega))
    (get_view_right hw hlen) (get_view hw (by omega)) hfit
  rw [set_view, set_view_right] at h
  exact h

end Cells

end View

end Machine

end TapeForge
