import TapeForge.Gadget.Branch
import TapeForge.Proofs.OneRun
import TapeForge.Proofs.Reachable

/-!
# Branches

A branch sets one of two scratch cells before it looks at its origin. The body that runs clears
that cell afterwards, and as both loops are left on cells that do not depend on what the body made
of the origin, the other body does not run. In between, the origin may have to be put aside.
-/

namespace TapeForge.Gadget

open Machine Effect

/-! ## Three cells -/

theorem set_of_get {m : Machine} {i : Nat} {v : UInt64} (h : m.get i = v) : m.set i v = m := by
  rw [← h, set_get]

theorem quiet_there_and_back (n : Machine) (a : Offset) :
    (Op.shift (-a)).quiet (n.moved a) (.ok () n) := by
  have hshift := quiet_shift (n.moved a) (-a)
  rwa [moved_moved, Int64.add_right_neg, moved_zero] at hshift

structure Fork where
  origin : Nat
  first : Nat
  second : Nat

namespace Fork

/-- The cells of a branch are on the tape where the branch looks for them, and those it borrows are
zero. -/
structure Stands (k : Fork) (a b : Offset) (m : Machine) : Prop where
  origin : m.index? m.dp = some k.origin
  first : m.index? (m.dp + a) = some k.first
  second : m.index? (m.dp + b) = some k.second
  first_zero : m.get k.first = 0
  second_zero : m.get k.second = 0

/-- A body is back on the origin, with the borrowed cells as it found them. -/
structure Back (k : Fork) (m n : Machine) : Prop where
  shape : SameShape n m
  masked : n.Masked
  dp : n.dp = m.dp
  first : n.get k.first = 1
  second : n.get k.second = 0

/-- The ops run one of two bodies from the origin, and once: the first if the origin is not zero,
and else the second. It finds one borrowed cell one and the other zero; if it leaves them like that
and comes back to the origin, the ops are done there, with both cells zero. -/
def Chooses (k : Fork) (ops yes no : List Op) (m : Machine) : Prop :=
  RunsOnce ops m (if m.get k.origin = 0 then no else yes) (m.set k.first 1)
    (fun n => n.dp = m.dp ∧ n.get k.first = 1 ∧ n.get k.second = 0)
    fun n => { n.set k.first 0 with dp := m.dp }

section Cells

variable {k : Fork} {a b : Offset} {m n : Machine} (h : k.Stands a b m)
  (hne : [0, a, b].Nodup)

include h hne

theorem Stands.ne : k.origin ≠ k.first ∧ k.origin ≠ k.second ∧ k.first ≠ k.second := by
  have horigin := h.origin
  rw [← Int64.add_zero m.dp] at horigin
  obtain ⟨⟨h0a, h0b⟩, hab⟩ : (¬ 0 = a ∧ ¬ 0 = b) ∧ ¬ a = b := by simpa using hne
  exact ⟨index_ne horigin h.first h0a, index_ne horigin h.second h0b, index_ne h.first h.second hab⟩

omit hne in
theorem Stands.get_first (v : UInt64) (hn : SameShape n m) :
    (n.set k.first v).get k.first = v := by
  have hlt := (index?_eq_some_iff.1 h.first).2
  exact get_set_self _ _ (hn.size ▸ hlt)

/-- The machine as a body finds it. -/
theorem Stands.back (hm : m.Masked) : k.Back m (m.set k.first 1) where
  shape := ⟨size_set _ _ _, rfl⟩
  masked := hm.set _ m.width.fits_one
  dp := rfl
  first := h.get_first 1 ⟨rfl, rfl⟩
  second := by
    rw [get_set_ne _ _ (h.ne hne).2.2]
    exact h.second_zero

theorem Stands.get_origin (v : UInt64) : (n.set k.first v).get k.origin = n.get k.origin :=
  get_set_ne _ _ (h.ne hne).1.symm

/-- The cell that has been set, as the second loop finds it. -/
theorem Stands.open_first (hm : m.Masked) : ((m.set k.first 1).moved a).get k.first ≠ 0 := by
  rw [get_moved, (h.back hne hm).first]
  decide

end Cells

/-! ## Around a body -/

section Ops

variable {k : Fork} {a b : Offset} {m n : Machine}

theorem Back.index? (hn : k.Back m n) (p : Int64) : n.index? p = m.index? p :=
  hn.shape.index? p

variable (h : k.Stands a b m)

include h

theorem Stands.at_origin (hn : k.Back m n) : n.index? n.dp = some k.origin := by
  rw [hn.index?, hn.dp]
  exact h.origin

theorem Stands.at_first (hn : k.Back m n) : n.index? (n.dp + a) = some k.first := by
  rw [hn.index?, hn.dp]
  exact h.first

theorem Stands.at_second (hn : k.Back m n) : n.index? (n.dp + b) = some k.second := by
  rw [hn.index?, hn.dp]
  exact h.second

/-- Up to the first loop, one borrowed cell is set. -/
theorem Stands.quiet_raise :
    Op.quietAll [.assertZero [a, b], .shift a, .add 1, .shift (-a)] m
      (.ok () (m.set k.first 1)) := by
  have hassert : ∀ offset ∈ [a, b], ∃ i, m.index? (m.dp + offset) = some i ∧ m.get i = 0 := by
    rintro offset hoffset
    rcases List.mem_pair.1 hoffset with rfl | rfl
    · exact ⟨_, h.first, h.first_zero⟩
    · exact ⟨_, h.second, h.second_zero⟩
  have hadd := quiet_add (m := m.moved a) h.first 1
  have hone : m.width.cut (0 + (1 : Int64).toUInt64) = 1 := Width.cut_eq_self m.width.fits_one
  rw [get_moved, h.first_zero, width_moved, hone, set_moved] at hadd
  refine quietAll_step (quiet_assertZero hassert) (quietAll_step (quiet_shift m a) ?_)
  exact quietAll_step hadd (quietAll_step (quiet_there_and_back _ a) (quietAll_nil _))

/-- The borrowed cell that was set is cleared. -/
theorem Stands.quiet_lower (hn : k.Back m n) :
    (Op.add (-1)).quiet (n.moved a) (.ok () ((n.set k.first 0).moved a)) := by
  have hadd := quiet_add (m := n.moved a) (h.at_first hn) (-1)
  have hzero : n.width.cut (1 + (-1 : Int64).toUInt64) = 0 := Width.cut_eq_self n.width.fits_zero
  rw [get_moved, hn.first, width_moved, hzero, set_moved] at hadd
  exact hadd

/-- A machine on the cell that has been cleared. -/
theorem Stands.closed_first (hn : k.Back m n) :
    ((n.set k.first 0).moved a).index? ((n.set k.first 0).moved a).dp = some k.first ∧
      ((n.set k.first 0).moved a).get k.first = 0 := by
  refine ⟨?_, h.get_first 0 hn.shape⟩
  simpa using h.at_first hn

end Ops

end Fork

/-! ## Two cells in a row -/

/-- The ops of a branch on two cells in a row, after the first of them has been set. -/
def conseqLoops (yes no : List Op) (dist : Offset) : List Op := [
  .loop (yes ++ [.shift dist, .add (-1)]),
  .shift dist,
  .loop ([.shift (-dist)] ++ no ++ [.shift dist, .add (-1), .shift dist]),
  .shift (-2 * dist)]

section IfConseq

variable {k : Fork} {dist : Offset} {m n : Machine}

theorem ifConseq_eq_ok (hne : [0, dist, 2 * dist].Nodup) (yes no : List Op) :
    ifConseq yes no dist = .ok
      ([.assertZero [dist, 2 * dist], .shift dist, .add 1, .shift (-dist)] ++
        conseqLoops yes no dist) := by
  rw [ifConseq, (Op.requireDistinct_eq_ok_iff _).2 hne]
  rfl

theorem quiet_next (n : Machine) (dist : Offset) :
    (Op.shift dist).quiet (n.moved dist) (.ok () (n.moved (2 * dist))) := by
  have hnext := quiet_shift (n.moved dist) dist
  have hdouble : dist + dist = 2 * dist := by grind
  rwa [moved_moved, hdouble] at hnext

theorem quiet_home (n : Machine) (dist : Offset) :
    Op.quietAll [.shift (-2 * dist)] (n.moved (2 * dist)) (.ok () n) := by
  have hshift := quiet_shift (n.moved (2 * dist)) (-2 * dist)
  have hback : 2 * dist + -2 * dist = 0 := by grind
  rw [moved_moved, hback, moved_zero] at hshift
  exact quietAll_step hshift (quietAll_nil _)

variable (h : k.Stands dist (2 * dist) m) (hne : [0, dist, 2 * dist].Nodup) (yes no : List Op)

include h hne

/-- Past both loops, on the second borrowed cell. -/
theorem Fork.Stands.closed_second (hn : k.Back m n) :
    ((n.set k.first 0).moved (2 * dist)).index? ((n.set k.first 0).moved (2 * dist)).dp =
        some k.second ∧
      ((n.set k.first 0).moved (2 * dist)).get k.second = 0 := by
  constructor
  · simpa using h.at_second hn
  · rw [get_moved, get_set_ne _ _ (h.ne hne).2.2, hn.second]

/-- The first loop is left on the cell that was cleared in it, so the second is on another one. -/
theorem once_conseq_yes (hm : m.Masked) (hopen : m.get k.origin ≠ 0) :
    Once (Op.quietAll (conseqLoops yes no dist)) (m.set k.first 1) (Op.quietAll yes)
      (m.set k.first 1) (k.Back m) (·.set k.first 0) := by
  have hstart := h.back hne hm
  refine once_loop (h.at_origin hstart) (by rwa [h.get_origin hne]) (once_here fun n hn => ?_)
    (fun n hn => ⟨_, h.closed_first hn⟩) fun n hn => ?_
  · exact quietAll_step (quiet_shift n dist) (quietAll_step (h.quiet_lower hn) (quietAll_nil _))
  · obtain ⟨hindex, hzero⟩ := h.closed_second hne hn
    refine quietAll_step (quiet_next _ _) ?_
    exact quietAll_step (quiet_loop_closed hindex hzero _) (quiet_home _ _)

theorem once_conseq_no (hm : m.Masked) (hclosed : m.get k.origin = 0) :
    Once (Op.quietAll (conseqLoops yes no dist)) (m.set k.first 1) (Op.quietAll no)
      (m.set k.first 1) (k.Back m) (·.set k.first 0) := by
  have hstart := h.back hne hm
  have hbody : Once (Op.quietAll ([.shift (-dist)] ++ no ++ [.shift dist, .add (-1), .shift dist]))
      ((m.set k.first 1).moved dist) (Op.quietAll no) (m.set k.first 1) (k.Back m)
      (fun n => (n.set k.first 0).moved (2 * dist)) := by
    refine once_step (quiet_there_and_back _ dist) (once_here fun n hn => ?_)
    refine quietAll_step (quiet_shift n dist) (quietAll_step (h.quiet_lower hn) ?_)
    exact quietAll_step (quiet_next _ _) (quietAll_nil _)
  refine once_step (quiet_loop_closed (h.at_origin hstart) (by rwa [h.get_origin hne]) _)
    (once_step (quiet_shift _ dist) ?_)
  exact once_loop (h.at_first hstart) (h.open_first hne hm) hbody
    (fun n hn => ⟨_, h.closed_second hne hn⟩) fun n _ => quiet_home _ _

end IfConseq

/-! ## Two cells anywhere -/

/-- The ops of a branch on two cells, after the first of them has been set. -/
def tmpsLoops (tmp1 tmp2 : Offset) (yes no : List Op) : List Op := [
  .loop (yes ++ [.shift tmp1, .add (-1), .shift (-tmp1), .move 0 tmp2]),
  .move tmp2 0,
  .shift tmp1,
  .loop ([.shift (-tmp1)] ++ no ++ [.shift tmp1, .add (-1)]),
  .shift (-tmp1)]

section IfTmps

variable {k : Fork} {a b : Offset} {m n : Machine}

theorem ifTmps_eq_ok (hne : [0, a, b].Nodup) (yes no : List Op) :
    ifTmps a b yes no = .ok
      ([.assertZero [a, b], .shift a, .add 1, .shift (-a)] ++ tmpsLoops a b yes no) := by
  rw [ifTmps, (Op.requireDistinct_eq_ok_iff _).2 hne]
  rfl

/-- The machine with the value of the origin put aside. -/
def Fork.aside (k : Fork) (n : Machine) : Machine :=
  ((n.set k.first 0).set k.second (n.get k.origin)).set k.origin 0

variable (h : k.Stands a b m) (hne : [0, a, b].Nodup) (yes no : List Op)

include h hne

omit hne in
/-- On the origin, which has been put aside. -/
theorem Fork.Stands.closed_aside (hn : k.Back m n) :
    (k.aside n).index? (k.aside n).dp = some k.origin ∧ (k.aside n).get k.origin = 0 := by
  refine ⟨by simpa [Fork.aside] using h.at_origin hn, get_set_self _ _ ?_⟩
  simpa [hn.shape.size] using (index?_eq_some_iff.1 h.origin).2

theorem Fork.Stands.quiet_put_aside (hn : k.Back m n) :
    (Op.move 0 b).quiet (n.set k.first 0) (.ok () (k.aside n)) := by
  obtain ⟨hof, hos, hfs⟩ := h.ne hne
  -- The second cell is zero and the value is masked, so the move does not cut it.
  have hmove := quiet_move (n.set k.first 0) rfl
    (show Machine.index? _ (_ + 0) = _ by simpa using h.at_origin hn)
    (show Machine.index? _ (_ + b) = _ by simpa using h.at_second hn)
    (get_set_ne _ _ hof.symm) (get_set_ne _ _ hfs) (by rw [hn.second]; exact Width.fits_zero _)
  rw [hn.second, UInt64.zero_add, width_set, Width.cut_eq_self (hn.masked.fits _)] at hmove
  exact hmove

theorem Fork.Stands.quiet_put_back (hn : k.Back m n) :
    (Op.move b 0).quiet (k.aside n) (.ok () (n.set k.first 0)) := by
  obtain ⟨-, hos, hfs⟩ := h.ne hne
  have hsize : (n.set k.first 0).tape.size = m.tape.size := (size_set _ _ _).trans hn.shape.size
  have hsecond : (k.aside n).get k.second = n.get k.origin := by
    rw [aside, get_set_ne _ _ hos]
    exact get_set_self _ _ (hsize ▸ (index?_eq_some_iff.1 h.second).2)
  have hmove := quiet_move (k.aside n) rfl
    (show Machine.index? _ (_ + b) = _ by simpa [Fork.aside] using h.at_second hn)
    (show Machine.index? _ (_ + 0) = _ by simpa [Fork.aside] using h.at_origin hn)
    hsecond (h.closed_aside hn).2 (Width.fits_zero _)
  -- The second cell is zero again, and the origin has the value that it had.
  have hrestored : ((k.aside n).set k.origin (n.get k.origin)).set k.second 0 =
      n.set k.first 0 := by
    rw [Fork.aside, set_set, set_comm _ _ _ hos, set_set,
      set_of_get ((get_set_ne _ _ hfs).trans hn.second), set_of_get (h.get_origin hne 0)]
  have hwidth : (k.aside n).width = n.width := rfl
  rw [UInt64.zero_add, hwidth, Width.cut_eq_self (hn.masked.fits _), hrestored] at hmove
  exact hmove

omit hne in
/-- Where nothing has been put aside, nothing is put back. -/
theorem Fork.Stands.quiet_put_none (hn : k.Back m n) : (Op.move b 0).quiet n (.ok () n) := by
  refine Op.quiet_ok (by simp) ?_
  rw [perform, bind_of_ok (doMove_zero (h.at_second hn) hn.second)]
  rfl

/-- The first loop is left with the origin put aside, which is put back after it. -/
theorem once_tmps_yes (hm : m.Masked) (hopen : m.get k.origin ≠ 0) :
    Once (Op.quietAll (tmpsLoops a b yes no)) (m.set k.first 1) (Op.quietAll yes)
      (m.set k.first 1) (k.Back m) (·.set k.first 0) := by
  have hstart := h.back hne hm
  have hbody : Once (Op.quietAll (yes ++ [.shift a, .add (-1), .shift (-a), .move 0 b]))
      (m.set k.first 1) (Op.quietAll yes) (m.set k.first 1) (k.Back m) k.aside := by
    refine once_here fun n hn => ?_
    refine quietAll_step (quiet_shift n a) (quietAll_step (h.quiet_lower hn) ?_)
    refine quietAll_step (quiet_there_and_back _ a) ?_
    exact quietAll_step (h.quiet_put_aside hne hn) (quietAll_nil _)
  refine once_loop (h.at_origin hstart) (by rwa [h.get_origin hne]) hbody
    (fun n hn => ⟨_, h.closed_aside hn⟩) fun n hn => ?_
  obtain ⟨hindex, hzero⟩ := h.closed_first hn
  refine quietAll_step (h.quiet_put_back hne hn) (quietAll_step (quiet_shift _ a) ?_)
  refine quietAll_step (quiet_loop_closed hindex hzero _) ?_
  exact quietAll_step (quiet_there_and_back _ a) (quietAll_nil _)

theorem once_tmps_no (hm : m.Masked) (hclosed : m.get k.origin = 0) :
    Once (Op.quietAll (tmpsLoops a b yes no)) (m.set k.first 1) (Op.quietAll no)
      (m.set k.first 1) (k.Back m) (·.set k.first 0) := by
  have hstart := h.back hne hm
  have hbody : Once (Op.quietAll ([.shift (-a)] ++ no ++ [.shift a, .add (-1)]))
      ((m.set k.first 1).moved a) (Op.quietAll no) (m.set k.first 1) (k.Back m)
      (fun n => (n.set k.first 0).moved a) := by
    refine once_step (quiet_there_and_back _ a) (once_here fun n hn => ?_)
    exact quietAll_step (quiet_shift n a) (quietAll_step (h.quiet_lower hn) (quietAll_nil _))
  refine once_step (quiet_loop_closed (h.at_origin hstart) (by rwa [h.get_origin hne]) _)
    (once_step (h.quiet_put_none hstart) (once_step (quiet_shift _ a) ?_))
  refine once_loop (h.at_first hstart) (h.open_first hne hm) hbody
    (fun n hn => ⟨_, h.closed_first hn⟩) fun n _ => ?_
  exact quietAll_step (quiet_there_and_back _ a) (quietAll_nil _)

end IfTmps

/-! ## The whole branch -/

/-- The machine that a run ends in has masked cells if the one it starts from has. -/
theorem masked_exec (fuel : Nat) (ops : List Op) {m : Machine} (hm : m.Masked) :
    ∀ v ∈ (exec fuel ops m).state.tape, m.width.Fits v := by
  have hmasked := ((persistent_of_lifelong (lifelong_cells m.tape.size) fun _ _ h => h).run
    (.direct ops) fuel ⟨hm, rfl⟩).1
  have hwidth := (sameShape_exec fuel ops m).width
  intro v hv
  rw [← hwidth]
  exact hmasked v hv

/-- That the body leaves masked cells masked need not be asked of the machine that it ends in. -/
theorem RunsOnce.of_masked {ops body : List Op} {m n : Machine} {fit : Machine → Prop}
    {finish : Machine → Machine} (hn : n.Masked)
    (h : RunsOnce ops m body n (fun k => (∀ v ∈ k.tape, n.width.Fits v) ∧ fit k) finish) :
    RunsOnce ops m body n fit finish where
  done {fuel n'} hrun hfit := by
    have hmasked := masked_exec fuel body hn
    rw [hrun] at hmasked
    exact h.done hrun ⟨hmasked, hfit⟩
  failed := h.failed
  ends := h.ends

section Whole

variable {k : Fork} {a b : Offset} {m : Machine} {loops yes no : List Op}

/-- Loops that come down to one body or the other, once the first borrowed cell is set. -/
theorem Fork.Stands.chooses (h : k.Stands a b m) (hne : [0, a, b].Nodup) (hlimit : m.limit ≤ 0)
    (hm : m.Masked)
    (hyes : m.get k.origin ≠ 0 → Once (Op.quietAll loops) (m.set k.first 1) (Op.quietAll yes)
      (m.set k.first 1) (k.Back m) (·.set k.first 0))
    (hno : m.get k.origin = 0 → Once (Op.quietAll loops) (m.set k.first 1) (Op.quietAll no)
      (m.set k.first 1) (k.Back m) (·.set k.first 0)) :
    k.Chooses ([.assertZero [a, b], .shift a, .add 1, .shift (-a)] ++ loops) yes no m := by
  have hstart := h.back hne hm
  have honce : Once (Op.quietAll loops) (m.set k.first 1)
      (Op.quietAll (if m.get k.origin = 0 then no else yes)) (m.set k.first 1) (k.Back m)
      (·.set k.first 0) := by
    split
    · exact hno ‹_›
    · exact hyes ‹_›
  -- Masked cells come from the body; the place and the borrowed cells are asked of it.
  have hback : ∀ n, SameShape n (m.set k.first 1) ∧ (∀ v ∈ n.tape, m.width.Fits v) ∧
      n.dp = m.dp ∧ n.get k.first = 1 ∧ n.get k.second = 0 → k.Back m n := by
    rintro n ⟨hshape, hmask, hdp, hfirst, hsecond⟩
    refine ⟨⟨hshape.size.trans hstart.shape.size, hshape.width⟩, ?_, hdp, hfirst, hsecond⟩
    rwa [Masked, hshape.width]
  refine RunsOnce.of_masked hstart.masked ?_
  refine runsOnce_of_once hlimit hlimit ?_ (fun hn => hn.set_place k.first 0 m.dp)
    (once_after h.quiet_raise (honce.mono hback fun n hn => ?_))
  · rintro n n' hn ⟨hmask, hdp, hfirst, hsecond⟩
    exact ⟨hn.tape ▸ hmask, hn.dp ▸ hdp, hn.get _ ▸ hfirst, hn.get _ ▸ hsecond⟩
  · rw [← (hback n hn).dp]
    rfl

end Whole

/-- Both branches run one body, and once: `yes` if the origin is not zero, and else `no`, whatever
the body makes of the origin. It starts on the origin, with the first borrowed cell one and the
second zero. If it comes back to the origin and leaves these as they were, then the branch ends on
the origin with both zero, and all else is as the body left it. -/
theorem branches_run_one_body (m : Machine) (yes no : List Op) (k : Fork) (hlimit : m.limit ≤ 0)
    (hm : m.Masked) :
    (∀ dist, [0, dist, 2 * dist].Nodup → k.Stands dist (2 * dist) m →
      ∃ ops, ifConseq yes no dist = .ok ops ∧ k.Chooses ops yes no m) ∧
    ∀ tmp1 tmp2, [0, tmp1, tmp2].Nodup → k.Stands tmp1 tmp2 m →
      ∃ ops, ifTmps tmp1 tmp2 yes no = .ok ops ∧ k.Chooses ops yes no m := by
  constructor
  · intro dist hne h
    exact ⟨_, ifConseq_eq_ok hne yes no, h.chooses hne hlimit hm
      (once_conseq_yes h hne yes no hm) (once_conseq_no h hne yes no hm)⟩
  · intro tmp1 tmp2 hne h
    exact ⟨_, ifTmps_eq_ok hne yes no, h.chooses hne hlimit hm
      (once_tmps_yes h hne yes no hm) (once_tmps_no h hne yes no hm)⟩

/-- On cells of two bytes, 256 is not zero: the first body clears it and counts in the next cell
but two. In checked mode, the second body makes a zero origin 5, and the first body, which would
leave the tape, is not run after it. -/
theorem branches_run_one_body_turned :
    (∃ ops fuel m', ifConseq [.zero, .shift 3, .add 1, .shift (-3)] [.shift 9, .write] 1 = .ok ops ∧
      exec fuel ops { tape := #[256, 0, 0, 9], width := .two } = .done m' ∧
      SameState m' { tape := #[0, 0, 0, 10], width := .two }) ∧
    ∃ ops fuel m', ifTmps 2 (-1) [.shift 9, .write] [.add 5, .write] = .ok ops ∧
      exec fuel ops { tape := #[0, 0, 7, 0], dp := 1, width := .one, checked := true } =
        .done m' ∧
      SameState m'
        { tape := #[0, 5, 7, 0], dp := 1, width := .one, output := { bytes := #[5] } } := by
  constructor
  · have hbody : exec 9 [.zero, .shift 3, .add 1, .shift (-3)]
        { tape := #[256, 1, 0, 9], width := .two } =
        .done { tape := #[0, 1, 0, 10], width := .two, steps := 4 } := rfl
    obtain ⟨ops, hops, hchoose⟩ := (branches_run_one_body { tape := #[256, 0, 0, 9], width := .two }
      [.zero, .shift 3, .add 1, .shift (-3)] [.shift 9, .write] ⟨0, 1, 2⟩ (by decide)
      (by decide)).1 1 (by decide) ⟨rfl, rfl, rfl, rfl, rfl⟩
    obtain ⟨fuel, m', hrun, hm'⟩ := RunsOnce.done hchoose hbody ⟨rfl, rfl, rfl⟩
    exact ⟨ops, fuel, m', hops, hrun, hm'.trans ⟨rfl, rfl, rfl, rfl, rfl, rfl⟩⟩
  · have hbody : exec 9 [.add 5, .write]
        { tape := #[0, 0, 7, 1], dp := 1, width := .one, checked := true } =
        .done { tape := #[0, 5, 7, 1], dp := 1, width := .one, checked := true,
                output := { bytes := #[5] }, steps := 2 } := rfl
    obtain ⟨ops, hops, hchoose⟩ := (branches_run_one_body
      { tape := #[0, 0, 7, 0], dp := 1, width := .one, checked := true } [.shift 9, .write]
      [.add 5, .write] ⟨1, 3, 0⟩ (by decide) (by decide)).2 2 (-1) (by decide)
      ⟨rfl, rfl, rfl, rfl, rfl⟩
    obtain ⟨fuel, m', hrun, hm'⟩ := RunsOnce.done hchoose hbody ⟨rfl, rfl, rfl⟩
    exact ⟨ops, fuel, m', hops, hrun, hm'.trans ⟨rfl, rfl, rfl, rfl, rfl, rfl⟩⟩

end TapeForge.Gadget
