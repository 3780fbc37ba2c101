import TapeForge.Gadget.Equal
import TapeForge.Proofs.OneRun

/-!
# The equality test

The test takes the literal from its subject, so that zero is left exactly where the two are equal,
and turns that into a flag: one for zero, and zero for anything else. Then it puts the subject back
together. Four cells are worked on, and their values are followed through the ops.
-/

namespace TapeForge

namespace Width

/-- One less than zero, and then one more. -/
theorem cut_cut_sub_one_add_one (w : Width) : w.cut (w.cut (0 + -1) + 1) = 0 := by
  cases w <;> decide

end Width

namespace Gadget

open Machine Effect

/-! ## Four cells -/

/-- The indices of the cells of an equality test. -/
structure Desk where
  subject : Nat
  flag : Nat
  tmp : Nat
  save : Nat

namespace Desk

/-- The cells of a test are on the tape where the test looks for them, and none is another. -/
structure Stands (k : Desk) (s : EqScratch) (m : Machine) : Prop where
  subject : m.index? m.dp = some k.subject
  flag : m.index? (m.dp + s.flag) = some k.flag
  tmp : m.index? (m.dp + s.tmp) = some k.tmp
  save : m.index? (m.dp + s.save) = some k.save
  apart : [k.subject, k.flag, k.tmp, k.save].Nodup

/-- The machine with values in the cells of a test, and the data pointer moved. -/
def lay (k : Desk) (m : Machine) (subject flag tmp save : UInt64) (shift : Int64) : Machine :=
  ((((m.set k.subject subject).set k.flag flag).set k.tmp tmp).set k.save save).moved shift

section Lay

variable (k : Desk) (m : Machine) (a b c d x : UInt64) (p q : Int64)

@[simp] theorem moved_lay : (k.lay m a b c d p).moved q = k.lay m a b c d (p + q) :=
  moved_moved _ _ _

@[simp] theorem dp_lay : (k.lay m a b c d p).dp = m.dp + p := rfl

@[simp] theorem width_lay : (k.lay m a b c d p).width = m.width := rfl

@[simp] theorem index?_lay (pos : Int64) : (k.lay m a b c d p).index? pos = m.index? pos := by
  simp only [lay, index?_moved, index?_set]

theorem set_save : (k.lay m a b c d p).set k.save x = k.lay m a b c x p := by
  rw [lay, set_moved, set_set, lay]

theorem lay_self :
    k.lay m (m.get k.subject) (m.get k.flag) (m.get k.tmp) (m.get k.save) 0 = m := by
  simp only [lay, set_get, moved_zero]

variable {k m} {s : EqScratch} (h : k.Stands s m)

include h

theorem Stands.ne : k.subject ≠ k.flag ∧ k.subject ≠ k.tmp ∧ k.subject ≠ k.save ∧
    k.flag ≠ k.tmp ∧ k.flag ≠ k.save ∧ k.tmp ≠ k.save := by
  simpa [and_assoc] using h.apart

theorem Stands.set_subject : (k.lay m a b c d p).set k.subject x = k.lay m x b c d p := by
  obtain ⟨hf, ht, hv, -⟩ := h.ne
  rw [lay, set_moved, set_comm _ _ _ hv.symm, set_comm _ _ _ ht.symm, set_comm _ _ _ hf.symm,
    set_set, lay]

theorem Stands.set_flag : (k.lay m a b c d p).set k.flag x = k.lay m a x c d p := by
  obtain ⟨-, -, -, ht, hv, -⟩ := h.ne
  rw [lay, set_moved, set_comm _ _ _ hv.symm, set_comm _ _ _ ht.symm, set_set, lay]

theorem Stands.set_tmp : (k.lay m a b c d p).set k.tmp x = k.lay m a b x d p := by
  obtain ⟨-, -, -, -, -, hv⟩ := h.ne
  rw [lay, set_moved, set_comm _ _ _ hv.symm, set_set, lay]

theorem Stands.get_subject : (k.lay m a b c d p).get k.subject = a := by
  have hlt := (index?_eq_some_iff.1 h.subject).2
  rw [← h.set_subject a b c d a p]
  exact get_set_self _ _ (by simpa [lay] using hlt)

theorem Stands.get_flag : (k.lay m a b c d p).get k.flag = b := by
  have hlt := (index?_eq_some_iff.1 h.flag).2
  rw [← h.set_flag a b c d b p]
  exact get_set_self _ _ (by simpa [lay] using hlt)

theorem Stands.get_tmp : (k.lay m a b c d p).get k.tmp = c := by
  have hlt := (index?_eq_some_iff.1 h.tmp).2
  rw [← h.set_tmp a b c d c p]
  exact get_set_self _ _ (by simpa [lay] using hlt)

theorem Stands.get_save : (k.lay m a b c d p).get k.save = d := by
  have hlt := (index?_eq_some_iff.1 h.save).2
  rw [← set_save k m a b c d d p]
  exact get_set_self _ _ (by simpa [lay] using hlt)

end Lay

end Desk

/-! ## Up to the flag -/

/-- The ops of the test up to the flag, with the data pointer left there. -/
def EqScratch.compare (s : EqScratch) (lit : UInt8) : List Op := [
  .assertZero [s.flag, s.tmp, s.save],
  .add (-Int64.ofNat lit.toNat),
  .copy 0 s.tmp s.save,
  .loop [.shift s.tmp, .add (-1), .shift (-s.tmp), .zero],
  .move s.save 0,
  .shift s.tmp,
  .add 1,
  .move 0 (s.flag - s.tmp),
  .shift (s.flag - s.tmp)]

theorem EqScratch.ifEqThen_eq_ok {s : EqScratch} (h : [0, s.flag, s.tmp, s.save].Nodup)
    (lit : UInt8) (body : List Op) :
    s.ifEqThen lit body = .ok (s.compare lit ++
      [.loop (.zero :: body), .shift (-s.flag), .add (.ofNat lit.toNat)]) := by
  rw [EqScratch.ifEqThen, (Op.requireDistinct_eq_ok_iff _).2 h]
  rfl

namespace Desk

section Ops

variable {k : Desk} {s : EqScratch} {m : Machine} {a b c d : UInt64}

theorem quiet_shift_lay {p q r : Int64} (hr : p + q = r) :
    (Op.shift q).quiet (k.lay m a b c d p) (.ok () (k.lay m a b c d r)) := by
  rw [← hr, ← moved_lay]
  exact quiet_shift _ q

theorem toUInt64_ofNat_toNat (lit : UInt8) : (Int64.ofNat lit.toNat).toUInt64 = lit.toUInt64 :=
  UInt64.ofNat_uInt8ToNat lit

variable (h : k.Stands s m)

include h

theorem Stands.at_subject :
    (k.lay m a b c d 0).index? (k.lay m a b c d 0).dp = some k.subject := by
  simpa using h.subject

theorem Stands.at_tmp :
    (k.lay m a b c d s.tmp).index? (k.lay m a b c d s.tmp).dp = some k.tmp := by
  simpa using h.tmp

theorem Stands.at_flag :
    (k.lay m a b c d s.flag).index? (k.lay m a b c d s.flag).dp = some k.flag := by
  simpa using h.flag

theorem quiet_add_subject (n : Int64) :
    (Op.add n).quiet (k.lay m a b c d 0)
      (.ok () (k.lay m (m.width.cut (a + n.toUInt64)) b c d 0)) := by
  have hadd := quiet_add (h.at_subject (a := a) (b := b) (c := c) (d := d)) n
  rw [h.get_subject, h.set_subject] at hadd
  exact hadd

theorem quiet_add_tmp (n : Int64) :
    (Op.add n).quiet (k.lay m a b c d s.tmp)
      (.ok () (k.lay m a b (m.width.cut (c + n.toUInt64)) d s.tmp)) := by
  have hadd := quiet_add (h.at_tmp (a := a) (b := b) (c := c) (d := d)) n
  rw [h.get_tmp, h.set_tmp] at hadd
  exact hadd

theorem quiet_zero_subject :
    Op.zero.quiet (k.lay m a b c d 0) (.ok () (k.lay m 0 b c d 0)) := by
  have hzero := quiet_zero (h.at_subject (a := a) (b := b) (c := c) (d := d))
  rw [h.set_subject] at hzero
  exact hzero

/-- The loop of the test: anything but zero is taken away, and leaves one less than zero. -/
theorem quiet_mark :
    (Op.loop [.shift s.tmp, .add (-1), .shift (-s.tmp), .zero]).quiet (k.lay m a b c d 0)
      (.ok () (k.lay m 0 b (if a = 0 then c else m.width.cut (c + -1)) d 0)) := by
  by_cases ha : a = 0
  · subst ha
    exact quiet_loop_closed h.at_subject (h.get_subject ..) _
  · rw [if_neg ha]
    refine quiet_loop_once (h.at_subject) (by rwa [h.get_subject]) ?_ h.at_subject
      (h.get_subject ..)
    refine quietAll_step (quiet_shift_lay (Int64.zero_add _)) ?_
    refine quietAll_step (quiet_add_tmp h (-1)) ?_
    refine quietAll_step (quiet_shift_lay (Int64.add_right_neg _)) ?_
    exact quietAll_step (quiet_zero_subject h) (quietAll_nil _)

/-- The difference is copied. -/
theorem quiet_copy_subject (hfit : m.width.Fits a) :
    (Op.copy 0 s.tmp s.save).quiet (k.lay m a b 0 0 0) (.ok () (k.lay m a b 0 a 0)) := by
  obtain ⟨-, hst, hsv, -, -, htv⟩ := h.ne
  have hcopy := quiet_copy (m := k.lay m a b 0 0 0)
    (show Machine.index? _ (_ + 0) = _ by simpa using h.subject)
    (show Machine.index? _ (_ + s.tmp) = _ by simpa using h.tmp)
    (show Machine.index? _ (_ + s.save) = _ by simpa using h.save) hst hsv htv
    (by rw [h.get_subject]; exact hfit) (h.get_tmp ..) (h.get_save ..)
  rw [h.get_subject, set_save] at hcopy
  exact hcopy

/-- The copy is moved back. -/
theorem quiet_move_save (hfit : m.width.Fits d) :
    (Op.move s.save 0).quiet (k.lay m 0 b c d 0) (.ok () (k.lay m d b c 0 0)) := by
  have hmove := quiet_move (k.lay m 0 b c d 0) rfl
    (show Machine.index? _ (_ + s.save) = _ by simpa using h.save)
    (show Machine.index? _ (_ + 0) = _ by simpa using h.subject) (h.get_save ..) (h.get_subject ..)
    (Width.fits_zero _)
  rw [h.set_subject, set_save, UInt64.zero_add, width_lay,
    Width.cut_eq_self hfit] at hmove
  exact hmove

theorem quiet_move_tmp (hfit : m.width.Fits c) :
    (Op.move 0 (s.flag - s.tmp)).quiet (k.lay m a 0 c d s.tmp)
      (.ok () (k.lay m a c 0 d s.tmp)) := by
  have hflag : m.dp + s.tmp + (s.flag - s.tmp) = m.dp + s.flag := by
    rw [Int64.add_assoc]
    congr 1
    grind
  have hmove := quiet_move (k.lay m a 0 c d s.tmp) rfl
    (show Machine.index? _ (_ + 0) = _ by simpa using h.tmp)
    (show Machine.index? _ (_ + (s.flag - s.tmp)) = _ by simpa [hflag] using h.flag)
    (h.get_tmp ..) (h.get_flag ..) (Width.fits_zero _)
  rw [h.set_flag, h.set_tmp, UInt64.zero_add, width_lay, Width.cut_eq_self hfit] at hmove
  exact hmove

/-- The flag is one exactly where the subject was the literal. -/
theorem quiet_compare (lit : UInt8) {x : UInt64} (hx : m.width.cut (a - lit.toUInt64) = x) :
    Op.quietAll (s.compare lit) (k.lay m a 0 0 0 0)
      (.ok () (k.lay m x (if x = 0 then 1 else 0) 0 0 s.flag)) := by
  have hfit : m.width.Fits x := hx ▸ Width.fits_cut _ _
  have hassert : ∀ offset ∈ [s.flag, s.tmp, s.save], ∃ i,
      (k.lay m a 0 0 0 0).index? ((k.lay m a 0 0 0 0).dp + offset) = some i ∧
        (k.lay m a 0 0 0 0).get i = 0 := by
    simp only [List.forall_mem_cons, index?_lay, dp_lay, Int64.add_zero]
    exact ⟨⟨_, h.flag, h.get_flag ..⟩, ⟨_, h.tmp, h.get_tmp ..⟩, ⟨_, h.save, h.get_save ..⟩, nofun⟩
  have hsub : m.width.cut (a + (-Int64.ofNat lit.toNat).toUInt64) = x := by
    rw [Int64.toUInt64_neg, toUInt64_ofNat_toNat, ← hx, UInt64.sub_eq_add_neg]
  -- The scratch cell is taken one down where the difference is not zero, and then one up.
  have hone : m.width.cut ((if x = 0 then 0 else m.width.cut (0 + -1)) + 1) =
      if x = 0 then 1 else 0 := by
    split
    · exact Width.cut_eq_self m.width.fits_one
    · exact Width.cut_cut_sub_one_add_one _
  have hadd := quiet_add_subject h (a := a) (b := 0) (c := 0) (d := 0) (-Int64.ofNat lit.toNat)
  have hadd' := quiet_add_tmp h (a := x) (b := 0)
    (c := if x = 0 then 0 else m.width.cut (0 + -1)) (d := 0) 1
  rw [hsub] at hadd
  rw [show (1 : Int64).toUInt64 = 1 from rfl, hone] at hadd'
  have hflag : m.width.Fits (if x = 0 then 1 else 0) := hone ▸ Width.fits_cut _ _
  -- One step for each op of the test, from the first to the shift onto the flag.
  refine quietAll_step (quiet_assertZero hassert) (quietAll_step hadd ?_)
  refine quietAll_step (quiet_copy_subject h hfit) (quietAll_step (quiet_mark h) ?_)
  refine quietAll_step (quiet_move_save h hfit) ?_
  refine quietAll_step (quiet_shift_lay (Int64.zero_add _)) (quietAll_step hadd' ?_)
  refine quietAll_step (quiet_move_tmp h hflag) ?_
  refine quietAll_step (quiet_shift_lay (r := s.flag) (by grind)) (quietAll_nil _)

end Ops

end Desk

/-! ## The whole test -/

theorem Desk.stands {s : EqScratch} {m : Machine} {i f t v : Nat}
    (hs : m.index? m.dp = some i) (hf : m.index? (m.dp + s.flag) = some f)
    (ht : m.index? (m.dp + s.tmp) = some t) (hv : m.index? (m.dp + s.save) = some v)
    (hne : [0, s.flag, s.tmp, s.save].Nodup) : (Desk.mk i f t v).Stands s m where
  subject := hs
  flag := hf
  tmp := ht
  save := hv
  apart := by
    rw [← Int64.add_zero m.dp] at hs
    simp only [List.nodup_cons, List.mem_cons, not_or, List.not_mem_nil, not_false_eq_true,
      List.nodup_nil, and_true] at hne ⊢
    obtain ⟨⟨hsf, hst, hsv⟩, ⟨hft, hfv⟩, htv⟩ := hne
    exact ⟨⟨index_ne hs hf hsf, index_ne hs ht hst, index_ne hs hv hsv⟩,
      ⟨index_ne hf ht hft, index_ne hf hv hfv⟩, index_ne ht hv htv⟩

section Whole

variable {k : Desk} {s : EqScratch} {m : Machine} {u : UInt64} (h : k.Stands s m) (lit : UInt8)
  (body : List Op)

include h

/-- The subject is put together again. -/
theorem quiet_rest_unequal (hu : m.width.Fits u) (hne : u ≠ lit.toUInt64) :
    Op.quietAll
      (s.compare lit ++ [.loop (.zero :: body), .shift (-s.flag), .add (.ofNat lit.toNat)])
      (k.lay m u 0 0 0 0) (.ok () (k.lay m u 0 0 0 0)) := by
  have hx : m.width.cut (u - lit.toUInt64) ≠ 0 := by
    rwa [Ne, Width.cut_sub_eq_zero_iff hu (Width.fits_byte _ _)]
  have hcompare := Desk.quiet_compare h lit (a := u) rfl
  have hadd := Desk.quiet_add_subject h (a := m.width.cut (u - lit.toUInt64))
    (b := 0) (c := 0) (d := 0) (.ofNat lit.toNat)
  rw [if_neg hx] at hcompare
  rw [Desk.toUInt64_ofNat_toNat, Width.cut_cut_add, UInt64.sub_add_cancel,
    Width.cut_eq_self hu] at hadd
  refine quietAll_append_ok hcompare ?_
  refine quietAll_step (quiet_loop_closed h.at_flag (h.get_flag ..) _) ?_
  refine quietAll_step (Desk.quiet_shift_lay (Int64.add_right_neg _)) ?_
  exact quietAll_step hadd (quietAll_nil _)

theorem once_rest_equal :
    Once (Op.quietAll (s.compare lit ++
        [.loop (.zero :: body), .shift (-s.flag), .add (.ofNat lit.toNat)]))
      (k.lay m lit.toUInt64 0 0 0 0) (Op.quietAll body) (k.lay m 0 0 0 0 s.flag)
      (fun n => SameShape n (k.lay m 0 0 0 0 s.flag) ∧ n.dp = m.dp + s.flag ∧ n.get k.flag = 0)
      (fun n =>
        { n.set k.subject (m.width.cut (n.get k.subject + lit.toUInt64)) with dp := m.dp }) := by
  have hcompare := Desk.quiet_compare h lit (a := lit.toUInt64) (x := 0) (by
    rw [UInt64.sub_self]
    exact Width.cut_eq_self (Width.fits_zero _))
  have hzero := quiet_zero (h.at_flag (a := 0) (b := 1) (c := 0) (d := 0))
  rw [if_pos rfl] at hcompare
  rw [h.set_flag] at hzero
  have hopen : (k.lay m 0 1 0 0 s.flag).get k.flag ≠ 0 := by
    rw [h.get_flag]
    decide
  -- The flag is one: the loop is entered, clears it, and runs the body on it.
  refine once_after hcompare
    (once_loop h.at_flag hopen (once_step hzero (.self _ _ _)) ?_ ?_)
  -- The body came back to the flag and left it zero, so the loop ends.
  · rintro n ⟨hshape, hdp, h0⟩
    refine ⟨k.flag, ?_, h0⟩
    rw [id, hshape.index?, hdp, Desk.index?_lay]
    exact h.flag
  · rintro n ⟨hshape, hdp, h0⟩
    -- Behind the loop the pointer goes back to the subject, which gets the literal again.
    have hback : n.dp + -s.flag = m.dp := by
      rw [hdp, Int64.add_assoc, Int64.add_right_neg, Int64.add_zero]
    have hsubject : (n.moved (-s.flag)).index? (n.moved (-s.flag)).dp = some k.subject := by
      rw [dp_moved, hback, index?_moved, hshape.index?, Desk.index?_lay]
      exact h.subject
    have hadd := quiet_add hsubject (.ofNat lit.toNat)
    rw [get_moved, width_moved, hshape.width, Desk.width_lay, Desk.toUInt64_ofNat_toNat, set_moved,
      moved_eq (n.set _ _) _ hback] at hadd
    exact quietAll_step (quiet_shift _ _) (quietAll_step hadd (quietAll_nil _))

end Whole

/-- Where the subject is not the literal, the body is not run and everything is as it was. Where it
is, the body is run once, on the flag, with all four cells zero; if it comes back to the flag and
leaves it zero, the literal is added to the subject at last. -/
theorem ifEqThen_runs_once_if_equal (m : Machine) (scratch : EqScratch) (lit : UInt8)
    (body : List Op) {s f t v : Nat} (hlimit : m.limit ≤ 0) (hm : m.Masked)
    (hne : [0, scratch.flag, scratch.tmp, scratch.save].Nodup)
    (hs : m.index? m.dp = some s) (hf : m.index? (m.dp + scratch.flag) = some f)
    (ht : m.index? (m.dp + scratch.tmp) = some t) (hv : m.index? (m.dp + scratch.save) = some v)
    (hf0 : m.get f = 0) (ht0 : m.get t = 0) (hv0 : m.get v = 0) :
    ∃ ops, scratch.ifEqThen lit body = .ok ops ∧
      (m.get s ≠ lit.toUInt64 → ∃ fuel m', exec fuel ops m = .done m' ∧ SameState m' m) ∧
      (m.get s = lit.toUInt64 → RunsOnce ops m body ((m.set s 0).moved scratch.flag)
        (fun n => n.dp = m.dp + scratch.flag ∧ n.get f = 0)
        fun n => { n.set s (m.width.cut (n.get s + lit.toUInt64)) with dp := m.dp }) := by
  have h := Desk.stands hs hf ht hv hne
  have hlay := Desk.lay_self ⟨s, f, t, v⟩ m
  simp only [hf0, ht0, hv0] at hlay
  refine ⟨_, EqScratch.ifEqThen_eq_ok hne lit body, fun hu => ?_, fun hu => ?_⟩
  · have hquiet := quiet_rest_unequal h lit body (hm.fits s) hu
    rw [hlay] at hquiet
    obtain ⟨fuel, m', hrun, hm'⟩ := (twin_refl hlimit : Twin Unlimited m m).exec_done hquiet
    exact ⟨fuel, m', hrun, hm'.sameState⟩
  · have honce := once_rest_equal h lit body
    have hstart := (h.set_subject (m.get s) 0 0 0 0 0)
    rw [hlay] at hstart
    rw [hu] at hlay
    rw [hlay, ← Int64.zero_add scratch.flag, ← Desk.moved_lay, ← hstart, Int64.zero_add] at honce
    refine runsOnce_of_once hlimit hlimit ?_ ?_ honce
    · rintro k k' hk ⟨hdp, h0⟩
      exact ⟨hk.dp ▸ hdp, hk.get f ▸ h0⟩
    · intro k k' hk
      dsimp only
      rw [hk.get s]
      exact hk.set_place s _ m.dp

/-- In checked mode, on cells of two bytes: 200 is found, and the body emits once and leaves its
cell zero; 456, of which 200 is the low byte, is passed, though the body would leave the tape. -/
theorem ifEqThen_runs_once_if_equal_wide :
    (∃ ops fuel m', EqScratch.ifEqThen {} 200 [.add 7, .write, .zero] = .ok ops ∧
      exec fuel ops { tape := #[0, 200, 0, 0], dp := 1, width := .two, checked := true } =
        .done m' ∧
      SameState m'
        { tape := #[0, 200, 0, 0], dp := 1, width := .two, output := { bytes := #[7] } }) ∧
    ∃ ops fuel m', EqScratch.ifEqThen {} 200 [.shift 9, .write] = .ok ops ∧
      exec fuel ops { tape := #[0, 456, 0, 0], dp := 1, width := .two } = .done m' ∧
      SameState m' { tape := #[0, 456, 0, 0], dp := 1, width := .two } := by
  constructor
  · obtain ⟨ops, hops, -, hequal⟩ := ifEqThen_runs_once_if_equal
      { tape := #[0, 200, 0, 0], dp := 1, width := .two, checked := true } {} 200
      [.add 7, .write, .zero] (s := 1) (f := 0) (t := 2) (v := 3) (by decide) (by decide)
      (by decide) rfl rfl rfl rfl rfl rfl rfl
    have hbody : exec 9 [.add 7, .write, .zero]
        { tape := #[0, 0, 0, 0], dp := 0, width := .two, checked := true } =
        .done { tape := #[0, 0, 0, 0], dp := 0, width := .two, checked := true,
                output := { bytes := #[7] }, steps := 3 } := rfl
    obtain ⟨fuel, m', hrun, hm'⟩ := (hequal rfl).done hbody ⟨rfl, rfl⟩
    exact ⟨ops, fuel, m', hops, hrun, hm'.trans ⟨rfl, rfl, rfl, rfl, rfl, rfl⟩⟩
  · obtain ⟨ops, hops, hunequal, -⟩ := ifEqThen_runs_once_if_equal
      { tape := #[0, 456, 0, 0], dp := 1, width := .two } {} 200 [.shift 9, .write]
      (s := 1) (f := 0) (t := 2) (v := 3) (by decide) (by decide)
      (by decide) rfl rfl rfl rfl rfl rfl rfl
    obtain ⟨fuel, m', hrun, hm'⟩ := hunequal (by decide)
    exact ⟨ops, fuel, m', hops, hrun, hm'⟩

end Gadget

end TapeForge
