import TapeForge.Gadget.Switch
import TapeForge.Proofs.MergeSort
import TapeForge.Proofs.OneRun

/-!
# Dispatch

A switch goes down a chain of tests, one for each case, in the order of the keys. At each level the
source holds the value less the key of the level before, and the flag is one until a body has been
chosen. A level is left with both cells zero, whether the body was its own or one further down, so
no level above it chooses another.
-/

namespace TapeForge.Gadget

open Machine Effect

/-! ## Keys -/

def topFrom (top : Int64) (cases : List Case) : Int64 :=
  cases.foldl (fun top c => if top < c.key then c.key else top) top

/-- The largest key of cases, zero if there are none. -/
def topKey (cases : List Case) : Int64 := topFrom 0 cases

theorem topFrom_cons {top : Int64} {c : Case} (rest : List Case) (h : top.toInt ≤ c.key.toInt) :
    topFrom top (c :: rest) = topFrom c.key rest := by
  rw [topFrom, List.foldl_cons, ← topFrom]
  congr 1
  split
  · rfl
  next hlt =>
    rw [Int64.lt_iff_toInt_lt] at hlt
    exact Int64.toInt_inj.1 (by omega)

theorem topKey_perm {cases cases' : List Case} (h : cases.Perm cases') :
    topKey cases = topKey cases' := by
  refine h.foldl_eq' (fun c _ d _ top => ?_) 0
  have heq := @Int64.toInt_inj c.key d.key
  simp only [Int64.lt_iff_toInt_lt]
  grind

theorem check_eq_ok {prev : Option Int64} {cases : List Case}
    (hrange : ∀ c ∈ cases, 0 ≤ c.key ∧ c.key ≤ 255) (hnodup : (cases.map Case.key).Nodup)
    (hprev : ∀ k, prev = some k → k ∉ cases.map Case.key) : Case.check prev cases = .ok () := by
  induction cases generalizing prev with
  | nil => rfl
  | cons c rest ih =>
      obtain ⟨hlow, hhigh : c.key ≤ Case.maxKey⟩ := hrange c List.mem_cons_self
      obtain ⟨hc, hrest⟩ := List.nodup_cons.1 hnodup
      have hfresh : prev ≠ some c.key := fun h => hprev c.key h List.mem_cons_self
      rw [Case.check, if_neg (Int64.not_lt.2 hlow), if_neg (Int64.not_lt.2 hhigh), if_neg hfresh]
      refine ih (fun d hd => hrange d (List.mem_cons_of_mem c hd)) hrest ?_
      rintro k ⟨⟩
      exact hc

theorem eq_toUInt64_iff {k : Int64} (hk : 0 ≤ k) (v : UInt64) :
    v = k.toUInt64 ↔ k.toInt = v.toNat := by
  rw [← UInt64.ofNat_toInt_toNat hk, ← UInt64.toNat_inj]
  rw [Int64.le_iff_toInt_le, Int64.toInt_zero] at hk
  have hlt := k.toInt_lt
  rw [UInt64.toNat_ofNat', Nat.mod_eq_of_lt (by omega)]
  omega

theorem toInt_key {k : Int64} (hk : 0 ≤ k ∧ k ≤ 255) : 0 ≤ k.toInt ∧ k.toInt ≤ 255 := by
  have h255 : (255 : Int64).toInt = 255 := by decide
  rwa [Int64.le_iff_toInt_le, Int64.le_iff_toInt_le, h255] at hk

theorem narrow_keys {cases : List Case} (h : ∀ c ∈ cases, 0 ≤ c.key ∧ c.key ≤ 255) :
    Sorting.Narrow Case.key cases := by
  intro c hc d hd
  have hlow := (toInt_key (h d hd)).1
  have hhigh := (toInt_key (h c hc)).2
  omega

theorem fits_key {k : Int64} (w : Width) (hk : 0 ≤ k ∧ k ≤ 255) : w.Fits k.toUInt64 := by
  have hnat := (eq_toUInt64_iff hk.1 _).1 rfl
  have hint := toInt_key hk
  rw [Width.fits_iff]
  cases w <;> simp only [Width.size] <;> omega

/-! ## One level of the chain -/

/-- A machine on the source cell, from where the flag is at an offset. -/
structure Poised (m : Machine) (gap : Offset) (s f : Nat) : Prop where
  source : m.index? m.dp = some s
  flag : m.index? (m.dp + gap) = some f
  ne : s ≠ f

/-- The machine on the source cell, with values in the source and in the flag. -/
def level (m : Machine) (s f : Nat) (source flag : UInt64) : Machine :=
  (m.set s source).set f flag

section Level

variable {m : Machine} {gap : Offset} {s f : Nat} (h : Poised m gap s f)

include h

theorem Poised.level_source {u w : UInt64} :
    (level m s f u w).index? (level m s f u w).dp = some s := by
  simpa [level] using h.source

theorem Poised.level_flag {u w : UInt64} :
    ((level m s f u w).moved gap).index? ((level m s f u w).moved gap).dp = some f := by
  simpa [level] using h.flag

theorem Poised.get_source (u w : UInt64) : (level m s f u w).get s = u := by
  have hlt := (index?_eq_some_iff.1 h.source).2
  rw [level, get_set_ne _ _ h.ne.symm, get_set_self _ _ hlt]

theorem Poised.get_flag (u w : UInt64) : (level m s f u w).get f = w := by
  have hlt := (index?_eq_some_iff.1 h.flag).2
  rw [level, get_set_self _ _ (by simpa using hlt)]

theorem Poised.set_source (u v w : UInt64) : (level m s f u w).set s v = level m s f v w := by
  rw [level, set_comm _ _ _ h.ne.symm, set_set, level]

omit h in
theorem set_flag (u v w : UInt64) : (level m s f u w).set f v = level m s f u v := by
  rw [level, set_set, level]

theorem quiet_add_source (u w : UInt64) (n : Int64) :
    (Op.add n).quiet (level m s f u w)
      (.ok () (level m s f (m.width.cut (u + n.toUInt64)) w)) := by
  have hadd := quiet_add (h.level_source (u := u) (w := w)) n
  rw [h.get_source, h.set_source] at hadd
  exact hadd

/-- The flag is taken down. -/
theorem quiet_take_flag (u : UInt64) :
    (Op.add (-1)).quiet ((level m s f u 1).moved gap) (.ok () ((level m s f u 0).moved gap)) := by
  have hadd := quiet_add (h.level_flag (u := u) (w := 1)) (-1)
  have hzero : m.width.cut (1 + (-1 : Int64).toUInt64) = 0 :=
    Width.cut_eq_self m.width.fits_zero
  rw [get_moved, h.get_flag, set_moved, set_flag, width_moved] at hadd
  exact hzero ▸ hadd

end Level

/-! ## The way up -/

/-- A machine on the source cell, with the source and the flag zero. -/
structure Cleared (m : Machine) (gap : Offset) (s f : Nat) : Prop extends Poised m gap s f where
  source_zero : m.get s = 0
  flag_zero : m.get f = 0

/-- The machine that a body leaves as it should, back on the source cell, with the source zero. -/
def comeBack (s : Nat) (back : Offset) (m : Machine) : Machine := (m.set s 0).moved back

/-- Of what shape a machine is that a body leaves, and that it is on the flag and has cleared it. -/
structure Left (m : Machine) (gap : Offset) (f : Nat) (n : Machine) : Prop where
  shape : SameShape n m
  dp : n.dp = m.dp + gap
  flag_zero : n.get f = 0

section Chain

variable {m : Machine} {gap back : Offset} {s f : Nat}

theorem moved_back (hback : gap + back = 0) (k : Machine) : (k.moved gap).moved back = k := by
  rw [moved_moved, hback, moved_zero]

theorem Left.cleared {n : Machine} (h : Poised m gap s f) (hback : gap + back = 0)
    (hn : Left m gap f n) : Cleared (comeBack s back n) gap s f := by
  have hdp : (comeBack s back n).dp = m.dp := by
    show n.dp + back = m.dp
    rw [hn.dp, Int64.add_assoc, hback, Int64.add_zero]
  have hindex : ∀ p, (comeBack s back n).index? p = m.index? p := by
    intro p
    rw [comeBack, index?_moved, index?_set, hn.shape.index?]
  have hlt := (index?_eq_some_iff.1 h.source).2
  refine ⟨⟨?_, ?_, h.ne⟩, ?_, ?_⟩
  · rw [hindex, hdp, h.source]
  · rw [hindex, hdp, h.flag]
  · exact get_set_self _ _ (hn.shape.size ▸ hlt)
  · exact (get_set_ne _ _ h.ne).trans hn.flag_zero

/-- A level where the flag is down already does nothing. -/
theorem quiet_level_cleared (h : Cleared m gap s f) (hback : gap + back = 0) (body : List Op) :
    Op.quietAll [.shift gap, .loop body, .shift back] m (.ok () m) := by
  have hflag : (m.moved gap).index? (m.moved gap).dp = some f := h.flag
  have hzero : (m.moved gap).get f = 0 := h.flag_zero
  have hdown := quiet_loop_closed hflag hzero body
  have hup := quiet_shift (m.moved gap) back
  rw [moved_back hback] at hup
  refine quietAll_step (quiet_shift m gap) (quietAll_step hdown (quietAll_step hup ?_))
  exact quietAll_nil m

variable (h : Poised m gap s f) {fallback : List Op} {q : Effect Fault Machine} {n : Machine}
  {fit : Machine → Prop} {v : UInt64} {prev : Int64} {c : Case} {rest : List Case}

include h

theorem quiet_add_next (v : UInt64) (prev : Int64) (c : Case) :
    (Op.add (prev - c.key)).quiet (level m s f (m.width.cut (v - prev.toUInt64)) 1)
      (.ok () (level m s f (m.width.cut (v - c.key.toUInt64)) 1)) := by
  have hadd := quiet_add_source h (m.width.cut (v - prev.toUInt64)) 1 (prev - c.key)
  have hdiff : v - prev.toUInt64 + (prev.toUInt64 - c.key.toUInt64) = v - c.key.toUInt64 := by
    grind
  rw [Width.cut_cut_add, Int64.toUInt64_sub, hdiff] at hadd
  exact hadd

/-- The value is the key of this level, and no other level takes it up. -/
theorem once_own (hc : m.width.cut (v - c.key.toUInt64) = 0) :
    Once (Op.quietAll (switchChain (.shift gap) (.shift back) fallback prev (c :: rest)))
      (level m s f (m.width.cut (v - prev.toUInt64)) 1)
      (Op.quietAll c.body) ((level m s f 0 0).moved gap)
      (fun n' => Left m gap f n' ∧ n'.get s = 0) (comeBack s back) := by
  have hadd := quiet_add_next h v prev c
  rw [hc] at hadd
  refine once_step hadd (once_step (quiet_loop_closed h.level_source (h.get_source ..) _)
    (once_step (quiet_shift _ gap) ?_))
  refine once_loop h.level_flag ?_ (once_step (quiet_take_flag h 0) (.self _ _ _)) ?_ ?_
  · rw [get_moved, h.get_flag]
    decide
  · rintro n' ⟨hn', -⟩
    refine ⟨f, ?_, hn'.flag_zero⟩
    rw [id, hn'.shape.index?, hn'.dp, h.flag]
  · rintro n' ⟨-, hsource⟩
    have hup := quiet_shift n' back
    rw [comeBack, ← hsource, set_get]
    exact quietAll_step hup (quietAll_nil _)

variable (hback : gap + back = 0)

include hback

/-- The value is not the key of this level, so the choice is left to the levels below. -/
theorem once_below (hc : m.width.cut (v - c.key.toUInt64) ≠ 0)
    (hrest : Once (Op.quietAll (switchChain (.shift gap) (.shift back) fallback c.key rest))
      (level m s f (m.width.cut (v - c.key.toUInt64)) 1) q n fit (comeBack s back))
    (hfit : ∀ n', fit n' → Left m gap f n') :
    Once (Op.quietAll (switchChain (.shift gap) (.shift back) fallback prev (c :: rest)))
      (level m s f (m.width.cut (v - prev.toUInt64)) 1) q n fit (comeBack s back) := by
  have hcleared := fun n' hn' => Left.cleared h hback (hfit n' hn')
  refine once_step (quiet_add_next h v prev c)
    (once_loop h.level_source (by rwa [h.get_source]) hrest
      (fun n' hn' => ⟨s, (hcleared n' hn').source, (hcleared n' hn').source_zero⟩) fun n' hn' => ?_)
  exact quiet_level_cleared (hcleared n' hn') hback _

/-- One of the keys is the value, and its body is run. -/
theorem once_case (fallback : List Op) (prev : Int64) {cases : List Case} (hc : c ∈ cases)
    (hhit : m.width.cut (v - c.key.toUInt64) = 0)
    (hmiss : ∀ d ∈ cases, d.key ≠ c.key → m.width.cut (v - d.key.toUInt64) ≠ 0)
    (hnodup : (cases.map Case.key).Nodup) :
    Once (Op.quietAll (switchChain (.shift gap) (.shift back) fallback prev cases))
      (level m s f (m.width.cut (v - prev.toUInt64)) 1)
      (Op.quietAll c.body) ((level m s f 0 0).moved gap)
      (fun n' => Left m gap f n' ∧ n'.get s = 0) (comeBack s back) := by
  induction cases generalizing prev with
  | nil => cases hc
  | cons d rest ih =>
      obtain ⟨hd, hrest⟩ := List.nodup_cons.1 hnodup
      rcases List.mem_cons.1 hc with rfl | hc
      · exact once_own h hhit
      · have hne : d.key ≠ c.key := fun heq => hd (heq ▸ List.mem_map_of_mem hc)
        exact once_below h hback (hmiss d List.mem_cons_self hne)
          (ih d.key hc (fun e he => hmiss e (List.mem_cons_of_mem d he)) hrest) fun _ hn' => hn'.1

/-- No key is the value, and the default is run. -/
theorem once_fallback (fallback : List Op) {cases : List Case}
    (hmiss : ∀ c ∈ cases, m.width.cut (v - c.key.toUInt64) ≠ 0)
    (hsorted : (prev :: cases.map Case.key).Pairwise fun k l => k.toInt ≤ l.toInt) :
    Once (Op.quietAll (switchChain (.shift gap) (.shift back) fallback prev cases))
      (level m s f (m.width.cut (v - prev.toUInt64)) 1) (Op.quietAll fallback)
      ((level m s f (m.width.cut (v - (topFrom prev cases).toUInt64)) 0).moved gap)
      (Left m gap f) (comeBack s back) := by
  induction cases generalizing prev with
  | nil =>
      refine once_step (quiet_shift _ gap) (once_step (quiet_take_flag h _) (once_here ?_))
      intro n' hn'
      have hsource : (n'.moved back).index? (n'.moved back).dp = some s := by
        simpa [comeBack] using (hn'.cleared h hback).source
      refine quietAll_step (quiet_shift n' back) (quietAll_step (quiet_zero hsource) ?_)
      exact quietAll_nil _
  | cons c rest ih =>
      obtain ⟨hle, hrest⟩ := List.pairwise_cons.1 hsorted
      rw [topFrom_cons rest (hle c.key (by simp))]
      exact once_below h hback (hmiss c List.mem_cons_self)
        (ih (fun d hd => hmiss d (List.mem_cons_of_mem c hd)) hrest) fun _ hn' => hn'

end Chain

/-! ## The whole switch -/

/-- Distinct keys of one byte are accepted in any order, and tried in their own. -/
theorem switch_eq_ok {src flag : Offset} {cases : List Case} (fallback : List Op)
    (hne : src ≠ flag) (hnodup : (cases.map Case.key).Nodup)
    (hrange : ∀ c ∈ cases, 0 ≤ c.key ∧ c.key ≤ 255) :
    ∃ sorted : List Case, sorted.Perm cases ∧
      sorted.Pairwise (fun c d => c.key.toInt ≤ d.key.toInt) ∧
      switch src flag cases fallback =
        .ok ([.assertZero [flag], .shift flag, .add 1, .shift (src - flag)] ++
          switchChain (.shift (flag - src)) (.shift (src - flag)) fallback 0 sorted ++
          [.shift (-src)]) := by
  have hperm := Sorting.byKeyStable_perm Case.key cases
  have hsorted := Sorting.byKeyStable_pairwise (narrow_keys hrange)
  have hcheck : Case.check none (Sorting.byKeyStable Case.key cases) = .ok () :=
    check_eq_ok (fun c hc => hrange c (hperm.mem_iff.1 hc))
      ((hperm.map Case.key).nodup_iff.2 hnodup) nofun
  refine ⟨_, hperm, hsorted, ?_⟩
  rw [switch, (Op.requireDistinct_eq_ok_iff _).2 (by simpa using hne)]
  simp only [bind, Except.bind, hcheck, pure, Except.pure]

/-- Up to the chain, the flag is put up. -/
theorem quiet_enter {m : Machine} {src flag : Offset} (s : Nat) {f : Nat}
    (hf : m.index? (m.dp + flag) = some f)
    (hf0 : m.get f = 0) :
    Op.quietAll [.assertZero [flag], .shift flag, .add 1, .shift (src - flag)] m
      (.ok () (level (m.moved src) s f (m.get s) 1)) := by
  have hassert : ∀ offset ∈ [flag], ∃ i, m.index? (m.dp + offset) = some i ∧ m.get i = 0 := by
    simp only [List.mem_singleton, forall_eq]
    exact ⟨f, hf, hf0⟩
  have hadd := quiet_add (m := m.moved flag) hf 1
  have hone : m.width.cut (0 + (1 : Int64).toUInt64) = 1 := Width.cut_eq_self m.width.fits_one
  have hshift := quiet_shift ((m.moved flag).set f 1) (src - flag)
  have hback : flag + (src - flag) = src := by grind
  rw [get_moved, hf0, width_moved, hone] at hadd
  rw [set_moved, moved_moved, hback, ← set_moved] at hshift
  rw [level, ← get_moved m s src, set_get]
  refine quietAll_step (quiet_assertZero hassert) (quietAll_step (quiet_shift m flag) ?_)
  exact quietAll_step hadd (quietAll_step hshift (quietAll_nil _))

/-- A body runs from the flag, both cells changed only as the switch says, and the switch ends on
its origin. -/
theorem runsOnce_of_chain {m : Machine} {src flag : Offset} {s f : Nat} {chain body : List Op}
    {u : UInt64} (fit : Machine → Prop) (hlimit : m.limit ≤ 0)
    (hf : m.index? (m.dp + flag) = some f) (hne : s ≠ f) (hf0 : m.get f = 0)
    (hfit : ∀ {k k'}, SameState k k' → fit k → fit k')
    (h : Once (Op.quietAll chain) (level (m.moved src) s f (m.get s) 1) (Op.quietAll body)
      ((level (m.moved src) s f u 0).moved (flag - src))
      (fun n => Left (m.moved src) (flag - src) f n ∧ fit n) (comeBack s (src - flag))) :
    RunsOnce ([.assertZero [flag], .shift flag, .add 1, .shift (src - flag)] ++ chain ++
        [.shift (-src)]) m body ((m.set s u).moved flag)
      (fun n => n.dp = m.dp + flag ∧ n.get f = 0 ∧ fit n)
      fun n => { n.set s 0 with dp := m.dp } := by
  have hgo : src + (flag - src) = flag := by grind
  -- Where the body starts: at the flag, which is down again, with the source at `u`.
  have hstart : (level (m.moved src) s f u 0).moved (flag - src) = (m.set s u).moved flag := by
    have hget : (m.set s u).get f = 0 := (get_set_ne _ _ hne).trans hf0
    rw [level, set_moved, set_moved, moved_moved, hgo, ← hget, set_get]
  rw [hstart] at h
  have hback : flag + (src - flag) + -src = 0 := by grind
  have hleft : ∀ n, SameShape n ((m.set s u).moved flag) ∧ n.dp = m.dp + flag ∧
      n.get f = 0 ∧ fit n → Left (m.moved src) (flag - src) f n ∧ fit n := by
    rintro n ⟨hshape, hdp, h0, hn⟩
    refine ⟨⟨⟨hshape.size.trans (size_set _ _ _), hshape.width⟩, ?_, h0⟩, hn⟩
    rw [hdp, dp_moved, Int64.add_assoc, hgo]
  refine runsOnce_of_once hlimit hlimit ?_ (fun hk => hk.set_place s 0 m.dp)
    (once_append (once_after (quiet_enter s hf hf0) (h.mono hleft fun _ _ => rfl)) ?_)
  · rintro k k' hk ⟨hdp, h0, hk'⟩
    exact ⟨hk.dp ▸ hdp, hk.get f ▸ h0, hfit hk hk'⟩
  · rintro n ⟨-, hdp, -⟩
    have hhome : (n.set s 0).dp + (src - flag + -src) = m.dp := by
      rw [dp_set, hdp, Int64.add_assoc, ← Int64.add_assoc flag, hback, Int64.add_zero]
    rw [← moved_eq (n.set s 0) _ hhome, ← moved_moved]
    exact quietAll_step (quiet_shift _ _) (quietAll_nil _)

/-- A switch runs one body, and once: that of the case whose key is the value of the source, or
else the default. The body starts on the flag, which is zero; the source is zero for a case, and
for the default it is what the largest key leaves of the value. If the body comes back to the flag
and leaves it zero, and the source too if it is a case, then the switch ends on its origin with
both cells zero, and all else is as the body left it. -/
theorem switch_runs_one_body (m : Machine) (src flag : Offset) (cases : List Case)
    (fallback : List Op) {s f : Nat} (hlimit : m.limit ≤ 0) (hm : m.Masked) (hne : src ≠ flag)
    (hnodup : (cases.map Case.key).Nodup) (hrange : ∀ c ∈ cases, 0 ≤ c.key ∧ c.key ≤ 255)
    (hs : m.index? (m.dp + src) = some s) (hf : m.index? (m.dp + flag) = some f)
    (hf0 : m.get f = 0) :
    ∃ ops, switch src flag cases fallback = .ok ops ∧
      (∀ c ∈ cases, c.key.toInt = (m.get s).toNat →
        RunsOnce ops m c.body ((m.set s 0).moved flag)
          (fun n => n.dp = m.dp + flag ∧ n.get f = 0 ∧ n.get s = 0)
          fun n => { n.set s 0 with dp := m.dp }) ∧
      ((∀ c ∈ cases, c.key.toInt ≠ (m.get s).toNat) →
        RunsOnce ops m fallback
          ((m.set s (m.width.cut (m.get s - (topKey cases).toUInt64))).moved flag)
          (fun n => n.dp = m.dp + flag ∧ n.get f = 0)
          fun n => { n.set s 0 with dp := m.dp }) := by
  obtain ⟨sorted, hperm, hsorted, hops⟩ := switch_eq_ok fallback hne hnodup hrange
  have hpoised : Poised (m.moved src) (flag - src) s f := by
    refine ⟨hs, ?_, index_ne hs hf hne⟩
    have hgo : src + (flag - src) = flag := by grind
    rw [dp_moved, Int64.add_assoc, hgo]
    exact hf
  have hback : flag - src + (src - flag) = 0 := by grind
  have hzero : m.width.cut (m.get s - (0 : Int64).toUInt64) = m.get s := by
    rw [show (0 : Int64).toUInt64 = 0 from rfl, UInt64.sub_zero, Width.cut_eq_self (hm.fits s)]
  have hkey : ∀ c ∈ cases, m.width.cut (m.get s - c.key.toUInt64) = 0 ↔
      c.key.toInt = (m.get s).toNat := by
    intro c hc
    rw [Width.cut_sub_eq_zero_iff (hm.fits s) (fits_key _ (hrange c hc)),
      eq_toUInt64_iff (hrange c hc).1]
  refine ⟨_, hops, fun c hc hhit => ?_, fun hmiss => ?_⟩
  · have hothers : ∀ d ∈ sorted, d.key ≠ c.key →
        (m.moved src).width.cut (m.get s - d.key.toUInt64) ≠ 0 := by
      intro d hd hdc hzero
      have hd' := (hkey d (hperm.mem_iff.1 hd)).1 hzero
      exact hdc (Int64.toInt_inj.1 (hd'.trans hhit.symm))
    have honce := once_case hpoised hback fallback 0
      (hperm.mem_iff.2 hc) ((hkey c hc).2 hhit) hothers
      ((hperm.map Case.key).nodup_iff.2 hnodup)
    rw [width_moved, hzero] at honce
    exact runsOnce_of_chain (fun n => n.get s = 0) hlimit hf hpoised.ne hf0
      (fun hk h0 => hk.get s ▸ h0) honce
  · have hmisses : ∀ d ∈ sorted, (m.moved src).width.cut (m.get s - d.key.toUInt64) ≠ 0 :=
      fun d hd hzero => hmiss d (hperm.mem_iff.1 hd) ((hkey d (hperm.mem_iff.1 hd)).1 hzero)
    have hordered : (0 :: sorted.map Case.key).Pairwise fun k l => k.toInt ≤ l.toInt := by
      refine List.pairwise_cons.2 ⟨?_, List.pairwise_map.2 hsorted⟩
      simp only [List.forall_mem_map]
      exact fun c hc => (toInt_key (hrange c (hperm.mem_iff.1 hc))).1
    have honce := once_fallback hpoised hback fallback hmisses hordered
    rw [width_moved, hzero, ← topKey, topKey_perm hperm] at honce
    have hruns := runsOnce_of_chain (fun _ => True) hlimit hf hpoised.ne hf0
      (fun _ _ => trivial) (honce.mono (fun _ hn => hn.1) fun _ _ => rfl)
    simpa only [and_true] using hruns

/-- Three cases on byte cells, given out of order: 7 is the key of one of them; 3 is none, and the
default emits what 255 leaves of it. -/
theorem switch_runs_one_body_or_default :
    (∃ ops fuel m', switch 0 1 [⟨255, [.write]⟩, ⟨7, [.shift 1, .add 1, .shift (-1)]⟩, ⟨0, []⟩]
        [.shift (-1), .write, .shift 1] = .ok ops ∧
      exec fuel ops { tape := #[7, 0, 9], width := .one } = .done m' ∧
      SameState m' { tape := #[0, 0, 10], width := .one }) ∧
    ∃ ops fuel m', switch 0 1 [⟨255, [.write]⟩, ⟨7, [.shift 1, .add 1, .shift (-1)]⟩, ⟨0, []⟩]
        [.shift (-1), .write, .shift 1] = .ok ops ∧
      exec fuel ops { tape := #[3, 0, 9], width := .one, checked := true } = .done m' ∧
      SameState m' { tape := #[0, 0, 9], width := .one, output := { bytes := #[4] } } := by
  constructor
  · obtain ⟨ops, hops, hcase, -⟩ := switch_runs_one_body { tape := #[7, 0, 9], width := .one } 0 1
      [⟨255, [.write]⟩, ⟨7, [.shift 1, .add 1, .shift (-1)]⟩, ⟨0, []⟩]
      [.shift (-1), .write, .shift 1] (s := 0) (f := 1) (by decide) (by decide) (by decide)
      (by decide) (by simp) rfl rfl rfl
    have hbody : exec 9 [.shift 1, .add 1, .shift (-1)]
        { tape := #[0, 0, 9], dp := 1, width := .one } =
        .done { tape := #[0, 0, 10], dp := 1, width := .one, steps := 3 } := rfl
    obtain ⟨fuel, m', hrun, hm'⟩ := (hcase ⟨7, [.shift 1, .add 1, .shift (-1)]⟩ (by simp)
      (by decide)).done hbody ⟨rfl, rfl, rfl⟩
    exact ⟨ops, fuel, m', hops, hrun, hm'.trans ⟨rfl, rfl, rfl, rfl, rfl, rfl⟩⟩
  · obtain ⟨ops, hops, -, hdefault⟩ := switch_runs_one_body
      { tape := #[3, 0, 9], width := .one, checked := true } 0 1
      [⟨255, [.write]⟩, ⟨7, [.shift 1, .add 1, .shift (-1)]⟩, ⟨0, []⟩]
      [.shift (-1), .write, .shift 1] (s := 0) (f := 1) (by decide) (by decide) (by decide)
      (by decide) (by simp) rfl rfl rfl
    have hbody : exec 9 [.shift (-1), .write, .shift 1]
        { tape := #[4, 0, 9], dp := 1, width := .one, checked := true } =
        .done { tape := #[4, 0, 9], dp := 1, width := .one, checked := true,
                output := { bytes := #[4] }, steps := 3 } := rfl
    obtain ⟨fuel, m', hrun, hm'⟩ := (hdefault (by decide)).done hbody ⟨rfl, rfl⟩
    exact ⟨ops, fuel, m', hops, hrun, hm'.trans ⟨rfl, rfl, rfl, rfl, rfl, rfl⟩⟩

end TapeForge.Gadget
