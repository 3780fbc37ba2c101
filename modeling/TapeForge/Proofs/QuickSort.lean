import TapeForge.Proofs.SortedRange
import TapeForge.Sorting.Wrapped

/-!
# Quicksort sorts

A range is split around one of its elements, and where the elements are compared by a rank, what
stands before the place of that element is not after it and what stands behind is not before it. So
both parts can be put in order on their own. A range in which no element is before the one to its
left is not split at that left neighbour again, but after all elements that equal it. Scattering
and turning a range around, and mending one that looks sorted, keep all of this.
-/

namespace TapeForge.Sorting

variable {α : Type}

namespace Bench

variable {rank : α → Int} {s s' : Bench α} {a b : Nat}

/-! ## Splitting -/

theorem skipUp_spec (here : Nat → Bool) (n i : Nat) :
    i ≤ skipUp here n i ∧ skipUp here n i ≤ i + n ∧
      (∀ k, i ≤ k → k < skipUp here n i → here k = true) ∧
      (skipUp here n i < i + n → here (skipUp here n i) = false) := by
  induction n generalizing i with
  | zero =>
      have hnone : skipUp here 0 i = i := rfl
      exact ⟨Nat.le_refl i, Nat.le_refl i, fun k hk hk' => by omega, fun hlt => by omega⟩
  | succ n ih =>
      rw [skipUp]
      split
      next h =>
        obtain ⟨hlow, hhigh, hall, hend⟩ := ih (i + 1)
        refine ⟨by omega, by omega, fun k hk hk' => ?_, fun hlt => hend (by omega)⟩
        by_cases hki : k = i
        · rw [hki, h]
        · exact hall k (by omega) hk'
      next h =>
        exact ⟨Nat.le_refl i, by omega, fun k hk hk' => by omega, fun _ => Bool.eq_false_iff.2 h⟩

theorem skipDown_spec (here : Nat → Bool) {n j : Nat} (hn : n ≤ j) :
    skipDown here n j ≤ j ∧ j ≤ skipDown here n j + n ∧
      (∀ k, skipDown here n j < k → k ≤ j → here k = true) ∧
      (j < skipDown here n j + n → here (skipDown here n j) = false) := by
  induction n generalizing j with
  | zero =>
      have hnone : skipDown here 0 j = j := rfl
      exact ⟨Nat.le_refl j, Nat.le_refl j, fun k hk hk' => by omega, fun hlt => by omega⟩
  | succ n ih =>
      rw [skipDown]
      split
      next h =>
        obtain ⟨hlow, hhigh, hall, hend⟩ := ih (j := j - 1) (by omega)
        refine ⟨by omega, by omega, fun k hk hk' => ?_, fun hlt => hend (by omega)⟩
        by_cases hkj : k = j
        · rw [hkj, h]
        · exact hall k hk (by omega)
      next h =>
        exact ⟨Nat.le_refl j, by omega, fun k hk hk' => by omega, fun _ => Bool.eq_false_iff.2 h⟩

variable (rank) in
/-- From `i` to `j`, what belongs on the left stands before `m`, and the rest from there on. -/
structure Parted (s : Bench α) (p : Int → Bool) (i m j : Nat) : Prop where
  left : ∀ k, i ≤ k → k < m → p (s.key rank k) = true
  right : ∀ k, m ≤ k → k ≤ j → p (s.key rank k) = false

/-- When two elements on the wrong side have been exchanged, it is enough to part what stands
between them. -/
theorem Parted.of_swap {p : Int → Bool} {i j i₁ j₁ m : Nat} (hij : i₁ < j₁)
    (hj : j₁ < s.items.size) (hleft : ∀ k, i ≤ k → k < i₁ → p (s.key rank k) = true)
    (hright : ∀ k, j₁ < k → k ≤ j → p (s.key rank k) = false)
    (hwrong : p (s.key rank i₁) = false) (hwrong' : p (s.key rank j₁) = true)
    (hw : Within (i₁ + 1) j₁ (s.swap i₁ j₁) s') (h : s'.Parted rank p (i₁ + 1) m (j₁ - 1))
    (hm : i₁ < m) (hm' : m ≤ j₁) : s'.Parted rank p i m j := by
  have hout : ∀ k, k ≤ i₁ ∨ j₁ ≤ k → s'.key rank k = (s.swap i₁ j₁).key rank k :=
    fun k hk => hw.key_outside (by omega)
  have hkey := fun k => key_swap rank (s := s) (i := i₁) (j := j₁) (by omega) hj k
  refine ⟨fun k hk hk' => ?_, fun k hk hk' => ?_⟩
  · rcases Nat.lt_trichotomy k i₁ with hlt | rfl | hgt
    · rw [hout k (by omega), hkey, if_neg (by omega), if_neg (by omega)]
      exact hleft k hk hlt
    · rw [hout k (by omega), hkey, if_pos rfl]
      exact hwrong'
    · exact h.left k (by omega) hk'
  · rcases Nat.lt_trichotomy k j₁ with hlt | rfl | hgt
    · exact h.right k hk (by omega)
    · rw [hout k (by omega), hkey, if_neg (by omega), if_pos rfl]
      exact hwrong
    · rw [hout k (by omega), hkey, if_neg (by omega), if_neg (by omega)]
      exact hright k hgt hk'

/-- Where what belongs on the left is told by the rank, the two ends meet between the elements that
belong there and the others. -/
theorem splitBy_spec (low : Bench α → Nat → Bool) (p : Int → Bool) (fuel i j n : Nat)
    (hb : b ≤ s.items.size) (hi : a < i) (hj : j < b) (hij : i ≤ j + 1)
    (hfuel : j + 1 < i + fuel)
    (hlow : ∀ t, Within (a + 1) b s t → ∀ k, a < k → k < b → low t k = p (t.key rank k)) :
    ∃ s' i' n', splitBy low (fun s k => !low s k) fuel s i j n = (s', i', i' - 1, n') ∧
      Within i (j + 1) s s' ∧ i ≤ i' ∧ i' ≤ j + 1 ∧ s'.Parted rank p i i' j := by
  induction fuel generalizing s i j n with
  | zero => omega
  | succ fuel ih =>
      have hp := hlow s (.refl _ _ s)
      obtain ⟨hup, hup', hleft, hstop⟩ := skipUp_spec (low s) (j + 1 - i) i
      rw [splitBy]
      generalize skipUp (low s) (j + 1 - i) i = i₁ at hup hup' hleft hstop
      obtain ⟨hdown, hdown', hright, hstop'⟩ :=
        skipDown_spec (fun k => !low s k) (n := j + 1 - i₁) (j := j) (by omega)
      generalize skipDown (fun k => !low s k) (j + 1 - i₁) j = j₁ at hdown hdown' hright hstop'
      have hleft' : ∀ k, i ≤ k → k < i₁ → p (s.key rank k) = true := fun k hk hk' => by
        rw [← hp k (by omega) (by omega)]
        exact hleft k hk hk'
      have hright' : ∀ k, j₁ < k → k ≤ j → p (s.key rank k) = false := fun k hk hk' => by
        rw [← hp k (by omega) (by omega)]
        exact Bool.not_eq_true' _ ▸ hright k hk hk'
      split
      next hmet =>
        obtain rfl : j₁ = i₁ - 1 := by omega
        exact ⟨s, i₁, n, rfl, .refl _ _ s, hup, by omega, hleft',
          fun k hk hk' => hright' k (by omega) hk'⟩
      next hapart =>
        -- Both ends have come upon an element that stands on the wrong side.
        have hwrong : p (s.key rank i₁) = false := by
          rw [← hp i₁ (by omega) (by omega)]
          exact hstop (by omega)
        have hwrong' : p (s.key rank j₁) = true := by
          rw [← hp j₁ (by omega) (by omega)]
          exact Bool.not_eq_false' _ ▸ hstop' (by omega)
        have hne : i₁ ≠ j₁ := by
          rintro rfl
          rw [hwrong] at hwrong'
          cases hwrong'
        have hw : Within i₁ (j₁ + 1) s (s.swap i₁ j₁) := .swap (by omega) (by omega) (by omega)
        obtain ⟨t, i', n', ht, hwt, hi', hj', hparted⟩ :=
          ih (s := s.swap i₁ j₁) (i₁ + 1) (j₁ - 1) (n + 1) (hw.size ▸ hb) (by omega)
            (by omega) (by omega) (by omega)
            fun t ht => hlow t ((hw.mono (by omega) (by omega)).trans ht)
        refine ⟨t, i', n', ht, ?_, by omega, by omega, ?_⟩
        · exact (hw.trans (hwt.mono (by omega) (by omega))).mono hup (by omega)
        · exact .of_swap (by omega) (by omega) hleft' hright' hwrong hwrong'
            (hwt.mono (Nat.le_refl _) (by omega)) hparted (by omega) (by omega)

variable (rank) in
/-- The range is split around the element at `mid`. -/
structure Divided (s : Bench α) (a mid b : Nat) : Prop where
  low : ∀ k, a ≤ k → k < mid → s.key rank k ≤ s.key rank mid
  high : ∀ k, mid < k → k < b → s.key rank mid ≤ s.key rank k

theorem partition_spec {pivot : Nat} (hs : s.Ranked rank) (hb : b ≤ s.items.size)
    (ha : a ≤ pivot) (hp : pivot < b) :
    ∃ s' mid split, s.partition a b pivot = (s', mid, split) ∧ Within a b s s' ∧ a ≤ mid ∧
      mid < b ∧ s'.Divided rank a mid b := by
  have hw : Within a b s (s.swap a pivot) := .swap (by omega) (by omega) hb
  rw [partition]
  generalize s.swap a pivot = t at hw
  have htb : b ≤ t.items.size := hw.size ▸ hb
  obtain ⟨u, i, n, hu, hwu, hi, hi', hleft, hright⟩ := splitBy_spec (s := t) (a := a) (b := b)
    (fun s k => s.less k a) (fun v => v < t.key rank a) (b - a) (a + 1) (b - 1) 0 htb (by omega)
    (by omega) (by omega) (by omega) (by
      intro u hu k hk hk'
      have hsame : u.key rank a = t.key rank a := hu.key_outside (by omega)
      have hless := (hu.ranked (hw.ranked hs)).less_iff (i := k) (j := a) (by rw [hu.size]; omega)
        (by rw [hu.size]; omega)
      rw [Bool.eq_iff_iff, hless, hsame, decide_eq_true_iff])
  rw [hu]
  have hub : b ≤ u.items.size := hwu.size ▸ htb
  have hkey := fun k => key_swap rank (s := u) (i := i - 1) (j := a) (by omega)
    (by omega) k
  have ha' : u.key rank a = t.key rank a := hwu.key_outside (by omega)
  have hmid : (u.swap (i - 1) a).key rank (i - 1) = t.key rank a := by
    rw [hkey, if_pos rfl, ha']
  simp only [decide_eq_true_eq, decide_eq_false_iff_not, Int.not_lt] at hleft hright
  refine ⟨_, _, _, rfl, ?_, by omega, by omega, ⟨fun k hk hk' => ?_, fun k hk hk' => ?_⟩⟩
  · exact (hw.trans (hwu.mono (by omega) (by omega))).trans (.swap (by omega) (by omega) hub)
  · rw [hmid, hkey, if_neg (by omega)]
    split
    · exact Int.le_of_lt (hleft (i - 1) (by omega) (by omega))
    · exact Int.le_of_lt (hleft k (by omega) (by omega))
  · rw [hmid, hkey, if_neg (by omega), if_neg (by omega)]
    exact hright k (by omega) (by omega)

/-- Where no element is before the one that a range is split around, those that equal it come
first. -/
theorem partitionEqual_spec {pivot : Nat} (hs : s.Ranked rank) (hb : b ≤ s.items.size)
    (ha : a ≤ pivot) (hp : pivot < b)
    (hleast : ∀ k, a ≤ k → k < b → s.key rank pivot ≤ s.key rank k) :
    ∃ s' mid, s.partitionEqual a b pivot = (s', mid) ∧ Within a b s s' ∧ a < mid ∧ mid ≤ b ∧
      ∀ k q, a ≤ k → k < mid → a ≤ q → q < b → s'.key rank k ≤ s'.key rank q := by
  have hw : Within a b s (s.swap a pivot) := .swap (by omega) (by omega) hb
  have hfront : (s.swap a pivot).key rank a = s.key rank pivot := by
    rw [key_swap rank (by omega) (by omega), if_pos rfl]
  rw [partitionEqual]
  have hleast' := hw.forall_key (P := (s.key rank pivot ≤ ·)) hleast
  rw [← hfront] at hleast'
  generalize s.swap a pivot = t at hw hfront hleast' ⊢
  have htb : b ≤ t.items.size := hw.size ▸ hb
  obtain ⟨u, i, n, hu, hwu, hi, hi', hleft, hright⟩ := splitBy_spec (s := t) (a := a) (b := b)
    (fun s k => !s.less a k) (fun v => v ≤ t.key rank a) (b - a) (a + 1) (b - 1) 0 htb (by omega)
    (by omega) (by omega) (by omega) (by
      intro u hu k hk hk'
      have hsame : u.key rank a = t.key rank a := hu.key_outside (by omega)
      have hless := (hu.ranked (hw.ranked hs)).less_iff (i := a) (j := k) (by rw [hu.size]; omega)
        (by rw [hu.size]; omega)
      rw [Bool.eq_iff_iff, Bool.not_eq_true', Bool.eq_false_iff, ne_eq, hless, hsame,
        decide_eq_true_iff, Int.not_lt])
  simp only [Bool.not_not] at hu
  rw [hu]
  have hwu' : Within a b t u := hwu.mono (by omega) (by omega)
  have ha' : u.key rank a = t.key rank a := hwu.key_outside (by omega)
  simp only [decide_eq_true_eq] at hleft
  refine ⟨u, i, rfl, hw.trans hwu', by omega, by omega, fun k q hk hk' hq hq' => ?_⟩
  refine Int.le_trans (b := t.key rank a) ?_
    (hwu'.forall_key (P := (t.key rank a ≤ ·)) hleast' q hq hq')
  by_cases hka : k = a
  · exact Int.le_of_eq (by rw [hka, ha'])
  · exact hleft k (by omega) hk'

/-! ## Ranges that look sorted, or are hard to split -/

theorem Sorted.extend {c : Nat} (h : s.Sorted rank a b)
    (hstep : ∀ k, b ≤ k → k < c → s.key rank (k - 1) ≤ s.key rank k) : s.Sorted rank a c := by
  intro p q hp hpq hq
  induction q with
  | zero => omega
  | succ q ih =>
      rcases Nat.lt_or_ge (q + 1) b with hlt | hge
      · exact h p (q + 1) hp hpq hlt
      · have hlast := hstep (q + 1) hge hq
        rw [Nat.add_sub_cancel] at hlast
        by_cases hpq' : p = q
        · rw [hpq']
          exact hlast
        · exact Int.le_trans (ih (by omega) (by omega)) hlast

theorem Within.sinkRight {i n j : Nat} (hj : i < j) (hn : j + n ≤ b) (hb : b ≤ s.items.size) :
    Within i b s (s.sinkRight n j) := by
  induction n generalizing s j with
  | zero => exact .refl i b s
  | succ n ih =>
      rw [Bench.sinkRight]
      split
      · have hw : Within i b s (s.swap j (j - 1)) := .swap (by omega) (by omega) hb
        exact hw.trans (ih (by omega) (by omega) (hw.size ▸ hb))
      · exact .refl i b s

theorem Sorted.of_within {c d : Nat} (h : s.Sorted rank c d) (hw : Within a b s s')
    (hout : d ≤ a ∨ b ≤ c) : s'.Sorted rank c d := fun p q hp hpq hq => by
  rw [hw.key_outside (by omega), hw.key_outside (by omega)]
  exact h p q hp hpq hq

/-- The last element of a range in order is exchanged with the one behind: what is left of it is in
order still. -/
theorem Sorted.swap_last {j : Nat} (h : s.Sorted rank a j) (hj : j < s.items.size) :
    (s.swap j (j - 1)).SortedBut rank a j (j - 1) := by
  intro p q hp hpq hq hqj
  rw [key_swap rank (by omega) (by omega), key_swap rank (by omega) (by omega),
    if_neg (by omega), if_neg (by omega), if_neg (by omega), if_neg (by omega)]
  exact h p q hp hpq hq

theorem Within.sinkRight_of_long {j : Nat} (hb : b ≤ s.items.size) :
    Within j b s (if 2 ≤ b - j then s.sinkRight (b - j - 1) (j + 1) else s) := by
  split
  · exact .sinkRight (by omega) (by omega) hb
  · exact .refl j b s

/-- An element out of order at `j` is exchanged with its left neighbour, which sinks to its place on
the right while the element sinks to its own on the left. -/
theorem mend_step {j : Nat} (hs : s.Ranked rank) (hb : b ≤ s.items.size)
    (hf : s.Follows rank a b) (ha : a < j) (hj : j < b) (hsorted : s.Sorted rank a j) :
    let s₁ := s.swap j (j - 1)
    let s₂ := if 2 ≤ j - a then s₁.sinkLeft 0 (j - 1) else s₁
    let s₃ := if 2 ≤ b - j then s₂.sinkRight (b - j - 1) (j + 1) else s₂
    Within a b s s₃ ∧ s₃.Sorted rank a j := by
  intro s₁ s₂ s₃
  have hw₁ : Within a b s s₁ := .swap (by omega) (by omega) hb
  have hbut : s₁.SortedBut rank a j (j - 1) := hsorted.swap_last (by omega)
  have hfollows : s₁.Follows rank a j :=
    (hw₁.follows hf).imp_right fun h k hk hk' => h k hk (by omega)
  have hb₁ : b ≤ s₁.items.size := hw₁.size ▸ hb
  have h₂ : Within a j s₁ s₂ ∧ s₂.Sorted rank a j := by
    by_cases hlong : 2 ≤ j - a
    · rw [show s₂ = s₁.sinkLeft 0 (j - 1) from if_pos hlong]
      exact sinkLeft_spec 0 (j - 1) (hw₁.ranked hs) (by omega) (by omega) (by omega)
        (.inr ⟨Nat.zero_le a, hfollows⟩) hbut
    · rw [show s₂ = s₁ from if_neg hlong]
      exact ⟨.refl a j s₁, fun p q hp hpq hq => by omega⟩
  have h₃ : Within j b s₂ s₃ := .sinkRight_of_long (h₂.1.size ▸ hb₁)
  refine ⟨?_, h₂.2.of_within h₃ (.inl (Nat.le_refl j))⟩
  exact (hw₁.trans (h₂.1.mono (Nat.le_refl a) (by omega))).trans
    (h₃.mono (by omega) (Nat.le_refl b))

/-- Mending changes the range at most, and tells truly when that is in order. -/
theorem mend_spec (steps i : Nat) (hs : s.Ranked rank) (hb : b ≤ s.items.size)
    (hf : s.Follows rank a b) (hi : a < i) (hi' : i ≤ b) (hsorted : s.Sorted rank a i) :
    ∃ s' sorted, mend a b steps s i = (s', sorted) ∧ Within a b s s' ∧
      (sorted = true → s'.Sorted rank a b) := by
  induction steps generalizing s i with
  | zero => exact ⟨s, false, rfl, .refl a b s, by simp⟩
  | succ steps ih =>
      obtain ⟨hup, hup', hall, hstop⟩ :=
        skipUp_spec (fun i => i < b ∧ !s.less i (i - 1)) (b - i) i
      rw [mend]
      generalize skipUp (fun i => i < b ∧ !s.less i (i - 1)) (b - i) i = j at hup hup' hall ⊢
      have hsorted' : s.Sorted rank a j := hsorted.extend fun k hk hk' => by
        have hle := hall k hk hk'
        simp only [Bool.not_eq_true', decide_eq_true_eq, Bool.eq_false_iff, ne_eq] at hle
        rw [hs.less_iff (by omega) (by omega), Int.not_lt] at hle
        exact hle.2
      dsimp only
      split
      next hend =>
        obtain rfl : j = b := by omega
        exact ⟨s, true, rfl, .refl a j s, fun _ => hsorted'⟩
      next hnot =>
        split
        · exact ⟨s, false, rfl, .refl a b s, by simp⟩
        · obtain ⟨hw, hstep⟩ := mend_step hs hb hf (by omega) (by omega) hsorted'
          obtain ⟨s', sorted, hmend, hw', htrue⟩ :=
            ih j (hw.ranked hs) (hw.size ▸ hb) (hw.follows hf) (by omega) (by omega) hstep
          exact ⟨s', sorted, hmend, hw.trans hw', htrue⟩

theorem Within.reverseRange (hb : b ≤ s.items.size) : Within a b s (s.reverseRange a b) := by
  refine Within.foldl (fun s hs i hi => ?_) s hb
  rw [List.mem_range] at hi
  exact .swap (by omega) (by omega) hs

theorem Within.scatter (hlong : 12 < b - a) (hb : b ≤ s.items.size) :
    Within a b s (s.scatter a b) := by
  have hlog := Nat.lt_log2_self (n := b - a)
  have hlog' := Nat.log2_self_le (n := b - a) (by omega)
  have hmodulus : Nat.pow 2 (Nat.log2 (b - a) + 1) ≤ 2 * (b - a) := by
    show 2 ^ (Nat.log2 (b - a) + 1) ≤ _
    omega
  have hpos : 0 < Nat.pow 2 (Nat.log2 (b - a) + 1) := Nat.pow_pos (by decide)
  unfold Bench.scatter
  dsimp only
  generalize Nat.pow 2 (Nat.log2 (b - a) + 1) = modulus at hmodulus hpos
  generalize (b - a).toUInt64 = r
  have hplaces : ∀ i ∈ List.range 3, i < 3 := fun i hi => List.mem_range.1 hi
  generalize List.range 3 = places at hplaces
  induction places generalizing s r with
  | nil => exact .refl a b s
  | cons i places ih =>
      have hi := hplaces i List.mem_cons_self
      rw [List.foldl_cons]
      have hother := Nat.mod_lt (scramble r).toNat hpos
      have hw : Within a b s (s.swap (a + (b - a) / 4 * 2 - 1 - 1 + i)
          (a + if b - a ≤ (scramble r).toNat % modulus then
            (scramble r).toNat % modulus - (b - a) else (scramble r).toNat % modulus)) := by
        refine .swap (by omega) ?_ hb
        split <;> omega
      exact hw.trans (ih (hw.size ▸ hb) _ fun i hi => hplaces i (List.mem_cons_of_mem _ hi))

theorem order_mem (s : Bench α) (swaps i j : Nat) :
    (s.order swaps i j).2 = (i, j) ∨ (s.order swaps i j).2 = (j, i) := by
  unfold order
  split
  · exact .inr rfl
  · exact .inl rfl

theorem median_mem (s : Bench α) (swaps i j k : Nat) :
    (s.median swaps i j k).2 = i ∨ (s.median swaps i j k).2 = j ∨
      (s.median swaps i j k).2 = k := by
  rw [median]
  have h₁ := s.order_mem swaps i j
  generalize s.order swaps i j = x at h₁
  obtain ⟨n₁, i₁, j₁⟩ := x
  have h₂ := s.order_mem n₁ j₁ k
  generalize hy : s.order n₁ j₁ k = y at h₂
  obtain ⟨n₂, j₂, k₂⟩ := y
  have h₃ := s.order_mem n₂ i₁ j₂
  generalize hz : s.order n₂ i₁ j₂ = z at h₃
  obtain ⟨n₃, i₃, j₃⟩ := z
  simp only [Prod.mk.injEq] at h₁ h₂ h₃
  simp only [hy, hz]
  omega

/-- The element to split around is one of the range. -/
theorem pivot_mem (s : Bench α) (hlong : 12 < b - a) :
    a ≤ (s.pivot a b).1 ∧ (s.pivot a b).1 < b := by
  -- Each of the three candidates is a quarter of the range away from the others and the ends.
  have hmiddle : ∀ swaps i, a < i → i + 1 < b →
      a ≤ (s.median swaps (i - 1) i (i + 1)).2 ∧ (s.median swaps (i - 1) i (i + 1)).2 < b := by
    intro swaps i hi hi'
    have := s.median_mem swaps (i - 1) i (i + 1)
    omega
  have hlast : ∀ swaps i j k, a ≤ i ∧ i < b → a ≤ j ∧ j < b → a ≤ k ∧ k < b →
      a ≤ (s.median swaps i j k).2 ∧ (s.median swaps i j k).2 < b := by
    intro swaps i j k hi hj hk
    have := s.median_mem swaps i j k
    omega
  unfold pivot
  dsimp only
  by_cases hlong' : 50 ≤ b - a
  · simp only [if_pos hlong']
    exact hlast _ _ _ _ (hmiddle _ _ (by omega) (by omega)) (hmiddle _ _ (by omega) (by omega))
      (hmiddle _ _ (by omega) (by omega))
  · simp only [if_neg hlong']
    exact hlast _ _ _ _ (by omega) (by omega) (by omega)

/-! ## Ranges -/

namespace Divided

variable {mid : Nat}

/-- The parts may be rearranged one by one. -/
theorem within_low (h : s.Divided rank a mid b) (hw : Within a mid s s') :
    s'.Divided rank a mid b where
  low := by
    rw [hw.key_outside (k := mid) (by omega)]
    exact hw.forall_key (P := (· ≤ s.key rank mid)) h.low
  high k hk hk' := by
    rw [hw.key_outside (k := mid) (by omega), hw.key_outside (k := k) (by omega)]
    exact h.high k hk hk'

theorem within_high (h : s.Divided rank a mid b) (hw : Within (mid + 1) b s s') :
    s'.Divided rank a mid b where
  low k hk hk' := by
    rw [hw.key_outside (k := mid) (by omega), hw.key_outside (k := k) (by omega)]
    exact h.low k hk hk'
  high := by
    rw [hw.key_outside (k := mid) (by omega)]
    exact hw.forall_key (P := (s.key rank mid ≤ ·)) h.high

theorem follows (h : s.Divided rank a mid b) : s.Follows rank (mid + 1) b :=
  .inr fun k hk hk' => h.high k hk hk'

theorem sorted (h : s.Divided rank a mid b) (hlow : s.Sorted rank a mid)
    (hhigh : s.Sorted rank (mid + 1) b) : s.Sorted rank a b := by
  intro p q hp hpq hq
  rcases Nat.lt_trichotomy q mid with hlt | rfl | hgt
  · exact hlow p q hp hpq hlt
  · exact h.low p hp hpq
  · rcases Nat.lt_trichotomy p mid with hlt | rfl | hgt'
    · exact Int.le_trans (h.low p hp hlt) (h.high q hgt hq)
    · exact h.high q hgt hq
    · exact hhigh p q hgt' hpq hq

end Divided

variable {s'' : Bench α} {mid : Nat}

theorem Divided.sorted_low_first (h : s.Divided rank a mid b) (hw : Within a mid s s')
    (hlow : s'.Sorted rank a mid) (hw' : Within (mid + 1) b s' s'')
    (hhigh : s''.Sorted rank (mid + 1) b) : s''.Sorted rank a b :=
  ((h.within_low hw).within_high hw').sorted (hlow.of_within hw' (.inl (Nat.le_succ mid))) hhigh

theorem Divided.sorted_high_first (h : s.Divided rank a mid b) (hw : Within (mid + 1) b s s')
    (hhigh : s'.Sorted rank (mid + 1) b) (hw' : Within a mid s' s'')
    (hlow : s''.Sorted rank a mid) : s''.Sorted rank a b :=
  ((h.within_high hw).within_low hw').sorted hlow (hhigh.of_within hw' (.inr (Nat.le_succ mid)))

/-- When nothing in the range is less than the elements at its front, the rest is put in order on
its own. -/
theorem Sorted.of_least_front
    (hfront : ∀ i q, a ≤ i → i < mid → a ≤ q → q < b → s.key rank i ≤ s.key rank q)
    (hw : Within mid b s s') (hrest : s'.Sorted rank mid b) : s'.Sorted rank a b := by
  intro i q hi hiq hq
  by_cases hlow : i < mid
  · rw [hw.key_outside (k := i) (by omega)]
    by_cases hlow' : q < mid
    · rw [hw.key_outside (k := q) (by omega)]
      exact hfront i q hi hlow (by omega) hq
    · exact hw.forall_key (P := (s.key rank i ≤ ·))
        (fun k hk hk' => hfront i k hi hlow (by omega) hk') q (by omega) hq
  · exact hrest i q (by omega) hiq hq

/-- An element is least in a range when the one before the range is not less than it. -/
theorem Follows.least {pivot : Nat} (hf : s.Follows rank a b) (hs : s.Ranked rank)
    (hb : b ≤ s.items.size) (hpivot : pivot < b) (ha : 0 < a) (hab : a ≤ b)
    (hequal : s.less (a - 1) pivot = false) :
    ∀ k, a ≤ k → k < b → s.key rank pivot ≤ s.key rank k := by
  intro k hk hk'
  have hless := hs.less_iff (i := a - 1) (j := pivot) (by omega) (by omega)
  rw [Bool.eq_false_iff, ne_eq, hless, Int.not_lt] at hequal
  rcases hf with hzero | hfollows
  · omega
  · exact Int.le_trans hequal (hfollows k hk hk')

/-- Where elements are compared by a rank, quicksort puts a range in order. -/
theorem sortRange_spec (fuel bad : Nat) (balanced split : Bool) (hs : s.Ranked rank) (hab : a ≤ b)
    (hb : b ≤ s.items.size) (hfuel : b - a < fuel) (hf : s.Follows rank a b) :
    Within a b s (sortRange fuel s a b bad balanced split) ∧
      (sortRange fuel s a b bad balanced split).Sorted rank a b := by
  induction fuel generalizing s a b bad balanced split with
  | zero => omega
  | succ fuel ih =>
      unfold sortRange
      extract_lets n
      split
      · exact insertRange_spec hs hb
      split
      · exact heapRange_spec hs hab hb
      next hshort _ =>
        have hlong : 12 < b - a := Nat.lt_of_not_le hshort
        split
        rename_i s₁ bad h₁
        have h₁ : Within a b s s₁ := by
          split at h₁ <;> cases h₁
          · exact .refl a b s
          · exact .scatter hlong hb
        split
        rename_i p₁ hint₁ hp₁
        have hmem₁ := s₁.pivot_mem hlong
        rw [hp₁] at hmem₁
        split
        rename_i s₂ p hint h₂
        have h₂ : Within a b s₁ s₂ ∧ a ≤ p ∧ p < b := by
          split at h₂ <;> cases h₂
          · exact ⟨.reverseRange (h₁.size ▸ hb), by omega⟩
          · exact ⟨.refl a b s₁, hmem₁⟩
        have hw₂ := h₁.trans h₂.1
        split
        rename_i s₃ sorted h₃
        have h₃ : Within a b s₂ s₃ ∧ (sorted = true → s₃.Sorted rank a b) := by
          split at h₃
          · obtain ⟨t, flag, ht, hw, htrue⟩ := mend_spec 5 (a + 1) (hw₂.ranked hs)
              (hw₂.size ▸ hb) (hw₂.follows hf) (by omega) (by omega) fun p q _ _ _ => by omega
            cases ht.symm.trans h₃
            exact ⟨hw, htrue⟩
          · cases h₃
            exact ⟨.refl a b s₂, by simp⟩
        -- What the range is split around has been chosen, and all of it is still there.
        have hw : Within a b s s₃ := hw₂.trans h₃.1
        have hs₃ := hw.ranked hs
        have hb₃ : b ≤ s₃.items.size := hw.size ▸ hb
        have hf₃ := hw.follows hf
        split
        next hsorted => exact ⟨hw, h₃.2 hsorted⟩
        split
        next hequal =>
          rw [Bool.not_eq_true'] at hequal
          have hleast := hf₃.least hs₃ hb₃ h₂.2.2 hequal.1 hab hequal.2
          obtain ⟨t, mid, ht, hwt, hmid, hmid', hall⟩ :=
            partitionEqual_spec hs₃ hb₃ h₂.2.1 h₂.2.2 hleast
          rw [ht]
          have hwt' := hw.trans hwt
          obtain ⟨hwu, hsorted⟩ := ih bad balanced split (a := mid) (b := b)
            (hwt'.ranked hs) hmid' (hwt'.size ▸ hb) (by omega)
            (.inr fun k hk hk' => hall (mid - 1) k (by omega) (by omega) (by omega) hk')
          exact ⟨hwt'.trans (hwu.mono (by omega) (Nat.le_refl b)),
            .of_least_front hall hwu hsorted⟩
        next =>
          obtain ⟨t, mid, split', ht, hwt, hmid, hmid', hdivided⟩ :=
            partition_spec hs₃ hb₃ h₂.2.1 h₂.2.2
          rw [ht]
          have hwt' := hw.trans hwt
          have hlowf : ∀ {u}, Within a b t u → u.Follows rank a mid := fun hwu =>
            ((hwt.trans hwu).follows hf₃).imp_right fun h k hk hk' => h k hk (by omega)
          have hpart : ∀ {u}, Within a b t u → u.Ranked rank ∧ b ≤ u.items.size := fun hwu =>
            ⟨(hwt'.trans hwu).ranked hs, (hwt'.trans hwu).size ▸ hb⟩
          dsimp only
          -- The two parts are put in order one after the other, the shorter one first.
          split
          · obtain ⟨hw₁, hsorted₁⟩ := ih bad true true (a := a) (b := mid)
              (hpart (.refl a b t)).1 hmid (by have := (hpart (.refl a b t)).2; omega)
              (by omega) (hlowf (.refl a b t))
            generalize sortRange fuel t a mid bad true true = u at hw₁ hsorted₁ ⊢
            have hwu : Within a b t u := hw₁.mono (Nat.le_refl a) (by omega)
            obtain ⟨hw₂, hsorted₂⟩ := ih bad (n / 8 ≤ mid - a) split' (a := mid + 1) (b := b)
              (hpart hwu).1 hmid' (hpart hwu).2 (by omega)
              (hdivided.within_low hw₁).follows
            exact ⟨(hwt'.trans hwu).trans (hw₂.mono (by omega) (Nat.le_refl b)),
              hdivided.sorted_low_first hw₁ hsorted₁ hw₂ hsorted₂⟩
          · obtain ⟨hw₁, hsorted₁⟩ := ih bad true true (a := mid + 1) (b := b)
              (hpart (.refl a b t)).1 hmid' (hpart (.refl a b t)).2
              (by omega) hdivided.follows
            generalize sortRange fuel t (mid + 1) b bad true true = u at hw₁ hsorted₁ ⊢
            have hwu : Within a b t u := hw₁.mono (by omega) (Nat.le_refl b)
            obtain ⟨hw₂, hsorted₂⟩ := ih bad (n / 8 ≤ b - mid) split' (a := a) (b := mid)
              (hpart hwu).1 hmid (by have := (hpart hwu).2; omega) (by omega)
              (hlowf hwu)
            exact ⟨(hwt'.trans hwu).trans (hw₂.mono (Nat.le_refl a) (by omega)),
              hdivided.sorted_high_first hw₁ hsorted₁ hw₂ hsorted₂⟩

end Bench

/-- Where elements are compared by a rank, quicksort puts them in its order. -/
theorem quick_pairwise {before : α → α → Bool} {rank : α → Int} {xs : List α}
    (h : ∀ x ∈ xs, ∀ y ∈ xs, before x y = decide (rank x < rank y)) :
    (quick before xs).Pairwise fun x y => rank x ≤ rank y := by
  have hs : (⟨before, xs.toArray⟩ : Bench α).Ranked rank := fun x hx y hy =>
    h x (List.mem_toArray.1 hx) y (List.mem_toArray.1 hy)
  have hspec := Bench.sortRange_spec (xs.length + 1) (Nat.log2 xs.length + 1) true true hs
    (Nat.zero_le xs.length) (Nat.le_refl xs.length) (by omega) (.inl rfl)
  rw [quick]
  generalize Bench.sortRange (xs.length + 1) _ _ _ _ _ _ = s at hspec ⊢
  obtain ⟨hw, hsorted⟩ := hspec
  have hsize : s.items.size = xs.length := hw.size
  rw [List.pairwise_iff_getElem]
  intro i j hi hj hij
  have hle := hsorted i j (Nat.zero_le i) hij (by rw [← hsize]; exact hj)
  simp only [Array.length_toList] at hi hj
  simpa only [Bench.key, Array.getElem?_eq_getElem hi, Array.getElem?_eq_getElem hj,
    Option.map_some, Option.getD_some, Array.getElem_toList] using hle

/-- Narrow keys are put in order. -/
theorem byKey_pairwise {key : α → Int64} {xs : List α} (h : Narrow key xs) :
    (byKey key xs).Pairwise fun a b => (key a).toInt ≤ (key b).toInt :=
  quick_pairwise fun _ hx _ hy => h.wrappedBefore_eq hx hy

/-! ## Few elements -/

namespace Bench

variable {before : α → α → Bool}

variable (before) in
theorem swap_toArray (front rest : List α) (x y : α) :
    (⟨before, (front ++ y :: x :: rest).toArray⟩ : Bench α).swap (front.length + 1) front.length =
      ⟨before, (front ++ x :: y :: rest).toArray⟩ := by
  simp [swap, Array.swapIfInBounds]

/-- An element sinks as insertion into a list in descending order puts it. -/
theorem sinkLeft_toArray (x : α) (acc rest : List α) :
    (⟨before, (acc.reverse ++ x :: rest).toArray⟩ : Bench α).sinkLeft 0 acc.length =
      ⟨before, ((insertDescending before x acc).reverse ++ rest).toArray⟩ := by
  induction acc generalizing rest with
  | nil => rfl
  | cons y ys ih =>
      have hless : (⟨before, ((y :: ys).reverse ++ x :: rest).toArray⟩ : Bench α).less
          (ys.length + 1) ys.length = before x y := by
        simp [less]
      rw [List.length_cons, sinkLeft, hless, insertDescending]
      split
      next h =>
        rw [if_pos h.2]
        have hswap := swap_toArray before ys.reverse rest x y
        rw [List.length_reverse] at hswap
        rw [List.reverse_cons, List.append_assoc, List.singleton_append, hswap, ih]
        simp
      next h =>
        rw [if_neg (by simpa using h)]
        simp

variable (before) in
theorem foldl_sinkLeft_toArray (xs acc : List α) :
    (List.range' acc.length xs.length).foldl (fun s i => s.sinkLeft 0 i)
        (⟨before, (acc.reverse ++ xs).toArray⟩ : Bench α) =
      ⟨before, (xs.foldl (fun acc x => insertDescending before x acc) acc).reverse.toArray⟩ := by
  induction xs generalizing acc with
  | nil => simp
  | cons x xs ih =>
      have hlength : (insertDescending before x acc).length = acc.length + 1 :=
        (insertDescending_perm before x acc).length_eq
      have hrest := ih (insertDescending before x acc)
      rw [hlength] at hrest
      rw [List.length_cons, List.range'_succ, List.foldl_cons, sinkLeft_toArray, hrest,
        List.foldl_cons]

end Bench

/-- At most twelve elements are sorted by insertion. -/
theorem quick_of_short {before : α → α → Bool} {xs : List α} (h : xs.length ≤ 12) :
    quick before xs = insertion before xs := by
  rw [quick, Bench.sortRange, if_pos (by omega), Bench.insertRange]
  cases xs with
  | nil => rfl
  | cons x xs =>
      have hfold := Bench.foldl_sinkLeft_toArray before xs [x]
      rw [show [x].reverse ++ xs = x :: xs from rfl] at hfold
      rw [show (x :: xs).length - 0 - 1 = xs.length from rfl, show 0 + 1 = [x].length from rfl,
        hfold]
      rfl

end TapeForge.Sorting
