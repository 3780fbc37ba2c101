import Mathlib
import TapeForge.Sorting.Wrapped

/-!
# Merging sorts, and loses no element

Sorting by symmetric merges gives a rearrangement of what it is given, whatever the comparison
answers: a comparison that is no order, or that fails or changes a state, can only decide which
rearrangement that is. What every comparison preserves, the whole sort preserves.

Where the comparison is that of a rank and has no effects, the result is in order. Two runs are cut
at places that halving finds, so that what the first half of all places gets is not after the rest.
-/

set_option mvcgen.warning false

namespace TapeForge.Sorting

open Std.Do

variable {α : Type} {m : Type → Type} {ps : PostShape} [Monad m] [WPMonad m ps]
  {I : Assertion ps} {before : α → α → m Bool}

theorem entails_pure_and {P : Prop} (h : P) : I ⊢ₛ ⌜P⌝ ∧ I :=
  SPred.and_intro (SPred.pure_intro h) .rfl

theorem entails_pure_mono {P Q : Prop} (h : P → Q) : spred(⌜P⌝ ∧ I) ⊢ₛ spred(⌜Q⌝ ∧ I) :=
  SPred.and_mono_l (SPred.pure_mono h)

/-! ## Insertion -/

theorem insertDescendingM_spec (h : ∀ a b, ⦃I⦄ before a b ⦃⇓? _ => I⦄) (x : α) (ys : List α) :
    ⦃I⦄ insertDescendingM before x ys ⦃⇓? zs => spred(⌜zs.Perm (x :: ys)⌝ ∧ I)⦄ := by
  induction ys with
  | nil =>
    mvcgen [insertDescendingM]
    exact entails_pure_and (.refl _)
  | cons y ys ih =>
    mvcgen [insertDescendingM, h, ih]
    · rename_i zs hzs
      exact entails_pure_and ((hzs.cons y).trans (.swap x y ys))
    · exact entails_pure_and (.refl _)

theorem insertionM_spec (h : ∀ a b, ⦃I⦄ before a b ⦃⇓? _ => I⦄) (xs : List α) :
    ⦃I⦄ insertionM before xs ⦃⇓? zs => spred(⌜zs.Perm xs⌝ ∧ I)⦄ := by
  have hinsert := insertDescendingM_spec h
  mvcgen [insertionM] invariants
  · ⇓? ⟨cursor, acc⟩ => spred(⌜acc.Perm cursor.prefix⌝ ∧ I)
  case vc1.step =>
    mrename_i hacc
    mcases hacc with ⟨⌜hacc⌝, hI⟩
    mspec hinsert
    refine entails_pure_mono fun hzs => hzs.trans ((hacc.cons _).trans ?_)
    exact (List.perm_append_singleton _ _).symm
  · exact entails_pure_and (.refl _)
  · exact entails_pure_mono (List.reverse_perm _).trans

/-! ## Merging -/

theorem firstPlace_spec {here : Nat → m Bool} (h : ∀ i, ⦃I⦄ here i ⦃⇓? _ => I⦄)
    (fuel lo hi : Nat) : ⦃I⦄ firstPlace here fuel lo hi ⦃⇓? _ => I⦄ := by
  induction fuel generalizing lo hi with
  | zero => mvcgen [firstPlace]
  | succ fuel ih => mvcgen [firstPlace, h, ih]

theorem beforeAt_spec (h : ∀ a b, ⦃I⦄ before a b ⦃⇓? _ => I⦄) (xs : Array α) (i j : Nat) :
    ⦃I⦄ beforeAt before xs i j ⦃⇓? _ => I⦄ := by
  mvcgen [beforeAt, h]

theorem exchange_perm (a b c d : List α) : (a ++ b ++ c ++ d).Perm ((a ++ c) ++ (b ++ d)) := by
  simp only [List.append_assoc]
  refine List.Perm.append_left a ?_
  rw [← List.append_assoc, ← List.append_assoc]
  exact List.perm_append_comm.append_right d

theorem symMerge_spec (h : ∀ a b, ⦃I⦄ before a b ⦃⇓? _ => I⦄) (fuel : Nat) (xs ys : List α) :
    ⦃I⦄ symMerge before fuel xs ys ⦃⇓? zs => spred(⌜zs.Perm (xs ++ ys)⌝ ∧ I)⦄ := by
  induction fuel generalizing xs ys with
  | zero =>
    mvcgen [symMerge]
    exact entails_pure_and (.refl _)
  | succ fuel ih =>
    have hat := beforeAt_spec h
    have hplace : ∀ here : Nat → m Bool, (∀ i, ⦃I⦄ here i ⦃⇓? _ => I⦄) → ∀ fuel lo hi,
        ⦃I⦄ firstPlace here fuel lo hi ⦃⇓? _ => I⦄ := fun _ => firstPlace_spec
    mvcgen [symMerge, ih, hat, hplace]
    · exact entails_pure_and (.refl _)
    · exact entails_pure_and (by simp)
    · rename_i x ys _ _ _ n
      refine entails_pure_and (List.perm_middle.trans ?_)
      rw [List.take_append_drop]
      rfl
    · rename_i xs y _ _ _ _ n
      refine entails_pure_and (List.perm_middle.trans ?_)
      rw [List.take_append_drop]
      exact (List.perm_append_singleton y xs).symm
    · -- The middle parts of the two runs change places before each half is merged.
      rename_i xs ys _ _ _ _ _ _ _ _ _ _ s _ _ _ _ _ hlow _ hhigh
      rw [List.take_append_drop] at hlow hhigh
      refine entails_pure_and ((hlow.append hhigh).trans ?_)
      rw [List.take_append_drop]
      refine (exchange_perm _ _ _ _).trans ?_
      rw [List.take_append_drop, List.take_append_drop]

theorem mergePairs_spec (h : ∀ a b, ⦃I⦄ before a b ⦃⇓? _ => I⦄) (rs : List (List α)) :
    ⦃I⦄ mergePairs before rs ⦃⇓? zs => spred(⌜zs.flatten.Perm rs.flatten⌝ ∧ I)⦄ := by
  have hmerge := symMerge_spec h
  fun_induction mergePairs before rs with
  | case1 xs ys rest ih =>
    mvcgen [hmerge, ih]
    rename_i zs hzs rest' hrest
    refine entails_pure_and ?_
    simpa using hzs.append hrest
  | case2 rs =>
    mvcgen
    exact entails_pure_and (.refl _)

theorem mergeAll_spec (h : ∀ a b, ⦃I⦄ before a b ⦃⇓? _ => I⦄) (fuel : Nat)
    (rs : List (List α)) :
    ⦃I⦄ mergeAll before fuel rs ⦃⇓? zs => spred(⌜zs.Perm rs.flatten⌝ ∧ I)⦄ := by
  have hpairs := mergePairs_spec h
  induction fuel generalizing rs with
  | zero =>
    mvcgen [mergeAll]
    exact entails_pure_and (.refl _)
  | succ fuel ih =>
    mvcgen [mergeAll, hpairs, ih]
    · exact entails_pure_and (.refl _)
    · exact entails_pure_and (by simp)
    · rename_i hmerged _
      exact entails_pure_mono fun hzs => hzs.trans hmerged

theorem runs_flatten {n : Nat} (hn : 0 < n) (fuel : Nat) (xs : List α) (h : xs.length ≤ fuel) :
    (runs n fuel xs).flatten = xs := by
  induction fuel generalizing xs with
  | zero =>
    rw [List.length_eq_zero_iff.1 (Nat.le_zero.1 h)]
    rfl
  | succ fuel ih =>
    rw [runs]
    split
    · simp_all
    · rw [List.flatten_cons, ih _ (by simp; omega), List.take_append_drop]

/-- Sorting rearranges, whatever the comparison does. -/
theorem mergeM_spec (h : ∀ a b, ⦃I⦄ before a b ⦃⇓? _ => I⦄) (xs : List α) :
    ⦃I⦄ mergeM before xs ⦃⇓? zs => spred(⌜zs.Perm xs⌝ ∧ I)⦄ := by
  have hinsertion := insertionM_spec h
  have hall := mergeAll_spec h
  -- The runs are sorted one by one, and together they are still the same elements.
  have hruns : ∀ rs : List (List α),
      ⦃I⦄ rs.mapM (insertionM before)
        ⦃⇓? zs => spred(⌜zs.flatten.Perm rs.flatten⌝ ∧ I)⦄ := by
    intro rs
    induction rs with
    | nil =>
      rw [List.mapM_nil]
      mvcgen
      exact entails_pure_and (.refl _)
    | cons r rs ih =>
      rw [List.mapM_cons]
      mvcgen [hinsertion, ih]
      rename_i zs hzs rest' hrest
      exact entails_pure_and (by simpa using hzs.append hrest)
  mvcgen [mergeM, hruns, hall]
  rename_i hsorted _
  rw [runs_flatten (by decide) _ _ (Nat.le_refl _)] at hsorted
  exact entails_pure_mono fun hzs => hzs.trans hsorted

theorem merge_perm (before : α → α → Bool) (xs : List α) : (merge before xs).Perm xs := by
  have h : ⦃⌜True⌝⦄ (mergeM (fun a b => pure (before a b)) xs : Id (List α))
      ⦃⇓? zs => spred(⌜zs.Perm xs⌝ ∧ ⌜True⌝)⦄ :=
    mergeM_spec (fun a b => by mvcgen) xs
  exact (h trivial).1

/-! ## A comparison by rank -/

section Ranks

abbrev quietly (before : α → α → Bool) : α → α → Id Bool := fun a b => pure (before a b)

variable {before : α → α → Bool} {rank : α → Int} {xs ys : List α}

variable (rank) in
def InOrder (xs : List α) : Prop := xs.Pairwise fun a b => rank a ≤ rank b

variable (rank) in
def rankAt (xs : List α) (i : Nat) : Int := (xs[i]?.map rank).getD 0

theorem rankAt_eq {i : Nat} (hi : i < xs.length) : rankAt rank xs i = rank xs[i] := by
  rw [rankAt, List.getElem?_eq_getElem hi, Option.map_some, Option.getD_some]

theorem rankAt_append_left {i : Nat} (hi : i < xs.length) :
    rankAt rank (xs ++ ys) i = rankAt rank xs i := by
  rw [rankAt, List.getElem?_append_left hi, rankAt]

theorem rankAt_append_right {i : Nat} (hi : xs.length ≤ i) :
    rankAt rank (xs ++ ys) i = rankAt rank ys (i - xs.length) := by
  rw [rankAt, List.getElem?_append_right hi, rankAt]

theorem InOrder.mono (h : InOrder rank xs) {i j : Nat} (hij : i ≤ j) (hj : j < xs.length) :
    rankAt rank xs i ≤ rankAt rank xs j := by
  rw [rankAt_eq (by omega), rankAt_eq hj]
  rcases Nat.eq_or_lt_of_le hij with rfl | hlt
  · exact Int.le_refl _
  · exact List.pairwise_iff_getElem.1 h i j (by omega) hj hlt

variable (rank) in
theorem exists_place_of_mem_take {x : α} {n : Nat} (hx : x ∈ xs.take n) :
    ∃ i, i < n ∧ i < xs.length ∧ rank x = rankAt rank xs i := by
  obtain ⟨i, hi, rfl⟩ := List.mem_take_iff_getElem.1 hx
  exact ⟨i, by omega, by omega, (rankAt_eq (by omega)).symm⟩

variable (rank) in
theorem exists_place_of_mem_drop {x : α} {n : Nat} (hx : x ∈ xs.drop n) :
    ∃ i, n ≤ i ∧ i < xs.length ∧ rank x = rankAt rank xs i := by
  obtain ⟨i, hi, rfl⟩ := List.mem_drop_iff_getElem.1 hx
  exact ⟨n + i, by omega, by omega, (rankAt_eq (by omega)).symm⟩

/-- An element goes between those that are not after it and those that are not before it. -/
theorem InOrder.insert (h : InOrder rank ys) {x : α} {n : Nat}
    (hlow : ∀ i, i < n → i < ys.length → rankAt rank ys i ≤ rank x)
    (hhigh : ∀ i, n ≤ i → i < ys.length → rank x ≤ rankAt rank ys i) :
    InOrder rank (ys.take n ++ x :: ys.drop n) := by
  refine List.pairwise_append.2 ⟨h.sublist (List.take_sublist n ys),
    List.pairwise_cons.2 ⟨fun y hy => ?_, h.sublist (List.drop_sublist n ys)⟩,
    fun y hy z hz => ?_⟩
  · obtain ⟨i, hi, hlt, hrank⟩ := exists_place_of_mem_drop rank hy
    rw [hrank]
    exact hhigh i hi hlt
  · obtain ⟨i, hi, hlt, hrank⟩ := exists_place_of_mem_take rank hy
    rw [hrank]
    rcases List.mem_cons.1 hz with rfl | hz
    · exact hlow i hi hlt
    · obtain ⟨j, hj, hlt', hrank'⟩ := exists_place_of_mem_drop rank hz
      rw [hrank']
      exact h.mono (by omega) hlt'

/-- Halving finds where a condition that holds first at some places and then at none ends. -/
theorem firstPlace_run (here : Nat → Id Bool) (fuel lo hi : Nat) (hle : lo ≤ hi)
    (hfuel : hi ≤ lo + fuel)
    (hdown : ∀ i j, lo ≤ i → i ≤ j → j < hi → (here j).run = true → (here i).run = true) :
    ∃ n, firstPlace here fuel lo hi = pure n ∧ lo ≤ n ∧ n ≤ hi ∧
      (∀ i, lo ≤ i → i < n → (here i).run = true) ∧
      ∀ i, n ≤ i → i < hi → (here i).run = false := by
  induction fuel generalizing lo hi with
  | zero => exact ⟨lo, rfl, Nat.le_refl lo, hle, fun i _ _ => by omega, fun i _ _ => by omega⟩
  | succ fuel ih =>
      rw [firstPlace]
      split
      next hlt =>
        by_cases hmid : (here ((lo + hi) / 2)).run = true
        · obtain ⟨n, hn, hlow, hhigh, htrue, hfalse⟩ := ih ((lo + hi) / 2 + 1) hi
            (by omega) (by omega) fun i j hi' hij hj => hdown i j (by omega) hij hj
          refine ⟨n, ?_, by omega, hhigh, fun i hi' hi'' => ?_, hfalse⟩
          · exact (if_pos hmid).trans hn
          · rcases Nat.lt_or_ge ((lo + hi) / 2) i with hgt | hle'
            · exact htrue i hgt hi''
            · exact hdown i _ hi' hle' (by omega) hmid
        · obtain ⟨n, hn, hlow, hhigh, htrue, hfalse⟩ := ih lo ((lo + hi) / 2)
            (by omega) (by omega) fun i j hi' hij hj => hdown i j hi' hij (by omega)
          refine ⟨n, ?_, hlow, by omega, htrue, fun i hi' hi'' => ?_⟩
          · exact (if_neg hmid).trans hn
          · rcases Nat.lt_or_ge i ((lo + hi) / 2) with hlt' | hge
            · exact hfalse i hi' hlt'
            · refine Bool.eq_false_iff.2 fun htrue' => hmid ?_
              exact hdown _ i (by omega) hge hi'' htrue'
      next hge => exact ⟨lo, rfl, Nat.le_refl lo, hle, fun i _ _ => by omega, fun i _ _ => by omega⟩

variable (before rank) in
def RankedBy (xs : List α) : Prop :=
  ∀ x ∈ xs, ∀ y ∈ xs, before x y = decide (rank x < rank y)

theorem RankedBy.of_subset (h : RankedBy before rank xs) (hsub : ∀ y ∈ ys, y ∈ xs) :
    RankedBy before rank ys :=
  fun x hx y hy => h x (hsub x hx) y (hsub y hy)

theorem beforeAt_run (h : RankedBy before rank xs) {i j : Nat} (hi : i < xs.length)
    (hj : j < xs.length) :
    (beforeAt (quietly before) xs.toArray i j).run =
      decide (rankAt rank xs i < rankAt rank xs j) := by
  rw [rankAt_eq hi, rankAt_eq hj, beforeAt]
  simp only [List.getElem?_toArray, List.getElem?_eq_getElem hi, List.getElem?_eq_getElem hj]
  exact h _ (List.getElem_mem hi) _ (List.getElem_mem hj)

theorem symMerge_perm (before : α → α → Bool) (fuel : Nat) (xs ys : List α) :
    (symMerge (quietly before) fuel xs ys).run.Perm (xs ++ ys) := by
  have h : ⦃⌜True⌝⦄ symMerge (quietly before) fuel xs ys
      ⦃⇓? zs => spred(⌜zs.Perm (xs ++ ys)⌝ ∧ ⌜True⌝)⦄ :=
    symMerge_spec (fun a b => by mvcgen) fuel xs ys
  exact (h trivial).1

/-- What is cut off two runs in front is not after the rest, if each cut is at such a place. -/
theorem halves_inOrder {m n : Nat} (hx : InOrder rank xs) (hy : InOrder rank ys)
    (hlow : ∀ i j, i < m → i < xs.length → n ≤ j → j < ys.length →
      rankAt rank xs i ≤ rankAt rank ys j)
    (hhigh : ∀ i j, i < n → i < ys.length → m ≤ j → j < xs.length →
      rankAt rank ys i ≤ rankAt rank xs j) :
    ∀ a ∈ xs.take m ++ ys.take n, ∀ b ∈ xs.drop m ++ ys.drop n, rank a ≤ rank b := by
  intro a ha b hb
  rcases List.mem_append.1 ha with ha | ha <;> rcases List.mem_append.1 hb with hb | hb <;>
    obtain ⟨i, hi, hi', hrank⟩ := exists_place_of_mem_take rank ha <;>
    obtain ⟨j, hj, hj', hrank'⟩ := exists_place_of_mem_drop rank hb <;>
    rw [hrank, hrank']
  · exact hx.mono (by omega) hj'
  · exact hlow i j hi hi' hj hj'
  · exact hhigh i j hi hi' hj hj'
  · exact hy.mono (by omega) hj'

theorem inOrder_append_of_perm {zs ws : List α} {rs ts : List α} (hr : InOrder rank rs)
    (ht : InOrder rank ts) (hrs : rs.Perm zs) (hts : ts.Perm ws)
    (h : ∀ a ∈ zs, ∀ b ∈ ws, rank a ≤ rank b) : InOrder rank (rs ++ ts) :=
  List.pairwise_append.2 ⟨hr, ht, fun a ha b hb => h a (hrs.mem_iff.1 ha) b (hts.mem_iff.1 hb)⟩

/-- The place at which the first run is cut is such that what the two halves of all elements get is
in order between them. -/
theorem firstPlace_cut (h : RankedBy before rank (xs ++ ys)) (hx : InOrder rank xs)
    (hy : InOrder rank ys) {b mid n : Nat} {range : Nat × Nat} (hb : b = xs.length + ys.length)
    (hmid : mid = b / 2) (hn : n = mid + xs.length)
    (hrange : range = if mid < xs.length then (n - b, mid) else (0, xs.length)) :
    ∃ start, firstPlace (fun c => (do
        return !(← beforeAt (quietly before) (xs ++ ys).toArray (n - 1 - c) c) : Id Bool))
        b range.1 range.2 = pure start ∧
      start ≤ mid ∧ start ≤ xs.length ∧ n - start ≤ b ∧ xs.length ≤ n - start ∧
      (∀ i j, i < start → i < xs.length → n - start - xs.length ≤ j → j < ys.length →
        rankAt rank xs i ≤ rankAt rank ys j) ∧
      ∀ i j, i < n - start - xs.length → i < ys.length → start ≤ j → j < xs.length →
        rankAt rank ys i ≤ rankAt rank xs j := by
  have hends : range.1 ≤ range.2 ∧ range.2 ≤ mid ∧ range.2 ≤ xs.length ∧ n - range.1 ≤ b ∧
      xs.length ≤ n - range.2 ∧ (range.1 = 0 ∨ n - range.1 = b) ∧
      (range.2 = xs.length ∨ n - range.2 = xs.length) := by
    rw [hrange]
    split
    · dsimp only
      omega
    · dsimp only
      omega
  generalize range.1 = lo, range.2 = hi at hends
  -- The place in front of which the second run is cut goes down as the other goes up.
  have hat : ∀ c, lo ≤ c → c < hi → (!(beforeAt (quietly before)
      (xs ++ ys).toArray (n - 1 - c) c).run) =
        decide (rankAt rank xs c ≤ rankAt rank ys (n - 1 - c - xs.length)) := by
    intro c hc hc'
    rw [beforeAt_run h (by rw [List.length_append]; omega) (by rw [List.length_append]; omega),
      rankAt_append_right (i := n - 1 - c) (by omega), rankAt_append_left (i := c) (by omega),
      ← decide_not, decide_eq_decide, Int.not_lt]
  obtain ⟨start, hstart, hlo, hhi, htrue, hfalse⟩ := firstPlace_run
    (fun c => (do return !(← beforeAt (quietly before) (xs ++ ys).toArray (n - 1 - c) c) : Id Bool))
    b lo hi (by omega) (by omega) fun i j hli hij hj hthere => by
      have hle := (hat j (by omega) hj).symm.trans hthere
      rw [decide_eq_true_iff] at hle
      refine (hat i hli (by omega)).trans (decide_eq_true ?_)
      calc rankAt rank xs i ≤ rankAt rank xs j := hx.mono hij (by omega)
        _ ≤ rankAt rank ys (n - 1 - j - xs.length) := hle
        _ ≤ rankAt rank ys (n - 1 - i - xs.length) := hy.mono (by omega) (by omega)
  refine ⟨start, hstart, by omega, by omega, by omega, by omega, ?_, ?_⟩
  · intro i j hi₁ hi₂ hj₁ hj₂
    by_cases hnone : start = lo
    · omega
    have htrue := (hat (start - 1) (by omega) (by omega)).symm.trans
      (htrue (start - 1) (by omega) (by omega))
    rw [decide_eq_true_iff] at htrue
    calc rankAt rank xs i ≤ rankAt rank xs (start - 1) := hx.mono (by omega) (by omega)
      _ ≤ rankAt rank ys (n - 1 - (start - 1) - xs.length) := htrue
      _ ≤ rankAt rank ys j := hy.mono (by omega) hj₂
  · intro i j hi₁ hi₂ hj₁ hj₂
    by_cases hnone : start = hi
    · omega
    have hfalse := (hat start (by omega) (by omega)).symm.trans
      (hfalse start (Nat.le_refl _) (by omega))
    rw [decide_eq_false_iff_not, Int.not_le] at hfalse
    calc rankAt rank ys i ≤ rankAt rank ys (n - 1 - start - xs.length) :=
          hy.mono (by omega) (by omega)
      _ ≤ rankAt rank xs start := Int.le_of_lt hfalse
      _ ≤ rankAt rank xs j := hx.mono hj₁ hj₂

/-- Halving finds the place of an element in a run, from what tells which ranks go before it. -/
theorem firstPlace_insert (here : Nat → Id Bool) (low : Int → Bool) (x : α)
    (hy : InOrder rank ys) (hhere : ∀ i, i < ys.length → (here i).run = low (rankAt rank ys i))
    (hdown : ∀ v w, v ≤ w → low w = true → low v = true)
    (hlow : ∀ v, low v = true → v ≤ rank x) (hhigh : ∀ v, low v = false → rank x ≤ v) :
    ∃ n, firstPlace here ys.length 0 ys.length = pure n ∧
      InOrder rank (ys.take n ++ x :: ys.drop n) := by
  obtain ⟨n, hn, -, -, htrue, hfalse⟩ := firstPlace_run here ys.length 0 ys.length
    (Nat.zero_le ys.length) (by omega) fun i j _ hij hj hthere => by
      rw [hhere j hj] at hthere
      rw [hhere i (by omega)]
      exact hdown _ _ (hy.mono hij hj) hthere
  refine ⟨n, hn, hy.insert (fun i hi hi' => hlow _ ?_) fun i hi hi' => hhigh _ ?_⟩
  · rw [← hhere i hi']
    exact htrue i (Nat.zero_le i) hi
  · rw [← hhere i hi']
    exact hfalse i hi hi'

/-- A run of one element goes before its equals in the other run. -/
theorem firstPlace_before_equals {x : α} (h : RankedBy before rank ([x] ++ ys))
    (hy : InOrder rank ys) :
    ∃ n, firstPlace (fun i => beforeAt (quietly before) ([x] ++ ys).toArray (i + 1) 0)
        ys.length 0 ys.length = pure n ∧ InOrder rank (ys.take n ++ x :: ys.drop n) := by
  refine firstPlace_insert _ (fun v => v < rank x) x hy (fun i hi => ?_) (fun v w hle hlt => ?_)
    (fun v hlt => ?_) fun v hge => ?_
  · rw [beforeAt_run h (by simp; omega) (by simp)]
    rfl
  · simp only [decide_eq_true_eq] at *
    omega
  · exact Int.le_of_lt (of_decide_eq_true hlt)
  · exact Int.not_lt.1 (of_decide_eq_false hge)

/-- A run of one element goes behind its equals in the other run. -/
theorem firstPlace_behind_equals {y : α} (h : RankedBy before rank (xs ++ [y]))
    (hx : InOrder rank xs) :
    ∃ n, firstPlace (fun i => (do
          return !(← beforeAt (quietly before) (xs ++ [y]).toArray xs.length i) : Id Bool))
        xs.length 0 xs.length = pure n ∧ InOrder rank (xs.take n ++ y :: xs.drop n) := by
  refine firstPlace_insert _ (fun v => v ≤ rank y) y hx (fun i hi => ?_) (fun v w hle hle' => ?_)
    (fun v hle => ?_) fun v hgt => ?_
  · show (!(beforeAt (quietly before) (xs ++ [y]).toArray xs.length i).run) = _
    rw [beforeAt_run h (by simp) (by simp; omega), rankAt_append_left hi,
      rankAt_append_right (Nat.le_refl _), ← decide_not, decide_eq_decide, Int.not_lt,
      Nat.sub_self]
    rfl
  · simp only [decide_eq_true_eq] at *
    omega
  · exact of_decide_eq_true hle
  · exact Int.le_of_lt (Int.not_le.1 (of_decide_eq_false hgt))

theorem two_le_length (h : xs ≠ []) (h' : ∀ x, xs ≠ [x]) : 2 ≤ xs.length := by
  match xs, h, h' with
  | [], h, _ => exact absurd rfl h
  | [x], _, h' => exact absurd rfl (h' x)
  | _ :: _ :: _, _, _ => exact Nat.le_add_left 2 _

/-- The fronts of two lists are moved together, and so are their ends. -/
theorem halves_of_moved {start cut mid : Nat} (hstart : start ≤ xs.length) (hcut : cut ≤ ys.length)
    (hmid : start + cut = mid) :
    (xs.take start ++ ys.take cut ++ xs.drop start ++ ys.drop cut).take mid =
        xs.take start ++ ys.take cut ∧
      (xs.take start ++ ys.take cut ++ xs.drop start ++ ys.drop cut).drop mid =
        xs.drop start ++ ys.drop cut := by
  have hlength : (xs.take start ++ ys.take cut).length = mid := by
    rw [List.length_append, List.length_take_of_le hstart, List.length_take_of_le hcut, hmid]
  rw [List.append_assoc]
  exact ⟨List.take_left' hlength, List.drop_left' hlength⟩

/-- Symmetric merging puts two runs in order together. -/
theorem symMerge_inOrder {fuel : Nat} (h : RankedBy before rank (xs ++ ys))
    (hx : InOrder rank xs) (hy : InOrder rank ys) (hfuel : xs.length + ys.length ≤ fuel) :
    InOrder rank (symMerge (quietly before) fuel xs ys).run := by
  induction fuel generalizing xs ys with
  | zero =>
      obtain rfl : xs = [] := List.eq_nil_of_length_eq_zero (by omega)
      exact hy
  | succ fuel ih =>
      unfold symMerge
      dsimp only
      split
      · exact hy
      · exact hx
      next x _ =>
        obtain ⟨n, hn, hsorted⟩ := firstPlace_before_equals h hy
        rw [hn, pure_bind]
        exact hsorted
      next y _ _ =>
        obtain ⟨n, hn, hsorted⟩ := firstPlace_behind_equals h hx
        rw [hn, pure_bind]
        exact hsorted
      next hnx hnx' hny hny' =>
        have hsome : 2 ≤ xs.length ∧ 2 ≤ ys.length :=
          ⟨two_le_length hnx hnx', two_le_length hny hny'⟩
        obtain ⟨start, hstart, hmid, hfirst, hstop, hsecond, hlow, hhigh⟩ :=
          firstPlace_cut h hx hy (b := (xs ++ ys).toArray.size) (by simp) rfl rfl rfl
        rw [hstart, pure_bind]
        generalize hm : (xs ++ ys).toArray.size / 2 = mid at *
        have hsize : (xs ++ ys).toArray.size = xs.length + ys.length := by simp
        set cut := mid + xs.length - start - xs.length with hcut
        have hxs : (xs.take start).length = start := List.length_take_of_le hfirst
        have hys : (ys.take cut).length = cut := List.length_take_of_le (by omega)
        have hxs' : (xs.drop start).length = xs.length - start := List.length_drop
        have hys' : (ys.drop cut).length = ys.length - cut := List.length_drop
        have hcut' : cut ≤ ys.length := by omega
        have hmoved := halves_of_moved hfirst hcut' (show start + cut = mid by omega)
        rw [hmoved.1, hmoved.2, List.take_left' hxs, List.drop_left' hxs,
          List.take_left' (by omega), List.drop_left' (by omega)]
        have hfront := (List.take_sublist start xs).append (List.take_sublist cut ys)
        have hback := (List.drop_sublist start xs).append (List.drop_sublist cut ys)
        exact inOrder_append_of_perm
          (ih (h.of_subset fun a ha => hfront.subset ha) (hx.sublist (List.take_sublist _ _))
            (hy.sublist (List.take_sublist _ _)) (by omega))
          (ih (h.of_subset fun a ha => hback.subset ha) (hx.sublist (List.drop_sublist _ _))
            (hy.sublist (List.drop_sublist _ _)) (by omega))
          (symMerge_perm before fuel _ _) (symMerge_perm before fuel _ _)
          (halves_inOrder hx hy hlow hhigh)

/-! ## Runs -/

theorem mergePairs_perm (before : α → α → Bool) (rs : List (List α)) :
    (mergePairs (quietly before) rs).run.flatten.Perm rs.flatten := by
  have h : ⦃⌜True⌝⦄ mergePairs (quietly before) rs
      ⦃⇓? zs => spred(⌜zs.flatten.Perm rs.flatten⌝ ∧ ⌜True⌝)⦄ :=
    mergePairs_spec (fun a b => by mvcgen) rs
  exact (h trivial).1

theorem mergePairs_length (before : α → α → Bool) (rs : List (List α)) :
    (mergePairs (quietly before) rs).run.length = (rs.length + 1) / 2 := by
  fun_induction mergePairs (quietly before) rs with
  | case1 xs ys rest ih =>
      rw [Id.run_bind, Id.run_bind, Id.run_pure, List.length_cons, ih, List.length_cons,
        List.length_cons]
      omega
  | case2 rs hshort =>
      rw [Id.run_pure]
      match rs, hshort with
      | [], _ => simp
      | [_], _ => simp
      | xs :: ys :: rest, h => exact (h xs ys rest rfl).elim

theorem mergePairs_inOrder {rs : List (List α)} (h : RankedBy before rank rs.flatten)
    (hall : ∀ r ∈ rs, InOrder rank r) :
    ∀ r ∈ (mergePairs (quietly before) rs).run, InOrder rank r := by
  fun_induction mergePairs (quietly before) rs with
  | case1 xs ys rest ih =>
      rw [Id.run_bind, Id.run_bind, Id.run_pure]
      rw [List.flatten_cons, List.flatten_cons, ← List.append_assoc] at h
      simp only [List.forall_mem_cons] at hall ⊢
      obtain ⟨hx, hy, hrest⟩ := hall
      refine ⟨symMerge_inOrder (h.of_subset fun a ha => List.mem_append_left _ ha) hx hy
        (Nat.le_refl _), ih (h.of_subset fun a ha => List.mem_append_right _ ha) hrest⟩
  | case2 rs => exact hall

theorem mergeAll_inOrder {fuel : Nat} {rs : List (List α)} (h : RankedBy before rank rs.flatten)
    (hall : ∀ r ∈ rs, InOrder rank r) (hfuel : rs.length ≤ fuel) :
    InOrder rank (mergeAll (quietly before) fuel rs).run := by
  induction fuel generalizing rs with
  | zero =>
      obtain rfl : rs = [] := List.eq_nil_of_length_eq_zero (by omega)
      exact List.Pairwise.nil
  | succ fuel ih =>
      unfold mergeAll
      split
      · exact List.Pairwise.nil
      next r => exact hall r (List.mem_singleton_self r)
      next hnil hone =>
        have hlong := two_le_length hnil hone
        have hlength := mergePairs_length before rs
        rw [Id.run_bind]
        exact ih (h.of_subset fun a ha => (mergePairs_perm before rs).mem_iff.1 ha)
          (mergePairs_inOrder h hall) (by omega)

theorem insertDescendingM_quietly (before : α → α → Bool) (x : α) (ys : List α) :
    insertDescendingM (quietly before) x ys = pure (insertDescending before x ys) := by
  induction ys with
  | nil => rfl
  | cons y ys ih =>
      rw [insertDescendingM, insertDescending, pure_bind, ih]
      split <;> rfl

theorem insertionM_quietly (before : α → α → Bool) :
    insertionM (quietly before) = fun xs => pure (insertion before xs) := by
  funext xs
  rw [insertionM, insertion]
  simp only [insertDescendingM_quietly, List.foldlM_pure, pure_bind]

/-- Where the comparison is that of a rank, the stable sort sorts by it. -/
theorem merge_pairwise (h : ∀ x ∈ xs, ∀ y ∈ xs, before x y = decide (rank x < rank y)) :
    (merge before xs).Pairwise fun a b => rank a ≤ rank b := by
  have hflat := runs_flatten (n := 20) (by decide) _ xs (Nat.le_refl _)
  have hmem : ∀ r ∈ runs 20 xs.length xs, ∀ x ∈ r, x ∈ xs := fun r hr x hx => by
    rw [← hflat]
    exact List.mem_flatten_of_mem hr hx
  have hmem' : ∀ x ∈ ((runs 20 xs.length xs).map (insertion before)).flatten, x ∈ xs := by
    intro x hx
    obtain ⟨_, hr', hx⟩ := List.mem_flatten.1 hx
    obtain ⟨r, hr, rfl⟩ := List.mem_map.1 hr'
    exact hmem r hr x ((insertion_perm before r).mem_iff.1 hx)
  rw [merge, mergeM, insertionM_quietly, List.mapM_pure, pure_bind]
  refine mergeAll_inOrder (fun x hx y hy => h x (hmem' x hx) y (hmem' y hy)) ?_ (Nat.le_refl _)
  intro r' hr'
  obtain ⟨r, hr, rfl⟩ := List.mem_map.1 hr'
  exact insertion_pairwise fun x hx y hy => h x (hmem r hr x hx) y (hmem r hr y hy)

end Ranks

/-! ## Keys -/

/-- Elements by key are the same elements. -/
theorem byKeyStable_perm (key : α → Int64) (xs : List α) : (byKeyStable key xs).Perm xs :=
  merge_perm _ xs

/-- Narrow keys are put in order. -/
theorem byKeyStable_pairwise {key : α → Int64} {xs : List α} (h : Narrow key xs) :
    (byKeyStable key xs).Pairwise fun a b => (key a).toInt ≤ (key b).toInt :=
  merge_pairwise fun _ hx _ hy => h.wrappedBefore_eq hx hy

end TapeForge.Sorting
