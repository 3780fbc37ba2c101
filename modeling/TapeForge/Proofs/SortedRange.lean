import TapeForge.Sorting.Rearranged

/-!
# Ranges that are put in order

Quicksort works on ranges of an array. What it does to a range is told by two facts: every element
of the range comes from the range, and the elements outside stand where they stood. Where elements
are compared by a rank, both hold of each way to sort a short range or one that is hard to split,
by insertion and by a heap, and they leave it in order.
-/

namespace TapeForge.Sorting.Bench

variable {α : Type}

/-! ## Ranges -/

/-- Only places `a ≤ k < b` have changed, and their elements come from there. -/
structure Within (a b : Nat) (s s' : Bench α) : Prop where
  before : s'.before = s.before
  size : s'.items.size = s.items.size
  source : ∀ k, s'.items[k]? = s.items[k]? ∨
    a ≤ k ∧ k < b ∧ ∃ j, a ≤ j ∧ j < b ∧ s'.items[k]? = s.items[j]?

theorem getElem?_swap (s : Bench α) {i j : Nat} (hi : i < s.items.size) (hj : j < s.items.size)
    (k : Nat) :
    (s.swap i j).items[k]? =
      if k = i then s.items[j]? else if k = j then s.items[i]? else s.items[k]? := by
  have hswap : (s.swap i j).items = s.items.swap i j hi hj := by
    rw [swap, Array.swapIfInBounds, dif_pos hi, dif_pos hj]
  rw [hswap, Array.getElem?_swap, Array.getElem?_eq_getElem hi, Array.getElem?_eq_getElem hj]
  by_cases hki : k = i
  · by_cases hkj : k = j
    · subst hki hkj
      rfl
    · rw [if_neg (Ne.symm hkj), if_pos hki.symm, if_pos hki]
  · by_cases hkj : k = j
    · rw [if_pos hkj.symm, if_neg hki, if_pos hkj]
    · rw [if_neg (Ne.symm hkj), if_neg (Ne.symm hki), if_neg hki, if_neg hkj]

namespace Within

variable {a b : Nat} {s s' s'' : Bench α}

theorem refl (a b : Nat) (s : Bench α) : Within a b s s := ⟨rfl, rfl, fun _ => .inl rfl⟩

theorem trans (h : Within a b s s') (h' : Within a b s' s'') : Within a b s s'' where
  before := h'.before.trans h.before
  size := h'.size.trans h.size
  source k := by
    rcases h'.source k with heq | ⟨hk, hk', j, hj, hj', heq⟩
    · rw [heq]
      exact h.source k
    · rw [heq]
      rcases h.source j with hj'' | ⟨-, -, i, hi⟩
      · exact .inr ⟨hk, hk', j, hj, hj', hj''⟩
      · exact .inr ⟨hk, hk', i, hi⟩

/-- A range lies in a wider one. -/
theorem mono {c d : Nat} (h : Within c d s s') (ha : a ≤ c) (hb : d ≤ b) : Within a b s s' where
  before := h.before
  size := h.size
  source k := by
    rcases h.source k with heq | ⟨hk, hk', j, hj, hj', heq⟩
    · exact .inl heq
    · exact .inr ⟨by omega, by omega, j, by omega, by omega, heq⟩

theorem swap {i j : Nat} (hi : a ≤ i ∧ i < b) (hj : a ≤ j ∧ j < b) (hb : b ≤ s.items.size) :
    Within a b s (s.swap i j) where
  before := rfl
  size := Array.size_swapIfInBounds
  source k := by
    rw [getElem?_swap s (by omega) (by omega)]
    split
    next h => exact .inr ⟨by omega, by omega, j, hj.1, hj.2, rfl⟩
    next =>
      split
      next h => exact .inr ⟨by omega, by omega, i, hi.1, hi.2, rfl⟩
      next => exact .inl rfl

theorem foldl {β : Type} {f : Bench α → β → Bench α} {bs : List β}
    (h : ∀ s, b ≤ s.items.size → ∀ x ∈ bs, Within a b s (f s x)) (s : Bench α)
    (hb : b ≤ s.items.size) : Within a b s (bs.foldl f s) := by
  induction bs generalizing s with
  | nil => exact refl a b s
  | cons x bs ih =>
      have hx := h s hb x List.mem_cons_self
      refine hx.trans (ih (fun s hs y hy => h s hs y (List.mem_cons_of_mem x hy)) _ ?_)
      rw [hx.size]
      exact hb

end Within

/-! ## Ranks -/

section Ranks

variable (rank : α → Int)

/-- The comparison is that of a rank, for the elements that are there. -/
def Ranked (s : Bench α) : Prop :=
  ∀ x ∈ s.items, ∀ y ∈ s.items, s.before x y = decide (rank x < rank y)

def key (s : Bench α) (i : Nat) : Int := (s.items[i]?.map rank).getD 0

def Sorted (s : Bench α) (a b : Nat) : Prop :=
  ∀ p q, a ≤ p → p < q → q < b → s.key rank p ≤ s.key rank q

/-- The range is in order, but for the element at `j`: it may come before some to its left. -/
def SortedBut (s : Bench α) (a b j : Nat) : Prop :=
  ∀ p q, a ≤ p → p < q → q < b → q ≠ j → s.key rank p ≤ s.key rank q

/-- The element before the range, if there is one, is before none of the range. -/
def Follows (s : Bench α) (a b : Nat) : Prop :=
  a = 0 ∨ ∀ k, a ≤ k → k < b → s.key rank (a - 1) ≤ s.key rank k

end Ranks

variable {rank : α → Int} {s s' : Bench α} {a b : Nat}

theorem Ranked.less_iff (h : s.Ranked rank) {i j : Nat} (hi : i < s.items.size)
    (hj : j < s.items.size) : s.less i j = true ↔ s.key rank i < s.key rank j := by
  simp only [less, key, Array.getElem?_eq_getElem hi, Array.getElem?_eq_getElem hj,
    Option.map_some, Option.getD_some]
  rw [h _ (Array.getElem_mem hi) _ (Array.getElem_mem hj), decide_eq_true_iff]

variable (rank) in
theorem key_swap {i j : Nat} (hi : i < s.items.size) (hj : j < s.items.size) (k : Nat) :
    (s.swap i j).key rank k =
      if k = i then s.key rank j else if k = j then s.key rank i else s.key rank k := by
  rw [key, getElem?_swap s hi hj]
  split
  · rfl
  · split
    · rfl
    · rfl

namespace Within

variable (h : Within a b s s')

include h

theorem ranked (hs : s.Ranked rank) : s'.Ranked rank := by
  have hmem : ∀ x ∈ s'.items, x ∈ s.items := by
    intro x hx
    obtain ⟨k, hk⟩ := Array.mem_iff_getElem?.1 hx
    rcases h.source k with heq | ⟨-, -, j, -, -, heq⟩
    · exact Array.mem_of_getElem? (heq ▸ hk)
    · exact Array.mem_of_getElem? (heq ▸ hk)
  intro x hx y hy
  rw [h.before]
  exact hs x (hmem x hx) y (hmem y hy)

theorem key_outside {k : Nat} (hk : k < a ∨ b ≤ k) : s'.key rank k = s.key rank k := by
  rcases h.source k with heq | ⟨hk', hk'', -⟩
  · rw [key, heq, key]
  · omega

/-- What holds of all ranks in the range goes on to hold. -/
theorem forall_key {P : Int → Prop} (hp : ∀ k, a ≤ k → k < b → P (s.key rank k)) (k : Nat)
    (hk : a ≤ k) (hk' : k < b) : P (s'.key rank k) := by
  rcases h.source k with heq | ⟨-, -, j, hj, hj', heq⟩
  · rw [key, heq]
    exact hp k hk hk'
  · rw [key, heq]
    exact hp j hj hj'

theorem follows (hf : s.Follows rank a b) : s'.Follows rank a b := by
  rcases hf with rfl | hf
  · exact .inl rfl
  · rcases Nat.eq_zero_or_pos a with rfl | ha
    · exact .inl rfl
    · refine .inr fun k hk hk' => ?_
      rw [h.key_outside (k := a - 1) (by omega)]
      exact h.forall_key hf k hk hk'

end Within

/-! ## Insertion -/

namespace SortedBut

variable {j : Nat}

/-- The element is exchanged with its left neighbour, which it comes before. -/
theorem swap (h : s.SortedBut rank a b (j + 1)) (hj : a ≤ j) (hj' : j + 1 < b)
    (hb : b ≤ s.items.size) (hlt : s.key rank (j + 1) < s.key rank j) :
    (s.swap (j + 1) j).SortedBut rank a b j := by
  intro p q hp hpq hq hqj
  rw [key_swap rank (by omega) (by omega), key_swap rank (by omega) (by omega)]
  rcases Nat.lt_trichotomy q (j + 1) with hlow | rfl | hhigh
  · rw [if_neg (by omega), if_neg (by omega), if_neg (by omega), if_neg (by omega)]
    exact h p q hp hpq hq (by omega)
  · rw [if_neg (by omega), if_pos rfl]
    by_cases hpj : p = j
    · rw [if_pos hpj]
      exact Int.le_of_lt hlt
    · rw [if_neg hpj]
      exact h p j hp (by omega) (by omega) (by omega)
  · rw [if_neg (c := q = j + 1) (by omega), if_neg (c := q = j) (by omega)]
    split
    · exact h j q hj (by omega) hq (by omega)
    · split
      · exact h (j + 1) q (by omega) (by omega) hq (by omega)
      · exact h p q hp hpq hq (by omega)

theorem sorted (h : s.SortedBut rank a b (j + 1))
    (hle : a ≤ j → s.key rank j ≤ s.key rank (j + 1)) : s.Sorted rank a b := by
  intro p q hp hpq hq
  by_cases hqj : q = j + 1
  · subst hqj
    by_cases hpj : p = j
    · rw [hpj]
      exact hle (by omega)
    · exact Int.le_trans (h p j hp (by omega) (by omega) (by omega)) (hle (by omega))
  · exact h p q hp hpq hq hqj

end SortedBut

/-- An element sinks to its place in a range that is in order but for this element. -/
theorem sinkLeft_spec (lo j : Nat) (hs : s.Ranked rank) (hb : b ≤ s.items.size) (hj : a ≤ j)
    (hj' : j < b) (hlo : lo = a ∨ lo ≤ a ∧ s.Follows rank a b) (h : s.SortedBut rank a b j) :
    Within a b s (s.sinkLeft lo j) ∧ (s.sinkLeft lo j).Sorted rank a b := by
  induction j generalizing s with
  | zero => exact ⟨.refl a b s, fun p q hp hpq hq => h p q hp hpq hq (by omega)⟩
  | succ j ih =>
      have hless := hs.less_iff (i := j + 1) (j := j) (by omega) (by omega)
      rw [sinkLeft]
      split
      next hsink =>
        obtain ⟨hlow, hlt⟩ := hsink
        rw [hless] at hlt
        -- At the front of the range nothing is left that the element comes before.
        have haj : a ≤ j := by
          refine Nat.le_of_not_lt fun hne => ?_
          obtain rfl : a = j + 1 := by omega
          rcases hlo with rfl | ⟨-, hzero | hfollows⟩
          · omega
          · omega
          · have := hfollows (j + 1) (by omega) hj'
            simp only [Nat.add_sub_cancel] at this
            omega
        have hw : Within a b s (s.swap (j + 1) j) := .swap ⟨hj, hj'⟩ ⟨haj, by omega⟩ hb
        have hnext := ih (hw.ranked hs) (hw.size ▸ hb) haj (by omega)
          (hlo.imp_right fun hf => ⟨hf.1, hw.follows hf.2⟩) (h.swap haj hj' hb hlt)
        exact ⟨hw.trans hnext.1, hnext.2⟩
      next hstay =>
        refine ⟨.refl a b s, h.sorted fun haj => Int.not_lt.1 fun hlt => hstay ⟨?_, hless.2 hlt⟩⟩
        rcases hlo with rfl | ⟨hlow, -⟩
        · exact Nat.lt_succ_of_le haj
        · omega

/-- Insertion puts a range in order. -/
theorem insertRange_spec (hs : s.Ranked rank) (hb : b ≤ s.items.size) :
    Within a b s (s.insertRange a b) ∧ (s.insertRange a b).Sorted rank a b := by
  -- After `n` rounds the first `n + 1` elements of the range are in order.
  have hrounds : ∀ n, n < b - a →
      let s' := (List.range' (a + 1) n).foldl (fun s i => s.sinkLeft a i) s
      Within a b s s' ∧ s'.Sorted rank a (a + n + 1) := by
    intro n
    induction n with
    | zero =>
        intro _
        exact ⟨.refl a b s, fun p q _ _ _ => by omega⟩
    | succ n ih =>
        intro hn
        obtain ⟨hw, hsorted⟩ := ih (by omega)
        have hround : (List.range' (a + 1) (n + 1)).foldl (fun s i => s.sinkLeft a i) s =
            ((List.range' (a + 1) n).foldl (fun s i => s.sinkLeft a i) s).sinkLeft a
              (a + n + 1) := by
          rw [List.range'_concat, List.foldl_append, List.foldl_cons, List.foldl_nil]
          congr 1
          omega
        rw [hround]
        generalize (List.range' (a + 1) n).foldl _ s = t at hw hsorted ⊢
        have hsink := sinkLeft_spec a (a + n + 1) (b := a + n + 2) (hw.ranked hs)
          (by rw [hw.size]; omega) (by omega) (by omega) (.inl rfl)
          fun p q hp hpq hq hqj => hsorted p q hp hpq (by omega)
        exact ⟨hw.trans (hsink.1.mono (Nat.le_refl a) (by omega)), hsink.2⟩
  rcases Nat.lt_or_ge a b with hab | hab
  · obtain ⟨hw, hsorted⟩ := hrounds (b - a - 1) (by omega)
    have hend : a + (b - a - 1) + 1 = b := by omega
    rw [hend] at hsorted
    exact ⟨hw, hsorted⟩
  · have hnone : b - a - 1 = 0 := by omega
    rw [insertRange, hnone]
    exact ⟨.refl a b s, fun p q _ _ _ => by omega⟩

/-! ## Heaps -/

section Heaps

variable {first hi lo : Nat}

def Child (c k : Nat) : Prop := c = 2 * k + 1 ∨ c = 2 * k + 2

variable (rank) in
/-- From `lo` on, no node of the `hi` elements at `first` is before one of its children. -/
def Heaped (s : Bench α) (first hi lo : Nat) : Prop :=
  ∀ k c, lo ≤ k → Child c k → c < hi → s.key rank (first + c) ≤ s.key rank (first + k)

/-- The child that a root is compared with is one that no other child is before. -/
theorem greatest_child {root m : Nat} (hs : s.Ranked rank) (hb : first + hi ≤ s.items.size)
    (hsome : 2 * root + 1 < hi)
    (hm : m = if 2 * root + 1 + 1 < hi ∧
        s.less (first + (2 * root + 1)) (first + (2 * root + 1) + 1) = true
      then 2 * root + 1 + 1 else 2 * root + 1) :
    Child m root ∧ m < hi ∧
      ∀ c, Child c root → c < hi → s.key rank (first + c) ≤ s.key rank (first + m) := by
  unfold Child
  by_cases hlt : 2 * root + 1 + 1 < hi ∧
      s.less (first + (2 * root + 1)) (first + (2 * root + 1) + 1) = true
  · rw [if_pos hlt] at hm
    have hless := (hs.less_iff (by omega) (by omega)).1 hlt.2
    refine ⟨by omega, by omega, ?_⟩
    rintro c (rfl | rfl) hc
    · rw [hm]
      exact Int.le_of_lt hless
    · exact Int.le_of_eq (by rw [hm])
  · rw [if_neg hlt] at hm
    refine ⟨by omega, by omega, ?_⟩
    rintro c (rfl | rfl) hc
    · exact Int.le_of_eq (by rw [hm])
    · rw [hm]
      exact Int.not_lt.1 fun hless => hlt ⟨hc, (hs.less_iff (by omega) (by omega)).2 hless⟩

variable (rank) in
/-- A heap from `lo` on, but for `root`: it may be before its children. Its own parent is before
none of them. -/
structure HeapedBut (s : Bench α) (first hi lo root : Nat) : Prop where
  others : ∀ k c, lo ≤ k → k ≠ root → Child c k → c < hi →
    s.key rank (first + c) ≤ s.key rank (first + k)
  parent : ∀ p c, lo ≤ p → Child root p → Child c root → c < hi →
    s.key rank (first + c) ≤ s.key rank (first + p)

namespace HeapedBut

variable {root : Nat} (h : s.HeapedBut rank first hi lo root)

include h

theorem heaped (hr : ∀ c, Child c root → c < hi →
    s.key rank (first + c) ≤ s.key rank (first + root)) : s.Heaped rank first hi lo := by
  intro k c hk hc hlt
  by_cases hkr : k = root
  · subst hkr
    exact hr c hc hlt
  · exact h.others k c hk hkr hc hlt

/-- The root is exchanged with the child that no other child is before. -/
theorem swap {m : Nat} (hb : first + hi ≤ s.items.size) (hroot : lo ≤ root) (hchild : Child m root)
    (hm : m < hi)
    (hmax : ∀ c, Child c root → c < hi → s.key rank (first + c) ≤ s.key rank (first + m))
    (hlt : s.key rank (first + root) < s.key rank (first + m)) :
    (s.swap (first + root) (first + m)).HeapedBut rank first hi lo m := by
  have hrm : root < m := by unfold Child at hchild; omega
  have hkey : ∀ k, (s.swap (first + root) (first + m)).key rank (first + k) =
      if k = root then s.key rank (first + m)
      else if k = m then s.key rank (first + root) else s.key rank (first + k) := by
    intro k
    rw [key_swap rank (by omega) (by omega)]
    simp only [Nat.add_left_cancel_iff]
  constructor
  · intro k c hk hkm hc hlast
    rw [hkey, hkey]
    by_cases hkr : k = root
    · subst hkr
      have hcr : c ≠ k := by unfold Child at hc; omega
      rw [if_pos rfl, if_neg hcr]
      split
      · exact Int.le_of_lt hlt
      · exact hmax c hc hlast
    · -- The only parent of the child is the root.
      have hcm : c ≠ m := by unfold Child at hc hchild; omega
      rw [if_neg hkr, if_neg hkm, if_neg hcm]
      split
      next hcr =>
        subst hcr
        exact h.parent k m hk hc hchild hm
      next => exact h.others k c hk hkr hc hlast
  · intro p c hp hmp hc hlast
    have hpr : p = root := by unfold Child at hmp hchild; omega
    have hcm : m < c := by unfold Child at hc; omega
    rw [hkey, hkey, if_pos hpr, if_neg (by omega), if_neg (by omega)]
    exact h.others m c (by omega) (by omega) hc hlast

end HeapedBut

/-- The root of a heap sinks to its place, when its children are not before its own parent. -/
theorem siftDown_spec (fuel root : Nat) (hs : s.Ranked rank) (hb : first + hi ≤ s.items.size)
    (hfuel : hi ≤ root + fuel) (hroot : lo ≤ root) (h : s.HeapedBut rank first hi lo root) :
    Within first (first + hi) s (s.siftDown hi first fuel root) ∧
      (s.siftDown hi first fuel root).Heaped rank first hi lo := by
  induction fuel generalizing s root with
  | zero => exact ⟨.refl _ _ s, h.heaped fun c hc hlt => by unfold Child at hc; omega⟩
  | succ fuel ih =>
      rw [siftDown]
      extract_lets m
      split
      next hnone => exact ⟨.refl _ _ s, h.heaped fun c hc hlt => by unfold Child at hc; omega⟩
      next hsome =>
        obtain ⟨hchild, hmlt, hmax⟩ := greatest_child (m := m) hs hb (Nat.lt_of_not_le hsome) rfl
        clear_value m
        have hrm : root < m := by unfold Child at hchild; omega
        have hless := hs.less_iff (i := first + root) (j := first + m) (by omega) (by omega)
        split
        next hsink =>
          rw [hless] at hsink
          have hw : Within first (first + hi) s (s.swap (first + root) (first + m)) :=
            .swap (by omega) (by omega) hb
          have hnext := ih m (hw.ranked hs) (hw.size ▸ hb) (by omega) (by omega)
            (h.swap hb hroot hchild hmlt hmax hsink)
          exact ⟨hw.trans hnext.1, hnext.2⟩
        next hstay =>
          refine ⟨.refl _ _ s, h.heaped fun c hc hlt => Int.le_trans (hmax c hc hlt) ?_⟩
          exact Int.not_lt.1 fun hlt => hstay (hless.2 hlt)

/-- No element of a heap comes after its root. -/
theorem Heaped.le_root (h : s.Heaped rank first hi 0) {k : Nat} (hk : k < hi) :
    s.key rank (first + k) ≤ s.key rank first := by
  induction k using Nat.strongRecOn with
  | ind k ih =>
      rcases Nat.eq_zero_or_pos k with rfl | hpos
      · exact Int.le_refl _
      · have hchild : Child k ((k - 1) / 2) := by unfold Child; omega
        exact Int.le_trans (h _ k (Nat.zero_le _) hchild hk) (ih _ (by omega) (by omega))

/-- Every element sinks in turn, from the last to the first, and they are a heap. -/
theorem heaped_foldl {n : Nat} (m : Nat) (hs : s.Ranked rank) (hb : a + n ≤ s.items.size)
    (h : s.Heaped rank a n m) :
    let s' := (List.range m).reverse.foldl (fun s i => s.siftDown n a n i) s
    Within a (a + n) s s' ∧ s'.Heaped rank a n 0 := by
  induction m generalizing s with
  | zero => exact ⟨.refl _ _ s, h⟩
  | succ m ih =>
      rw [List.range_succ, List.reverse_append, List.reverse_singleton, List.singleton_append,
        List.foldl_cons]
      have hsift := siftDown_spec n m hs hb (by omega) (Nat.le_refl m)
        ⟨fun k c hk hkm hc hlt => h k c (by omega) hc hlt,
          fun p c hp hm => by unfold Child at hm; omega⟩
      have hnext := ih (hsift.1.ranked hs) (hsift.1.size ▸ hb) hsift.2
      exact ⟨hsift.1.trans hnext.1, hnext.2⟩

variable (rank) in
/-- The first `m` of the `n` elements at `a` are a heap. Those behind are in order, and none of them
is before an element of the heap. -/
structure Drained (s : Bench α) (a n m : Nat) : Prop where
  heap : s.Heaped rank a m 0
  sorted : s.Sorted rank (a + m) (a + n)
  rest : ∀ k q, k < m → a + m ≤ q → q < a + n → s.key rank (a + k) ≤ s.key rank q

/-- The root of a heap is exchanged with its last element: that may be before its children now. -/
theorem Heaped.swap_root {m : Nat} (h : s.Heaped rank a (m + 1) 0) (hb : a + m < s.items.size) :
    (s.swap a (a + m)).HeapedBut rank a m 0 0 ∧
      (s.swap a (a + m)).key rank (a + m) = s.key rank a ∧
      ∀ k, k < m → (s.swap a (a + m)).key rank (a + k) ≤ s.key rank a := by
  have hkey := fun k => key_swap rank (s := s) (i := a) (j := a + m) (by omega) hb k
  refine ⟨⟨fun k c hk hk0 hc hlt => ?_, fun p c hp h0 => ?_⟩, ?_, fun k hk => ?_⟩
  · have hkc : k < c := by unfold Child at hc; omega
    rw [hkey, hkey, if_neg (by omega), if_neg (by omega), if_neg (by omega), if_neg (by omega)]
    exact h k c hk hc (by omega)
  · unfold Child at h0
    omega
  · rw [hkey]
    split
    next h0 => rw [h0]
    next => rw [if_pos rfl]
  · rw [hkey]
    split
    · exact h.le_root (by omega)
    · rw [if_neg (by omega)]
      exact h.le_root (by omega)

/-- The greatest element of the heap goes to its end, and the rest is made a heap again. -/
theorem Drained.pop {n m : Nat} (h : s.Drained rank a n (m + 1)) (hm : m < n)
    (hs : s.Ranked rank) (hb : a + n ≤ s.items.size) :
    Within a (a + n) s ((s.swap a (a + m)).siftDown m a n 0) ∧
      ((s.swap a (a + m)).siftDown m a n 0).Drained rank a n m := by
  have hswap : Within a (a + n) s (s.swap a (a + m)) := .swap (by omega) (by omega) hb
  obtain ⟨hbut, hlast, hlow⟩ := h.heap.swap_root (by omega)
  have hhigh : ∀ q, a + m < q → (s.swap a (a + m)).key rank q = s.key rank q := by
    intro q hq
    rw [key_swap rank (by omega) (by omega), if_neg (by omega), if_neg (by omega)]
  generalize s.swap a (a + m) = t at hswap hbut hlast hlow hhigh ⊢
  obtain ⟨hwithin, hheap⟩ := siftDown_spec n 0 (hswap.ranked hs)
    (by rw [hswap.size]; omega) (by omega) (Nat.le_refl 0) hbut
  generalize t.siftDown m a n 0 = u at hwithin hheap ⊢
  refine ⟨hswap.trans (hwithin.mono (Nat.le_refl a) (by omega)), hheap, ?_, ?_⟩
  -- Behind the heap stands its old root, and then what stood there before.
  · intro p q hp hpq hq
    rw [hwithin.key_outside (by omega), hwithin.key_outside (by omega), hhigh q (by omega)]
    by_cases hpm : p = a + m
    · rw [hpm, hlast]
      exact h.rest 0 q (by omega) (by omega) hq
    · rw [hhigh p (by omega)]
      exact h.sorted p q (by omega) hpq hq
  · intro k q hk hq hq'
    have hbelow : u.key rank (a + k) ≤ s.key rank a := by
      refine hwithin.forall_key (P := (· ≤ s.key rank a)) (fun j hj hj' => ?_) _ (by omega)
        (by omega)
      obtain ⟨i, rfl⟩ : ∃ i, j = a + i := ⟨j - a, by omega⟩
      exact hlow i (by omega)
    refine Int.le_trans hbelow ?_
    rw [hwithin.key_outside (by omega)]
    by_cases hqm : q = a + m
    · exact Int.le_of_eq (by rw [hqm, hlast])
    · rw [hhigh q (by omega)]
      exact h.rest 0 q (by omega) (by omega) hq'

/-- Taken out from the greatest to the least, the elements of a heap come to stand in order. -/
theorem sorted_foldl {n : Nat} (m : Nat) (hm : m ≤ n) (hs : s.Ranked rank)
    (hb : a + n ≤ s.items.size) (h : s.Drained rank a n m) :
    let s' := (List.range m).reverse.foldl (fun s i => (s.swap a (a + i)).siftDown i a n 0) s
    Within a (a + n) s s' ∧ s'.Sorted rank a (a + n) := by
  induction m generalizing s with
  | zero => exact ⟨.refl _ _ s, h.sorted⟩
  | succ m ih =>
      rw [List.range_succ, List.reverse_append, List.reverse_singleton, List.singleton_append,
        List.foldl_cons]
      obtain ⟨hw, hpop⟩ := h.pop (by omega) hs hb
      have hnext := ih (by omega) (hw.ranked hs) (hw.size ▸ hb) hpop
      exact ⟨hw.trans hnext.1, hnext.2⟩

/-- A heap puts a range in order. -/
theorem heapRange_spec (hs : s.Ranked rank) (hab : a ≤ b) (hb : b ≤ s.items.size) :
    Within a b s (s.heapRange a b) ∧ (s.heapRange a b).Sorted rank a b := by
  obtain ⟨n, rfl⟩ : ∃ n, b = a + n := ⟨b - a, by omega⟩
  rw [heapRange]
  simp only [Nat.add_sub_cancel_left]
  -- The second half of the elements has no children.
  have hleaves : s.Heaped rank a n ((n - 1) / 2 + 1) := by
    intro k c hk hc hlt
    unfold Child at hc
    omega
  obtain ⟨hw, hheap⟩ := heaped_foldl _ hs hb hleaves
  obtain ⟨hw', hsorted⟩ := sorted_foldl n (Nat.le_refl n) (hw.ranked hs) (hw.size ▸ hb)
    ⟨hheap, fun p q hp hpq hq => by omega, fun k q hk hq hq' => by omega⟩
  exact ⟨hw.trans hw', hsorted⟩

end Heaps

end TapeForge.Sorting.Bench
