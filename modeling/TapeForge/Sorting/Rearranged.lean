import TapeForge.Sorting.Quick

/-!
# Quicksort loses no element

All that quicksort does to its elements is to exchange two of them, so it gives a rearrangement of
what it is given. That holds for every comparison: one that is no order can only decide which
rearrangement it is.
-/

namespace TapeForge.Sorting

variable {α : Type}

namespace Bench

/-- The elements of `s'` are those of `s` in some order. -/
def Rearranges (s s' : Bench α) : Prop := s'.items.toList.Perm s.items.toList

namespace Rearranges

variable {s s' s'' : Bench α}

theorem refl (s : Bench α) : Rearranges s s := List.Perm.refl _

theorem trans (h : Rearranges s s') (h' : Rearranges s' s'') : Rearranges s s'' :=
  List.Perm.trans h' h

theorem swap (s : Bench α) (i j : Nat) : Rearranges s (s.swap i j) := by
  unfold Rearranges Bench.swap Array.swapIfInBounds
  split
  · split
    · exact (Array.swap_perm _ _).toList
    · rfl
  · rfl

theorem ite {c : Prop} [Decidable c] (h : Rearranges s s') (h' : Rearranges s s'') :
    Rearranges s (if c then s' else s'') := by
  split
  · exact h
  · exact h'

theorem foldl {β : Type} {f : Bench α → β → Bench α} (h : ∀ s b, Rearranges s (f s b))
    (bs : List β) (s : Bench α) : Rearranges s (bs.foldl f s) := by
  induction bs generalizing s with
  | nil => exact refl s
  | cons b bs ih => exact (h s b).trans (ih (f s b))

/-! ## Insertion and heaps -/

theorem sinkLeft (s : Bench α) (a j : Nat) : Rearranges s (s.sinkLeft a j) := by
  induction j generalizing s with
  | zero => exact refl s
  | succ j ih =>
      rw [Bench.sinkLeft]
      split
      · exact (swap s (j + 1) j).trans (ih _)
      · exact refl s

theorem sinkRight (s : Bench α) (n j : Nat) : Rearranges s (s.sinkRight n j) := by
  induction n generalizing s j with
  | zero => exact refl s
  | succ n ih =>
      rw [Bench.sinkRight]
      split
      · exact (swap s j (j - 1)).trans (ih _ _)
      · exact refl s

theorem insertRange (s : Bench α) (a b : Nat) : Rearranges s (s.insertRange a b) :=
  foldl (fun s i => sinkLeft s a i) _ s

theorem siftDown (s : Bench α) (hi first fuel root : Nat) :
    Rearranges s (s.siftDown hi first fuel root) := by
  induction fuel generalizing s root with
  | zero => exact refl s
  | succ fuel ih =>
      unfold Bench.siftDown
      extract_lets first' child
      split
      · exact refl s
      · split
        · exact (swap s _ _).trans (ih _ _)
        · exact refl s

theorem heapRange (s : Bench α) (a b : Nat) : Rearranges s (s.heapRange a b) := by
  unfold Bench.heapRange
  refine trans (foldl (fun s i => siftDown s _ _ _ i) _ s) (foldl (fun s i => ?_) _ _)
  exact (swap s a (a + i)).trans (siftDown _ _ _ _ _)

/-! ## Splitting a range -/

theorem splitBy (low high : Bench α → Nat → Bool) (fuel : Nat) (s : Bench α) (i j n : Nat) :
    Rearranges s (splitBy low high fuel s i j n).1 := by
  induction fuel generalizing s i j n with
  | zero => exact refl s
  | succ fuel ih =>
      unfold Bench.splitBy
      dsimp only
      split
      · exact refl s
      · exact (swap s _ _).trans (ih _ _ _ _)

theorem partition (s : Bench α) (a b pivot : Nat) : Rearranges s (s.partition a b pivot).1 :=
  ((swap s a pivot).trans (splitBy _ _ _ _ _ _ _)).trans (swap _ _ a)

theorem partitionEqual (s : Bench α) (a b pivot : Nat) :
    Rearranges s (s.partitionEqual a b pivot).1 :=
  (swap s a pivot).trans (splitBy _ _ _ _ _ _ _)

/-! ## Ranges that look sorted, or are hard to split -/

theorem mend (a b steps : Nat) (s : Bench α) (i : Nat) : Rearranges s (mend a b steps s i).1 := by
  induction steps generalizing s i with
  | zero => exact refl s
  | succ steps ih =>
      unfold Bench.mend
      extract_lets i s₁ s₂ s₃
      split
      · exact refl s
      · split
        · exact refl s
        · have h₂ : Rearranges s₁ s₂ := ite (sinkLeft _ _ _) (refl _)
          have h₃ : Rearranges s₂ s₃ := ite (sinkRight _ _ _) (refl _)
          exact (((swap s _ _).trans h₂).trans h₃).trans (ih _ _)

theorem scatter (s : Bench α) (a b : Nat) : Rearranges s (s.scatter a b) := by
  unfold Bench.scatter
  dsimp only
  generalize (b - a).toUInt64 = r
  generalize List.range 3 = places
  induction places generalizing s r with
  | nil => exact refl s
  | cons i places ih => exact (swap s _ _).trans (ih _ _)

theorem reverseRange (s : Bench α) (a b : Nat) : Rearranges s (s.reverseRange a b) :=
  foldl (fun s _ => swap s _ _) _ s

theorem sortRange (fuel : Nat) (s : Bench α) (a b bad : Nat) (balanced split : Bool) :
    Rearranges s (sortRange fuel s a b bad balanced split) := by
  induction fuel generalizing s a b bad balanced split with
  | zero => exact refl s
  | succ fuel ih =>
      unfold Bench.sortRange
      extract_lets n
      split
      · exact insertRange s a b
      · split
        · exact heapRange s a b
        · split
          rename_i s₁ bad h₁
          have h₁ : Rearranges s s₁ := by
            split at h₁ <;> cases h₁
            · exact refl s
            · exact scatter s a b
          split
          rename_i p hint _
          split
          rename_i s₂ p hint h₂
          have h₂ : Rearranges s₁ s₂ := by
            split at h₂ <;> cases h₂
            · exact reverseRange s₁ a b
            · exact refl s₁
          split
          rename_i s₃ sorted h₃
          have h₃ : Rearranges s₂ s₃ := by
            split at h₃
            · have hmend := mend a b 5 s₂ (a + 1)
              rw [h₃] at hmend
              exact hmend
            · cases h₃
              exact refl s₂
          -- What the range is split around has been chosen, and all of it is still there.
          have h : Rearranges s s₃ := (h₁.trans h₂).trans h₃
          split
          · exact h
          · split
            · exact (h.trans (partitionEqual s₃ a b p)).trans (ih _ _ _ _ _ _)
            · have hsplit := h.trans (partition s₃ a b p)
              exact hsplit.trans
                (ite ((ih _ _ _ _ _ _).trans (ih _ _ _ _ _ _))
                  ((ih _ _ _ _ _ _).trans (ih _ _ _ _ _ _)))

end Rearranges

end Bench

theorem quick_perm (before : α → α → Bool) (xs : List α) : (quick before xs).Perm xs :=
  Bench.Rearranges.sortRange _ ⟨before, xs.toArray⟩ _ _ _ _ _

end TapeForge.Sorting
