/-!
# Insertion sort

Each element moves left past the neighbours that it comes before. For a comparison that is no
linear order the outcome depends on the method, so each method of sorting is a definition of its
own.
-/

namespace TapeForge.Sorting

variable {α : Type}

/-- Puts `x` into a list held in descending order, behind every element it comes before. -/
def insertDescending (before : α → α → Bool) (x : α) : List α → List α
  | [] => [x]
  | y :: ys => if before x y then y :: insertDescending before x ys else x :: y :: ys

/-- Insertion sort: each element moves left past its larger left neighbours. -/
def insertion (before : α → α → Bool) (xs : List α) : List α :=
  (xs.foldl (fun acc x => insertDescending before x acc) []).reverse

theorem insertDescending_perm (before : α → α → Bool) (x : α) (ys : List α) :
    (insertDescending before x ys).Perm (x :: ys) := by
  induction ys with
  | nil => rfl
  | cons y ys ih =>
    unfold insertDescending
    split
    · exact (ih.cons y).trans (List.Perm.swap x y ys)
    · rfl

theorem foldl_insertDescending_perm (before : α → α → Bool) (xs acc : List α) :
    (xs.foldl (fun acc x => insertDescending before x acc) acc).Perm (xs ++ acc) := by
  induction xs generalizing acc with
  | nil => rfl
  | cons x xs ih =>
    simp only [List.foldl_cons, List.cons_append]
    refine (ih _).trans ?_
    exact ((insertDescending_perm before x acc).append_left xs).trans List.perm_middle

theorem insertion_perm (before : α → α → Bool) (xs : List α) :
    (insertion before xs).Perm xs := by
  unfold insertion
  refine (List.reverse_perm _).trans ?_
  simpa using foldl_insertDescending_perm before xs []

section Sorted

variable {before : α → α → Bool} {rank : α → Int}

theorem insertDescending_pairwise {x : α} {ys : List α}
    (hx : ∀ y ∈ ys, before x y = decide (rank x < rank y))
    (h : ys.Pairwise fun a b => rank b ≤ rank a) :
    (insertDescending before x ys).Pairwise fun a b => rank b ≤ rank a := by
  induction ys with
  | nil => exact List.pairwise_singleton _ _
  | cons y ys ih =>
    have hy := hx y List.mem_cons_self
    obtain ⟨hhead, htail⟩ := List.pairwise_cons.1 h
    unfold insertDescending
    by_cases hlt : rank x < rank y
    · rw [hy, decide_eq_true hlt, if_pos rfl]
      refine List.pairwise_cons.2
        ⟨fun z hz => ?_, ih (fun z hz => hx z (List.mem_cons_of_mem y hz)) htail⟩
      rcases List.mem_cons.1 ((insertDescending_perm before x ys).mem_iff.1 hz) with rfl | hz
      · omega
      · exact hhead z hz
    · rw [hy, decide_eq_false hlt, if_neg Bool.false_ne_true]
      refine List.pairwise_cons.2 ⟨fun z hz => ?_, h⟩
      rcases List.mem_cons.1 hz with rfl | hz
      · omega
      · have := hhead z hz
        omega

/-- Where the comparison is that of a rank, insertion sorts by it. -/
theorem insertion_pairwise {xs : List α}
    (h : ∀ x ∈ xs, ∀ y ∈ xs, before x y = decide (rank x < rank y)) :
    (insertion before xs).Pairwise fun a b => rank a ≤ rank b := by
  have hfold : ∀ (zs acc : List α), (∀ z ∈ zs, z ∈ xs) → (∀ z ∈ acc, z ∈ xs) →
      acc.Pairwise (fun a b => rank b ≤ rank a) →
      (zs.foldl (fun acc x => insertDescending before x acc) acc).Pairwise
        fun a b => rank b ≤ rank a := by
    intro zs
    induction zs with
    | nil => exact fun acc _ _ hacc => hacc
    | cons z zs ih =>
      intro acc hzs hmem hacc
      have hz := hzs z List.mem_cons_self
      refine ih _ (fun y hy => hzs y (List.mem_cons_of_mem z hy)) (fun y hy => ?_)
        (insertDescending_pairwise (fun y hy => h z hz y (hmem y hy)) hacc)
      rcases List.mem_cons.1 ((insertDescending_perm before z acc).mem_iff.1 hy) with rfl | hy
      · exact hz
      · exact hmem y hy
  exact List.pairwise_reverse.2 (hfold xs [] (fun _ hz => hz) nofun List.Pairwise.nil)

end Sorted

end TapeForge.Sorting
