import TapeForge.Sorting.Rearranged

/-!
# Sorting by the sign of a wrapped difference

Keys are 64-bit numbers, and one comes before another when their difference, which wraps around, is
negative. Where all keys lie within a span of `2 ^ 63` that is the order of the numbers. On a wider
span it is no order at all, and the method of sorting decides.
-/

namespace TapeForge.Sorting

variable {α : Type}

/-- `a` comes before `b`: the wrapped difference of their keys is negative. -/
def wrappedBefore (key : α → Int64) (a b : α) : Bool := key a - key b < 0

/-- Elements by key, in no particular order for equal keys. -/
def byKey (key : α → Int64) (xs : List α) : List α := quick (wrappedBefore key) xs

/-- Elements by key, those of equal keys in the order given. -/
def byKeyStable (key : α → Int64) (xs : List α) : List α := merge (wrappedBefore key) xs

theorem byKey_perm (key : α → Int64) (xs : List α) : (byKey key xs).Perm xs :=
  quick_perm (wrappedBefore key) xs

/-! ## Narrow keys -/

/-- All keys lie within a span of `2 ^ 63`, so that no difference of two wraps. -/
def Narrow (key : α → Int64) (xs : List α) : Prop :=
  ∀ a ∈ xs, ∀ b ∈ xs, (key a).toInt - (key b).toInt < 0x8000000000000000

/-- The comparison is that of the numbers. -/
theorem Narrow.wrappedBefore_eq {key : α → Int64} {xs : List α} (h : Narrow key xs) {a b : α}
    (ha : a ∈ xs) (hb : b ∈ xs) :
    wrappedBefore key a b = decide ((key a).toInt < (key b).toInt) := by
  have hab := h a ha b hb
  have hba := h b hb a ha
  have hsub : (key a - key b).toInt = (key a).toInt - (key b).toInt := by
    rw [Int64.toInt_sub]
    apply Int.bmod_eq_of_le_mul_two <;> omega
  rw [wrappedBefore, decide_eq_decide, Int64.lt_iff_toInt_lt, hsub, Int64.toInt_zero]
  omega

end TapeForge.Sorting
