import Mathlib.Algebra.Group.Int.Defs
import TapeForge.Proofs.Registers

/-!
# Registers in order of offset

Registers are sorted by the sign of the wrapped difference of their offsets. That is the order of
the offsets exactly if no two of them are `2 ^ 63` or more apart, and then the registers of a layout
increase, whatever order they were given in and by whatever method they are sorted. Of two offsets
that lie further apart the greater comes before the lesser, and then there is an order in which the
same registers are not put right.
-/

namespace TapeForge

namespace Sorting

variable {α : Type} {before : α → α → Bool}

theorem sublist_insertDescending (x : α) (ys : List α) :
    ys.Sublist (insertDescending before x ys) := by
  induction ys with
  | nil => exact List.nil_sublist _
  | cons y ys ih =>
      rw [insertDescending]
      split
      · exact ih.cons_cons y
      · exact List.sublist_cons_self x _

/-- Insertion never exchanges elements that it has put in order. -/
theorem sublist_foldl_insertDescending (xs acc : List α) :
    acc.Sublist (xs.foldl (fun acc x => insertDescending before x acc) acc) := by
  induction xs generalizing acc with
  | nil => exact List.Sublist.refl acc
  | cons x xs ih => exact (sublist_insertDescending x acc).trans (ih _)

/-- The order of the first two elements is decided at once. -/
theorem sublist_insertion {a b : α} (h : before a b = true) (rest : List α) :
    [a, b].Sublist (insertion before (b :: a :: rest)) := by
  have hfirst : insertDescending before a (insertDescending before b []) = [b, a] := by
    simp [insertDescending, h]
  rw [insertion, List.foldl_cons, List.foldl_cons, hfirst]
  exact (sublist_foldl_insertDescending rest [b, a]).reverse

end Sorting

namespace Layout

open Sorting (wrappedBefore)

variable {rs rs' : List Register} {a b : Register}

/-- No two offsets are `2 ^ 63` or more apart. -/
abbrev Narrow (rs : List Register) : Prop := Sorting.Narrow Register.offset rs

def Increasing (rs : List Register) : Prop := rs.Pairwise fun a b => a.offset < b.offset

/-- The comparison that registers are sorted by is the order of their offsets. -/
def Faithful (rs : List Register) : Prop :=
  ∀ a ∈ rs, ∀ b ∈ rs, wrappedBefore Register.offset a b = decide (a.offset < b.offset)

theorem Narrow.perm (h : Narrow rs) (hp : rs.Perm rs') : Narrow rs' := fun a ha b hb =>
  h a (hp.mem_iff.2 ha) b (hp.mem_iff.2 hb)

/-! ## The comparison -/

theorem faithful_of_narrow (h : Narrow rs) : Faithful rs := by
  intro a ha b hb
  rw [h.wrappedBefore_eq ha hb, decide_eq_decide, Int64.lt_iff_toInt_lt]

/-- Of two offsets that far apart the greater comes before the lesser. -/
theorem before_of_wide (h : 2 ^ 63 ≤ a.offset.toInt - b.offset.toInt) :
    wrappedBefore Register.offset a b = true := by
  have hhigh := a.offset.toInt_lt
  have hlow := b.offset.le_toInt
  -- The difference is less than `2 ^ 64`, so it wraps once and is negative.
  have hsub : (a.offset - b.offset).toInt = a.offset.toInt - b.offset.toInt - 2 ^ 64 := by
    rw [Int64.toInt_sub, Int.bmod_def]
    omega
  rw [wrappedBefore, decide_eq_true_eq, Int64.lt_iff_toInt_lt, hsub, Int64.toInt_zero]
  omega

theorem faithful_iff_narrow : Faithful rs ↔ Narrow rs := by
  refine ⟨fun h a ha b hb => ?_, faithful_of_narrow⟩
  by_contra hwide
  have hbefore := before_of_wide (Int.not_lt.1 hwide)
  rw [h a ha b hb, decide_eq_true_eq, Int64.lt_iff_toInt_lt] at hbefore
  omega

/-! ## Sorted registers -/

theorem increasing_byKey (h : Distinct rs) (hn : Narrow rs) :
    Increasing (Sorting.byKey Register.offset rs) := by
  have hsorted := Sorting.byKey_pairwise hn
  have hperm := Sorting.byKey_perm Register.offset rs
  have hne := List.pairwise_map.1 ((hperm.map Register.offset).nodup_iff.2 h.offsets)
  refine (hsorted.and hne).imp fun {a b} hab => ?_
  have hneq : a.offset.toInt ≠ b.offset.toInt := fun heq => hab.2 (Int64.toInt_inj.1 heq)
  rw [Int64.lt_iff_toInt_lt]
  omega

/-- Distinct offsets that are narrow leave a method of sorting no choice. -/
theorem eq_of_sorted {sorted : List Register} (h : Distinct rs) (hn : Narrow rs)
    (hp : sorted.Perm rs)
    (hsorted : sorted.Pairwise fun a b => wrappedBefore Register.offset b a = false)
    (hp' : rs'.Perm rs) (hincreasing : Increasing rs') : sorted = rs' := by
  have hle : sorted.Pairwise fun a b => ¬ b.offset < a.offset := by
    refine hsorted.imp_of_mem fun {a b} ha hb hab => ?_
    rw [faithful_of_narrow hn b (hp.mem_iff.1 hb) a (hp.mem_iff.1 ha)] at hab
    exact of_decide_eq_false hab
  refine List.Perm.eq_of_pairwise (fun a b ha hb hab hba => ?_) hle
    (hincreasing.imp fun {a b} hlt => Int64.not_lt.2 (Int64.le_of_lt hlt)) (hp.trans hp'.symm)
  have hoffset : a.offset = b.offset :=
    Int64.le_antisymm (Int64.not_lt.1 hab) (Int64.not_lt.1 hba)
  exact List.inj_on_of_nodup_map h.offsets (hp.mem_iff.1 ha) (hp'.mem_iff.1 hb) hoffset

theorem eq_byKey {l : Layout} (h : ofRegisters rs = .ok l) :
    Distinct rs ∧ l.registers = Sorting.byKey Register.offset rs := by
  have hdistinct := (holds_of_ofRegisters h).1
  obtain ⟨l', hl', hregisters⟩ := ofRegisters_of_distinct hdistinct
  cases h.symm.trans hl'
  exact ⟨hdistinct, hregisters⟩

theorem increasing_of_ofRegisters {l : Layout} (h : ofRegisters rs = .ok l) (hn : Narrow rs) :
    Increasing l.registers := by
  obtain ⟨hdistinct, hregisters⟩ := eq_byKey h
  exact hregisters ▸ increasing_byKey hdistinct hn

/-- Registers that are narrow make one layout, in whatever order they are given. -/
theorem ofRegisters_perm {l : Layout} (h : ofRegisters rs = .ok l) (hn : Narrow rs)
    (hp : rs'.Perm rs) : ofRegisters rs' = .ok l := by
  obtain ⟨hdistinct, hregisters⟩ := eq_byKey h
  have hdistinct' := hdistinct.perm hp.symm
  have hincreasing := increasing_byKey hdistinct' (hn.perm hp.symm)
  have hperm := (Sorting.byKey_perm Register.offset rs').trans hp
  have hsorted : (Sorting.byKey Register.offset rs').Pairwise fun a b =>
      wrappedBefore Register.offset b a = false := by
    refine hincreasing.imp_of_mem fun {a b} ha hb hab => ?_
    rw [faithful_of_narrow hn b (hperm.mem_iff.1 hb) a (hperm.mem_iff.1 ha)]
    exact decide_eq_false (Int64.not_lt.2 (Int64.le_of_lt hab))
  have hsame : Sorting.byKey Register.offset rs' = Sorting.byKey Register.offset rs :=
    eq_of_sorted hdistinct hn hperm hsorted (Sorting.byKey_perm Register.offset rs)
      (increasing_byKey hdistinct hn)
  obtain ⟨l', hl', hregisters'⟩ := ofRegisters_of_distinct hdistinct'
  rw [hl', eq_of_registers (hregisters'.trans (hsame.trans hregisters.symm))]

/-- Of at most twelve registers, some two of which lie far apart, there is an order in which they
are not put right: with those two in front, the lesser one first. -/
theorem exists_not_increasing (h : Distinct rs) (hlength : rs.length ≤ 12) (hwide : ¬ Narrow rs) :
    ∃ rs' l, rs'.Perm rs ∧ ofRegisters rs' = .ok l ∧ ¬ Increasing l.registers := by
  obtain ⟨a, ha, b, hb, hab⟩ : ∃ a ∈ rs, ∃ b ∈ rs, 2 ^ 63 ≤ a.offset.toInt - b.offset.toInt := by
    simpa [Sorting.Narrow] using hwide
  have hne : a ≠ b := by
    rintro rfl
    omega
  have hperm : rs.Perm (b :: a :: (rs.erase b).erase a) :=
    (List.perm_cons_erase hb).trans
      ((List.perm_cons_erase ((List.mem_erase_of_ne hne).2 ha)).cons b)
  obtain ⟨l, hl, hregisters⟩ := ofRegisters_of_distinct (h.perm hperm)
  refine ⟨_, l, hperm.symm, hl, fun hincreasing => ?_⟩
  -- Insertion exchanges the two at once, and no later register makes it change them back.
  rw [hregisters, Sorting.byKey, Sorting.quick_of_short (hperm.length_eq ▸ hlength)] at hincreasing
  have hlt := hincreasing.sublist (Sorting.sublist_insertion (before_of_wide hab) _)
  have hlt' : a.offset < b.offset := (List.pairwise_cons.1 hlt).1 b List.mem_cons_self
  rw [Int64.lt_iff_toInt_lt] at hlt'
  omega

/-- Registers increase in offset where no two offsets are `2 ^ 63` or more apart, whether a layout
is made of them or extended by them: the layout is the same for every order in which they are given,
and for every method that sorts them by the sign of wrapped differences. Exactly then that sign is
right for all of them, and for up to twelve registers it is only then that they increase in whatever
order they are given. -/
theorem registers_increase_where_narrow (rs : List Register) :
    (∀ l, ofRegisters rs = .ok l → Narrow rs → Increasing l.registers ∧
      (∀ rs', rs'.Perm rs → ofRegisters rs' = .ok l) ∧
      ∀ sorted : List Register, sorted.Perm rs →
        sorted.Pairwise (fun a b => wrappedBefore Register.offset b a = false) →
        sorted = l.registers) ∧
    (∀ l l' : Layout, l.extend rs = .ok l' → Narrow (l.registers ++ rs) →
      Increasing l'.registers) ∧
    (Faithful rs ↔ Narrow rs) ∧
    ∀ l, ofRegisters rs = .ok l → rs.length ≤ 12 →
      ((∀ rs' l', rs'.Perm rs → ofRegisters rs' = .ok l' → Increasing l'.registers) ↔
        Narrow rs) := by
  refine ⟨fun l h hn => ⟨increasing_of_ofRegisters h hn, fun rs' => ofRegisters_perm h hn,
    fun sorted hp hsorted => ?_⟩, fun l l' h hn => increasing_of_ofRegisters h hn,
    faithful_iff_narrow,
    fun l h hlength => ⟨fun hall => ?_, fun hn rs' l' hp h' => ?_⟩⟩
  · obtain ⟨hdistinct, hholds⟩ := holds_of_ofRegisters h
    exact eq_of_sorted hdistinct hn hp hsorted hholds.perm (increasing_of_ofRegisters h hn)
  · by_contra hwide
    obtain ⟨rs', l', hp, h', hnot⟩ := exists_not_increasing (holds_of_ofRegisters h).1 hlength hwide
    exact hnot (hall rs' l' hp h')
  · exact increasing_of_ofRegisters h' (hn.perm hp.symm)

/-- Registers at the two ends and in the middle of a span of `2 ^ 63 - 1`. -/
def threeRegisters : List Register :=
  [⟨[98], 4611686018427387903⟩, ⟨[97], -4611686018427387904⟩, ⟨[99], 0⟩]

theorem registers_increase_where_narrow_of_three :
    Narrow threeRegisters ∧ ∃ l, ofRegisters threeRegisters = .ok l ∧
      l.registers.map Register.name = [[97], [99], [98]] ∧ Increasing l.registers ∧
      ofRegisters threeRegisters.reverse = .ok l ∧ Faithful threeRegisters ∧
      (∀ rs' l', rs'.Perm threeRegisters → ofRegisters rs' = .ok l' → Increasing l'.registers) ∧
      ∃ l', l.extend [⟨[100], 7⟩] = .ok l' ∧
        l'.registers.map Register.name = [[97], [99], [100], [98]] ∧ Increasing l'.registers := by
  have hn : Narrow threeRegisters := by
    simp [Sorting.Narrow, threeRegisters]
  obtain ⟨l, hl, hregisters⟩ : ∃ l, ofRegisters threeRegisters = .ok l ∧
      l.registers = [⟨[97], -4611686018427387904⟩, ⟨[99], 0⟩, ⟨[98], 4611686018427387903⟩] :=
    ⟨_, rfl, rfl⟩
  obtain ⟨l', hl', hregisters'⟩ : ∃ l', l.extend [⟨[100], 7⟩] = .ok l' ∧
      l'.registers = [⟨[97], -4611686018427387904⟩, ⟨[99], 0⟩, ⟨[100], 7⟩,
        ⟨[98], 4611686018427387903⟩] := by
    rw [extend, hregisters]
    exact ⟨_, rfl, rfl⟩
  obtain ⟨hmade, -, hfaithful, hshort⟩ := registers_increase_where_narrow threeRegisters
  obtain ⟨-, hextended, -, -⟩ := registers_increase_where_narrow [⟨[100], 7⟩]
  obtain ⟨hincreasing, hsame, -⟩ := hmade _ hl hn
  exact ⟨hn, l, hl, by rw [hregisters]; rfl, hincreasing, hsame _ (List.reverse_perm _),
    hfaithful.2 hn, (hshort _ hl (by decide)).2 hn, l', hl', by rw [hregisters']; rfl,
    hextended _ _ hl' (by simp [hregisters, Sorting.Narrow])⟩

/-- A register at the greatest offset comes before one at the least. -/
theorem greatest_before_least :
    ∃ l, ofRegisters [⟨[97], Int64.maxValue⟩, ⟨[98], Int64.minValue⟩] = .ok l ∧
      ¬ Increasing l.registers := by
  obtain ⟨l, hl, hregisters⟩ : ∃ l, ofRegisters [⟨[97], Int64.maxValue⟩, ⟨[98], Int64.minValue⟩] =
      .ok l ∧ l.registers = [⟨[97], Int64.maxValue⟩, ⟨[98], Int64.minValue⟩] := ⟨_, rfl, rfl⟩
  refine ⟨l, hl, ?_⟩
  rw [hregisters, Increasing]
  decide

end Layout

end TapeForge
