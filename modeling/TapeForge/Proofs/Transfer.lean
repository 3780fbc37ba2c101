import TapeForge.Proofs.QuietText

/-!
# Transfer loops

The texts that carry one cell into others, unit by unit. Each loop takes one off the current cell
in every turn and adds one to each cell it visits on its round, so at its end the current cell is
zero and the visited ones have grown by what it held.
-/

namespace TapeForge

open Machine Machine.Action Effect

namespace Block

variable {m : Machine} {i j l : Nat}

theorem quiet_loop_zero (hi : m.index? m.dp = some i) (hm : m.Masked) :
    Loop isOpen (plain .dec nil).quiet m (.ok () (m.set i 0)) := by
  refine loop_of_sub_one (fun m => m.index? m.dp = some i ∧ m.Masked) (fun m => m.set i 0)
    (fun _ h => h.1) ?_ ?_ ⟨hi, hm⟩
  · intro m _ h0
    rw [← h0, set_get]
  · rintro m ⟨hi, hm⟩ h0
    have hlt := (index?_eq_some_iff.1 hi).2
    refine ⟨m.set i (m.get i - 1), ?_, ⟨by simpa using hi, hm.set i (hm.fits_sub_one h0)⟩,
      get_set_self m _ hlt, set_set ..⟩
    exact quiet_plain_ok (p := .dec) (doSymbol_dec_of_ne hi hm h0) (quiet_nil _)

/-- Counting a cell up ends at zero as well, for its values wrap around. -/
theorem quiet_loop_wrap (hi : m.index? m.dp = some i) (hm : m.Masked) :
    Loop isOpen (plain .inc nil).quiet m (.ok () (m.set i 0)) := by
  refine loop_of_turn (fun m : Machine => m.index? m.dp = some i ∧ m.Masked)
    (fun m => if m.get i = 0 then 0 else m.width.size - (m.get i).toNat) (fun m => m.set i 0) ?_
    ⟨hi, hm⟩
  rintro m ⟨hi, hm⟩
  have hlt := (index?_eq_some_iff.1 hi).2
  have hopen := isOpen_eq_ok hi
  by_cases h0 : m.get i = 0
  · refine .last ?_
    rw [hopen, h0]
    conv => rhs; rw [← h0, set_get]
    rfl
  · rw [bne_iff_ne.2 h0] at hopen
    refine .more hopen (quiet_plain_ok (p := .inc) (doSymbol_inc hi) (quiet_nil _))
      ⟨by simpa using hi, hm.set i (Width.fits_cut _ _)⟩ ?_ (set_set ..)
    -- One more is zero, or it is nearer to the size of a cell.
    have hfit := (Width.fits_iff _ _).1 (hm.fits i)
    rw [get_set_self m _ hlt, width_set, if_neg h0]
    split
    · omega
    · rename_i h1
      have hcut : (m.width.cut (m.get i + 1)).toNat = ((m.get i).toNat + 1) % m.width.size := by
        rw [Width.toNat_cut, UInt64.toNat_add, UInt64.toNat_one]
        cases m.width <;> simp only [Width.size] <;> omega
      have hne : (m.width.cut (m.get i + 1)).toNat ≠ 0 := fun h => h1 (UInt64.toNat_inj.1 h)
      rw [hcut] at hne ⊢
      by_cases hlast : (m.get i).toNat + 1 = m.width.size
      · rw [hlast, Nat.mod_self] at hne
        exact absurd rfl hne
      · rw [Nat.mod_eq_of_lt (by omega)]
        omega

/-- A step of a round: on to another cell, and one more in it. -/
theorem quiet_hop {a : Int64} {rest : Block} {r : EStateM.Result Fault Machine Unit}
    (ha : Int64.minValue < a) (hj : m.index? (m.dp + a) = some j)
    (h : rest.quiet ((m.set j (m.width.cut (m.get j + 1))).moved a) r) :
    (shift a ++ plain .inc rest).quiet m r :=
  quiet_append_ok (quiet_shift ha m) (quiet_plain_ok (p := .inc) (doSymbol_inc hj) h)

theorem quiet_hop_error {a : Int64} (rest : Block) (ha : Int64.minValue < a)
    (hj : m.index? (m.dp + a) = none) :
    (shift a ++ plain .inc rest).quiet m
      (.error (.outOfBounds (m.dp + a) m.tape.size) (m.moved a)) :=
  quiet_append_ok (quiet_shift ha m)
    (quiet_plain_error (doSymbol_error (by decide) (by decide) hj))

/-- A round that meets the edge of the tape at its first hop. -/
theorem quiet_dec_hop_error {a : Int64} (rest : Block) (ha : Int64.minValue < a)
    (hi : m.index? m.dp = some i) (hm : m.Masked) (h0 : m.get i ≠ 0)
    (hj : m.index? (m.dp + a) = none) :
    ∃ n, (plain .dec (shift a ++ plain .inc rest)).quiet m
      (.error (.outOfBounds (m.dp + a) m.tape.size) n) ∧ m.output = n.output := by
  have h := quiet_hop_error (m := m.set i (m.get i - 1)) rest ha (by simpa using hj)
  rw [dp_set, size_set] at h
  exact ⟨_, quiet_plain_ok (p := .dec) (doSymbol_dec_of_ne hi hm h0) h, rfl⟩

/-- A round that meets the edge of the tape at its second hop. -/
theorem quiet_dec_hop_hop_error {a b : Int64} (rest : Block) (ha : Int64.minValue < a)
    (hb : Int64.minValue < b) (hi : m.index? m.dp = some i) (hm : m.Masked) (h0 : m.get i ≠ 0)
    (hj : m.index? (m.dp + a) = some j) (hl : m.index? (m.dp + (a + b)) = none) :
    ∃ n, (plain .dec (shift a ++ plain .inc (shift b ++ plain .inc rest))).quiet m
      (.error (.outOfBounds (m.dp + (a + b)) m.tape.size) n) ∧ m.output = n.output := by
  have h := quiet_hop_error (m := (((m.set i (m.get i - 1)).set j
    (m.width.cut ((m.set i (m.get i - 1)).get j + 1))).moved a)) rest hb
    (by simpa [Int64.add_assoc] using hl)
  simp only [dp_moved, dp_set, tape_moved, size_set, Int64.add_assoc] at h
  exact ⟨_, quiet_plain_ok (p := .dec) (doSymbol_dec_of_ne hi hm h0)
    (quiet_hop ha (by simpa using hj) h), rfl⟩

/-! ## One cell into another -/

section One

variable {a b : Int64} (ha : Int64.minValue < a) (hb : Int64.minValue < b) (hab : a + b = 0)

def roundOne (a b : Int64) : Block := plain .dec (shift a ++ plain .inc (shift b))

include ha hb hab

theorem quiet_roundOne (hi : m.index? m.dp = some i) (hj : m.index? (m.dp + a) = some j)
    (hij : i ≠ j) (hm : m.Masked) (h0 : m.get i ≠ 0) :
    (roundOne a b).quiet m
      (.ok () ((m.set i (m.get i - 1)).set j (m.width.cut (m.get j + 1)))) := by
  refine quiet_plain_ok (p := .dec) (doSymbol_dec_of_ne hi hm h0) ?_
  refine quiet_hop (j := j) ha (by simpa using hj) ?_
  have h := quiet_shift hb
    (((m.set i (m.get i - 1)).set j (m.width.cut (m.get j + 1))).moved a)
  rw [moved_moved, hab, moved_zero] at h
  rw [width_set, get_set_ne m _ hij]
  exact h

theorem quiet_loop_roundOne (hi : m.index? m.dp = some i) (hj : m.index? (m.dp + a) = some j)
    (hij : i ≠ j) (hm : m.Masked) :
    Loop isOpen (roundOne a b).quiet m
      (.ok () ((m.set j (m.width.cut (m.get j + m.get i))).set i 0)) := by
  refine loop_of_sub_one
    (fun m => m.index? m.dp = some i ∧ m.index? (m.dp + a) = some j ∧ m.Masked)
    (fun m => (m.set j (m.width.cut (m.get j + m.get i))).set i 0)
    (fun _ h => h.1) ?_ ?_ ⟨hi, hj, hm⟩
  · rintro m ⟨_, _, hm⟩ h0
    rw [h0, UInt64.add_zero, Width.cut_eq_self (hm.fits j), set_get, ← h0, set_get]
  · rintro m ⟨hi, hj, hm⟩ h0
    have hilt := (index?_eq_some_iff.1 hi).2
    have hjlt := (index?_eq_some_iff.1 hj).2
    refine ⟨_, quiet_roundOne ha hb hab hi hj hij hm h0,
      ⟨by simpa using hi, by simpa using hj, ?_⟩, ?_, ?_⟩
    · exact (hm.set i (hm.fits_sub_one h0)).set j (Width.fits_cut _ _)
    · rw [get_set_ne _ _ hij.symm, get_set_self m _ hilt]
    · have hcut : m.width.cut (m.width.cut (m.get j + 1) + (m.get i - 1)) =
          m.width.cut (m.get j + m.get i) := by
        rw [Width.cut_cut_add]
        congr 1
        grind
      rw [get_set_self _ _ (by simpa using hjlt), get_set_ne _ _ hij.symm,
        get_set_self m _ hilt, set_set, width_set, width_set, hcut, set_comm _ _ _ hij, set_set]

end One

/-! ## One cell into two -/

section Two

variable {a b c : Int64} (ha : Int64.minValue < a) (hb : Int64.minValue < b)
  (hc : Int64.minValue < c) (habc : a + b + c = 0)

def roundTwo (a b c : Int64) : Block :=
  plain .dec (shift a ++ plain .inc (shift b ++ plain .inc (shift c)))

include ha hb hc habc

theorem quiet_roundTwo (hi : m.index? m.dp = some i) (hj : m.index? (m.dp + a) = some j)
    (hl : m.index? (m.dp + (a + b)) = some l) (hij : i ≠ j) (hil : i ≠ l) (hjl : j ≠ l)
    (hm : m.Masked) (h0 : m.get i ≠ 0) :
    (roundTwo a b c).quiet m
      (.ok () (((m.set i (m.get i - 1)).set j (m.width.cut (m.get j + 1))).set l
        (m.width.cut (m.get l + 1)))) := by
  refine quiet_plain_ok (p := .dec) (doSymbol_dec_of_ne hi hm h0) ?_
  refine quiet_hop (j := j) ha (by simpa using hj) ?_
  refine quiet_hop (j := l) hb (by simpa [Int64.add_assoc] using hl) ?_
  have h := quiet_shift hc
    ((((m.set i (m.get i - 1)).set j (m.width.cut (m.get j + 1))).set l
        (m.width.cut (m.get l + 1))).moved (a + b))
  rw [moved_moved, habc, moved_zero] at h
  simp only [width_set, width_moved, get_moved, get_set_ne _ _ hij, get_set_ne _ _ hil,
    get_set_ne _ _ hjl, set_moved, moved_moved]
  exact h

theorem quiet_loop_roundTwo (hi : m.index? m.dp = some i) (hj : m.index? (m.dp + a) = some j)
    (hl : m.index? (m.dp + (a + b)) = some l) (hij : i ≠ j) (hil : i ≠ l) (hjl : j ≠ l)
    (hm : m.Masked) :
    Loop isOpen (roundTwo a b c).quiet m
      (.ok () (((m.set j (m.width.cut (m.get j + m.get i))).set l
        (m.width.cut (m.get l + m.get i))).set i 0)) := by
  refine loop_of_sub_one
    (fun m => m.index? m.dp = some i ∧ m.index? (m.dp + a) = some j ∧
      m.index? (m.dp + (a + b)) = some l ∧ m.Masked)
    (fun m => ((m.set j (m.width.cut (m.get j + m.get i))).set l
        (m.width.cut (m.get l + m.get i))).set i 0)
    (fun _ h => h.1) ?_ ?_ ⟨hi, hj, hl, hm⟩
  · rintro m ⟨_, _, _, hm⟩ h0
    rw [h0, UInt64.add_zero, UInt64.add_zero, Width.cut_eq_self (hm.fits j), set_get,
      Width.cut_eq_self (hm.fits l), set_get, ← h0, set_get]
  · rintro m ⟨hi, hj, hl, hm⟩ h0
    have hilt := (index?_eq_some_iff.1 hi).2
    have hjlt := (index?_eq_some_iff.1 hj).2
    have hllt := (index?_eq_some_iff.1 hl).2
    refine ⟨_, quiet_roundTwo ha hb hc habc hi hj hl hij hil hjl hm h0,
      ⟨by simpa using hi, by simpa using hj, by simpa using hl, ?_⟩, ?_, ?_⟩
    · exact ((hm.set i (hm.fits_sub_one h0)).set j (Width.fits_cut _ _)).set l
        (Width.fits_cut _ _)
    · rw [get_set_ne _ _ hil.symm, get_set_ne _ _ hij.symm, get_set_self m _ hilt]
    -- What a round adds to the targets, it takes from what is still to be added.
    · have hcut : ∀ v : UInt64, m.width.cut (m.width.cut (v + 1) + (m.get i - 1)) =
          m.width.cut (v + m.get i) := by
        intro v
        rw [Width.cut_cut_add]
        congr 1
        grind
      have hgi : (((m.set i (m.get i - 1)).set j (m.width.cut (m.get j + 1))).set l
          (m.width.cut (m.get l + 1))).get i = m.get i - 1 := by
        rw [get_set_ne _ _ hil.symm, get_set_ne _ _ hij.symm, get_set_self m _ hilt]
      rw [hgi, get_set_ne _ _ hjl.symm, get_set_self _ _ (by simpa using hjlt),
        get_set_self _ _ (by simpa using hllt)]
      simp only [width_set, hcut]
      rw [set_comm _ _ _ hjl.symm, set_set, set_set, set_comm _ _ _ hij,
        set_comm _ _ _ hil, set_set]

end Two

/-! ## One cell that counts how often another is emitted -/

section Emit

variable {a b : Int64} (ha : Int64.minValue < a) (hb : Int64.minValue < b) (hab : a + b = 0)

def roundEmit (a b : Int64) : Block := plain .dec (shift a ++ plain .out (shift b))

include ha hb hab

theorem quiet_roundEmit (hi : m.index? m.dp = some i) (hj : m.index? (m.dp + a) = some j)
    (hij : i ≠ j) (hm : m.Masked) (hroom : m.output.room = none) (h0 : m.get i ≠ 0) :
    (roundEmit a b).quiet m (.ok () ((m.put [(m.get j).toUInt8]).set i (m.get i - 1))) := by
  refine quiet_plain_ok (p := .dec) (doSymbol_dec_of_ne hi hm h0) ?_
  refine quiet_append_ok (quiet_shift ha _) ?_
  refine quiet_plain_ok (p := .out) (doSymbol_out (i := j) (by simpa using hj) hroom) ?_
  have h := quiet_shift hb (((m.put [(m.get j).toUInt8]).set i (m.get i - 1)).moved a)
  rw [moved_moved, hab, moved_zero] at h
  rw [get_moved, get_set_ne m _ hij]
  exact h

theorem quiet_loop_roundEmit (hi : m.index? m.dp = some i) (hj : m.index? (m.dp + a) = some j)
    (hij : i ≠ j) (hm : m.Masked) (hroom : m.output.room = none) :
    Loop isOpen (roundEmit a b).quiet m
      (.ok () ((m.put (List.replicate (m.get i).toNat (m.get j).toUInt8)).set i 0)) := by
  refine loop_of_sub_one
    (fun m => m.index? m.dp = some i ∧ m.index? (m.dp + a) = some j ∧ m.Masked ∧
      m.output.room = none)
    (fun m => (m.put (List.replicate (m.get i).toNat (m.get j).toUInt8)).set i 0)
    (fun _ h => h.1) ?_ ?_ ⟨hi, hj, hm, hroom⟩
  · rintro m - h0
    rw [h0, UInt64.toNat_zero, List.replicate_zero, put_nil, ← h0, set_get]
  · rintro m ⟨hi, hj, hm, hroom⟩ h0
    have hilt := (index?_eq_some_iff.1 hi).2
    have hget : ((m.put [(m.get j).toUInt8]).set i (m.get i - 1)).get i = m.get i - 1 :=
      get_set_self (m.put _) _ hilt
    refine ⟨_, quiet_roundEmit ha hb hab hi hj hij hm hroom h0,
      ⟨by simpa using hi, by simpa using hj, ?_, hroom⟩, hget, ?_⟩
    · exact Masked.set (m := m.put _) hm i (hm.fits_sub_one h0)
    · rw [hget, get_set_ne _ _ hij, get_put, put_set, put_put, set_set,
        ← UInt64.toNat_sub_one h0, List.replicate_succ]
      rfl

end Emit

end Block

end TapeForge
