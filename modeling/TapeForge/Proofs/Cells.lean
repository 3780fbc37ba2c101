import TapeForge.Machine.Direct
import TapeForge.Machine.Text

/-!
# Cells

The arithmetic of cells of one width, and the cells of a machine as values that are looked up and
replaced. Elementary actions are said in these words once, so that no proof about a program needs
to open them.
-/

namespace TapeForge

/-! ## Values of one width -/

theorem UInt64.toNat_sub_one {v : UInt64} (h : v ≠ 0) : (v - 1).toNat + 1 = v.toNat := by
  have hpos : v.toNat ≠ 0 := fun h0 => h (UInt64.toNat_inj.1 h0)
  rw [UInt64.toNat_sub_of_le v 1 (UInt64.le_iff_toNat_le.2 (by
    rw [UInt64.toNat_one]
    omega)), UInt64.toNat_one]
  omega

namespace Width

def size : Width → Nat
  | one => 0x100
  | two => 0x10000
  | four => 0x100000000
  | eight => 0x10000000000000000

/-- A number modulo the size of a cell. -/
def cut (w : Width) (v : UInt64) : UInt64 := v &&& w.mask

def Fits (w : Width) (v : UInt64) : Prop := v ≤ w.mask

instance (w : Width) (v : UInt64) : Decidable (w.Fits v) :=
  inferInstanceAs (Decidable (v ≤ w.mask))

theorem toNat_cut (w : Width) (v : UInt64) : (w.cut v).toNat = v.toNat % w.size := by
  rw [cut, UInt64.toNat_and]
  cases w with
  | one => exact Nat.and_two_pow_sub_one_eq_mod v.toNat 8
  | two => exact Nat.and_two_pow_sub_one_eq_mod v.toNat 16
  | four => exact Nat.and_two_pow_sub_one_eq_mod v.toNat 32
  | eight => exact Nat.and_two_pow_sub_one_eq_mod v.toNat 64

theorem toNat_mask (w : Width) : w.mask.toNat = w.size - 1 := by
  cases w <;> rfl

theorem fits_iff (w : Width) (v : UInt64) : w.Fits v ↔ v.toNat < w.size := by
  rw [Fits, UInt64.le_iff_toNat_le, toNat_mask]
  cases w <;> simp only [size] <;> omega

theorem cut_eq_self {w : Width} {v : UInt64} (h : w.Fits v) : w.cut v = v := by
  rw [fits_iff] at h
  apply UInt64.toNat_inj.1
  rw [toNat_cut, Nat.mod_eq_of_lt h]

theorem fits_cut (w : Width) (v : UInt64) : w.Fits (w.cut v) := by
  rw [fits_iff, toNat_cut]
  exact Nat.mod_lt _ (by cases w <;> decide)

theorem fits_zero (w : Width) : w.Fits 0 := by
  cases w <;> decide

theorem fits_one (w : Width) : w.Fits 1 := by
  cases w <;> decide

theorem fits_byte (w : Width) (b : UInt8) : w.Fits b.toUInt64 := by
  rw [fits_iff, UInt8.toNat_toUInt64]
  have := b.toNat_lt
  cases w <;> simp only [size] <;> omega

theorem Fits.of_le {w : Width} {u v : UInt64} (h : w.Fits v) (hle : u ≤ v) : w.Fits u :=
  UInt64.le_trans hle h

theorem cut_cut_add (w : Width) (a b : UInt64) : w.cut (w.cut a + b) = w.cut (a + b) := by
  apply UInt64.toNat_inj.1
  rw [toNat_cut, toNat_cut, UInt64.toNat_add, UInt64.toNat_add, toNat_cut]
  cases w <;> simp only [size] <;> omega

theorem cut_add_mask (w : Width) (a : UInt64) : w.cut (a + w.mask) = w.cut (a - 1) := by
  apply UInt64.toNat_inj.1
  have ha := a.toNat_lt
  rw [toNat_cut, toNat_cut, UInt64.toNat_add, UInt64.toNat_sub, toNat_mask]
  cases w <;> simp only [size, UInt64.toNat_one] <;> omega

theorem cut_sub_eq_zero_iff {w : Width} {u v : UInt64} (hu : w.Fits u) (hv : w.Fits v) :
    w.cut (u - v) = 0 ↔ u = v := by
  rw [fits_iff] at hu hv
  rw [← UInt64.toNat_inj, ← UInt64.toNat_inj, toNat_cut, UInt64.toNat_sub, UInt64.toNat_zero]
  cases w <;> simp only [size] at * <;> omega

/-- Cutting keeps the lowest byte. -/
theorem toUInt8_cut (w : Width) (v : UInt64) : (w.cut v).toUInt8 = v.toUInt8 := by
  apply UInt8.toNat_inj.1
  rw [UInt64.toNat_toUInt8, UInt64.toNat_toUInt8, toNat_cut]
  cases w <;> simp only [size] <;> omega

end Width

/-! ## Cells of a machine -/

namespace Machine

def get (m : Machine) (i : Nat) : UInt64 := m.tape.getD i 0

def set (m : Machine) (i : Nat) (v : UInt64) : Machine :=
  { m with tape := m.tape.setIfInBounds i v }

def moved (m : Machine) (n : Int64) : Machine := { m with dp := m.dp + n }

/-- The machine after bytes it has emitted. -/
def put (m : Machine) (bs : Bytes) : Machine :=
  { m with output := { m.output with bytes := m.output.bytes ++ bs } }

/-- Every cell holds a value of the width. -/
def Masked (m : Machine) : Prop := ∀ v ∈ m.tape, m.width.Fits v

theorem masked_iff (m : Machine) : m.Masked ↔ ∀ v ∈ m.tape.toList, m.width.Fits v := by
  simp only [Masked, Array.mem_toList_iff]

instance (m : Machine) : Decidable m.Masked :=
  @decidable_of_iff' _ _ (masked_iff m) (List.decidableBAll _ _)

section Lookup

variable (m : Machine) (i j : Nat) (u v : UInt64) (n k : Int64) (bs : Bytes) (p : Int64)

@[simp] theorem dp_set : (m.set i v).dp = m.dp := rfl
@[simp] theorem width_set : (m.set i v).width = m.width := rfl
@[simp] theorem tape_moved : (m.moved n).tape = m.tape := rfl
@[simp] theorem dp_moved : (m.moved n).dp = m.dp + n := rfl
@[simp] theorem width_moved : (m.moved n).width = m.width := rfl
@[simp] theorem get_moved : (m.moved n).get i = m.get i := rfl
@[simp] theorem tape_put : (m.put bs).tape = m.tape := rfl
@[simp] theorem dp_put : (m.put bs).dp = m.dp := rfl
@[simp] theorem get_put : (m.put bs).get i = m.get i := rfl
@[simp] theorem index?_moved : (m.moved n).index? p = m.index? p := rfl
@[simp] theorem index?_put : (m.put bs).index? p = m.index? p := rfl

@[simp] theorem size_set : (m.set i v).tape.size = m.tape.size := by
  simp [set]

@[simp] theorem index?_set : (m.set i v).index? p = m.index? p := by
  simp only [index?, size_set]

theorem set_moved : (m.moved n).set i v = (m.set i v).moved n := rfl

theorem put_set : (m.set i v).put bs = (m.put bs).set i v := rfl

@[simp] theorem moved_zero : m.moved 0 = m := by
  rw [moved, Int64.add_zero]

@[simp] theorem moved_moved : (m.moved n).moved k = m.moved (n + k) := by
  simp only [moved, Int64.add_assoc]

theorem moved_eq {p : Int64} (h : m.dp + n = p) : m.moved n = { m with dp := p } := by
  rw [moved, h]

theorem put_put (cs : Bytes) : (m.put bs).put cs = m.put (bs ++ cs) := by
  have h : m.output.bytes ++ bs ++ cs = m.output.bytes ++ (bs ++ cs) :=
    Array.ext' (by simp)
  simp only [put, h]

@[simp] theorem put_nil : m.put [] = m := by
  simp [put]

@[simp] theorem set_set : (m.set i u).set i v = m.set i v := by
  simp [set]

@[simp] theorem set_get : m.set i (m.get i) = m := by
  have h : m.tape.setIfInBounds i (m.tape.getD i 0) = m.tape := by
    by_cases hi : i < m.tape.size
    · rw [Array.setIfInBounds_def, dif_pos hi, Array.getD_eq_getD_getElem?,
        Array.getElem?_eq_getElem hi]
      exact Array.set_getElem_self hi
    · rw [Array.setIfInBounds_def, dif_neg hi]
  simp only [set, get, h]

variable {i j}

theorem get_set_self (hi : i < m.tape.size) : (m.set i v).get i = v := by
  simp [get, set, Array.getD_eq_getD_getElem?, hi]

theorem get_set_ne (h : i ≠ j) : (m.set i v).get j = m.get j := by
  simp [get, set, Array.getD_eq_getD_getElem?, h]

theorem set_comm (h : i ≠ j) : (m.set i u).set j v = (m.set j v).set i u := by
  simp only [set, Array.setIfInBounds_comm u v h]

end Lookup

theorem index?_eq_some_iff {m : Machine} {p : Int64} {i : Nat} :
    m.index? p = some i ↔ p.toInt = i ∧ i < m.tape.size := by
  rw [index?, Option.ite_none_right_eq_some, Option.some.injEq, Int64.le_iff_toInt_le,
    Int64.toInt_zero]
  omega

theorem index?_inj {m : Machine} {p q : Int64} {i : Nat} (hp : m.index? p = some i)
    (hq : m.index? q = some i) : p = q := by
  rw [index?_eq_some_iff] at hp hq
  exact Int64.toInt_inj.1 (hp.1.trans hq.1.symm)

namespace Masked

variable {m : Machine}

theorem fits (h : m.Masked) (i : Nat) : m.width.Fits (m.get i) := by
  rw [get, Array.getD_eq_getD_getElem?]
  cases hi : m.tape[i]? with
  | none => exact m.width.fits_zero
  | some v => exact h v (Array.mem_of_getElem? hi)

theorem fits_sub_one (h : m.Masked) {i : Nat} (hi : m.get i ≠ 0) : m.width.Fits (m.get i - 1) := by
  refine (h.fits i).of_le (UInt64.le_iff_toNat_le.2 ?_)
  have := UInt64.toNat_sub_one hi
  omega

theorem set (h : m.Masked) (i : Nat) {v : UInt64} (hv : m.width.Fits v) : (m.set i v).Masked := by
  intro u hu
  rcases Array.mem_or_eq_of_mem_setIfInBounds hu with hu | rfl
  · exact h u hu
  · exact hv

end Masked

/-! ## Elementary actions in these words -/

open TapeForge.Machine.Action

theorem locate_eq_ok {m : Machine} {o : Offset} {i : Nat} (h : m.index? (m.dp + o) = some i) :
    locate o m = .ok i m := by
  simp only [locate, h]

theorem locate_eq_error {m : Machine} {o : Offset} (h : m.index? (m.dp + o) = none) :
    locate o m = .error (.outOfBounds (m.dp + o) m.tape.size) m := by
  simp only [locate, h]

theorem locate_here {m : Machine} {i : Nat} (h : m.index? m.dp = some i) :
    locate 0 m = .ok i m :=
  locate_eq_ok (by rw [Int64.add_zero, h])

theorem locate_here_error {m : Machine} (h : m.index? m.dp = none) :
    locate 0 m = .error (.outOfBounds m.dp m.tape.size) m := by
  have h0 : m.dp + 0 = m.dp := Int64.add_zero m.dp
  rw [locate_eq_error (by rw [h0, h]), h0]

theorem emit_eq_ok {m : Machine} (h : m.output.room = none) (bs : Bytes) :
    emit bs m = .ok () (m.put bs) := by
  simp [emit, Sink.write, h, put]

/-! ## Lines and bytes of the input -/

theorem splitLine_eq (bs : Bytes) :
    bs = (Reader.splitLine bs).1 ++ (Reader.splitLine bs).2.getD [] ∧
      ((Reader.splitLine bs).2 ≠ none → (Reader.splitLine bs).1 ≠ []) := by
  induction bs with
  | nil => exact ⟨rfl, fun h => absurd rfl h⟩
  | cons b bs ih =>
      by_cases hb : b = 10
      · simp [Reader.splitLine, hb]
      · simp only [Reader.splitLine, if_neg hb]
        exact ⟨congrArg (b :: ·) ih.1, fun _ => by simp⟩

theorem size_append_bytes (xs : Array UInt8) (bs : Bytes) :
    (xs ++ bs).size = xs.size + bs.length := by
  rw [← Array.length_toList]
  simp

/-- The next byte of the input, without a look at the live reader. -/
def takeByte : Action UInt8 := fun m =>
  match m.input[m.cursor]? with
  | some b => .ok b { m with cursor := m.cursor + 1 }
  | none => .ok 0 m

theorem readByte_eq : readByte = (do refill; takeByte) := rfl

end Machine

end TapeForge
