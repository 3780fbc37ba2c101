import TapeForge.Packed.Word

/-!
# Words hold what they are made of

The work of a word is the one it was made with, and so is its argument, if that has at most 24
bits with its sign.
-/

namespace TapeForge.Packed

theorem Verb.ofCode?_code (v : Verb) : Verb.ofCode? v.code = some v := by
  cases v <;> rfl

theorem Verb.code_lt (v : Verb) : v.code.toNat < 256 := by
  cases v <;> decide

namespace Word

def Holds (arg : Int64) : Prop := -8388608 ≤ arg.toInt ∧ arg.toInt < 8388608

instance (arg : Int64) : Decidable (Holds arg) :=
  inferInstanceAs (Decidable (_ ∧ _))

theorem toInt_eq_toNat (n : Int64) :
    n.toInt = if 2 * n.toUInt64.toNat < 0x10000000000000000 then (n.toUInt64.toNat : Int)
      else n.toUInt64.toNat - 0x10000000000000000 :=
  BitVec.toInt_eq_toNat_cond n.toBitVec

/-- The bits of a word are those of its work, and above them the low bits of its argument. -/
theorem toNat_bits_make (v : Verb) (arg : Int64) :
    (make v arg).bits.toNat = v.code.toNat + 256 * (arg.toInt % 16777216).toNat := by
  have hcode := v.code_lt
  have harg : (arg.toInt % 16777216).toNat = arg.toUInt64.toNat % 16777216 := by
    rw [toInt_eq_toNat]
    split <;> omega
  have hshift : (arg.toUInt64.toUInt32 <<< 8).toNat = (arg.toUInt64.toNat % 16777216) <<< 8 := by
    rw [UInt32.toNat_shiftLeft, UInt64.toNat_toUInt32]
    have h8 : (8 : UInt32).toNat % 32 = 8 := rfl
    rw [h8, Nat.shiftLeft_eq, Nat.shiftLeft_eq]
    omega
  show (v.code ||| (arg.toUInt64.toUInt32 <<< 8)).toNat = _
  rw [UInt32.toNat_or, hshift, Nat.or_comm,
    ← Nat.shiftLeft_add_eq_or_of_lt (i := 8) (by simpa using hcode), Nat.shiftLeft_eq, harg]
  omega

theorem verb?_make (v : Verb) (arg : Int64) : (make v arg).verb? = some v := by
  have hcode : (make v arg).bits &&& 0xff = v.code := by
    apply UInt32.toNat_inj.1
    have hmod := Nat.and_two_pow_sub_one_eq_mod (make v arg).bits.toNat 8
    rw [UInt32.toNat_and]
    refine hmod.trans ?_
    have := v.code_lt
    rw [toNat_bits_make]
    omega
  rw [verb?, hcode, Verb.ofCode?_code]

/-- Read with its sign, a word is its argument, and its work below that. -/
theorem toInt_bits_make (v : Verb) {arg : Int64} (h : Holds arg) :
    (make v arg).bits.toInt32.toInt = 256 * arg.toInt + v.code.toNat := by
  obtain ⟨hlow, hhigh⟩ := h
  have hcode := v.code_lt
  have hbits : (make v arg).bits.toInt32.toInt =
      if 2 * (make v arg).bits.toNat < 0x100000000 then ((make v arg).bits.toNat : Int)
        else (make v arg).bits.toNat - 0x100000000 :=
    BitVec.toInt_eq_toNat_cond (make v arg).bits.toBitVec
  rw [hbits, toNat_bits_make]
  split <;> omega

theorem arg_make (v : Verb) {arg : Int64} (h : Holds arg) : (make v arg).arg = arg := by
  have hcode := v.code_lt
  have hshift : ((make v arg).bits.toInt32 >>> 8).toInt =
      (make v arg).bits.toInt32.toInt >>> (8 : Nat) := by
    exact BitVec.toInt_sshiftRight (x := (make v arg).bits.toInt32.toBitVec) (n := 8)
  apply Int64.toInt_inj.1
  rw [Word.arg, Int32.toInt_toInt64, hshift, toInt_bits_make v h, Int.shiftRight_eq_div_pow]
  omega

end Word

end TapeForge.Packed
