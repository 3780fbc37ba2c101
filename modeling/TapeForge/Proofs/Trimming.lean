import Mathlib.Data.List.Basic
import TapeForge.Text.Blank

/-!
# White space at the ends of byte strings

An ASCII byte is no part of a longer character, so a byte string is decoded before it and after it
on its own. What has no white space at its ends has none there either with an ASCII character put
to it; and where a byte string goes on after such a character, trimming takes from its end only.
-/

namespace TapeForge

namespace Rune

/-! ## Characters -/

theorem toNat_of_scalar? {least n : Nat} {c : Char} (h : scalar? least n = some c) :
    c.toNat = n ∧ least ≤ n := by
  unfold scalar? at h
  split at h
  · rename_i hn
    cases h
    refine ⟨?_, hn.1⟩
    rw [Char.ofNat, dif_pos hn.2]
    rfl
  · cases h

theorem continuation?_of_ascii {b : UInt8} (hb : b < 0x80) : continuation? b = none := by
  rw [continuation?, if_neg]
  intro h
  have hle : (0x80 : UInt8) ≤ b := of_decide_eq_true ((Bool.and_eq_true _ _).mp h).1
  exact UInt8.not_lt.2 hle hb

theorem lt_of_continuation? {b : UInt8} {n : Nat} (h : continuation? b = some n) : n < 64 := by
  unfold continuation? at h
  split at h
  · rename_i hb
    have hle : b ≤ (0xbf : UInt8) := of_decide_eq_true ((Bool.and_eq_true _ _).mp hb).2
    have hnat : b.toNat ≤ 0xbf := UInt8.le_iff_toNat_le.1 hle
    have hn := Option.some.inj h
    omega
  · cases h

theorem utf8Size_eq {c : Char} : c.utf8Size =
    if c.toNat ≤ 0x7f then 1 else if c.toNat ≤ 0x7ff then 2
    else if c.toNat ≤ 0xffff then 3 else 4 := by
  rfl

/-- The bytes of the first character are there, and there are as many as it has. -/
theorem size_of_decodeFirst? {bs : Bytes} {c : Char} {n : Nat} (h : decodeFirst? bs = some (c, n)) :
    n ≤ bs.length ∧ c.utf8Size = n := by
  cases bs with
  | nil => cases h
  | cons a rest =>
      unfold decodeFirst? at h
      dsimp only at h
      by_cases hone : a < 0x80
      · rw [if_pos hone] at h
        cases h
        have hlt : a.toNat < 0x80 := UInt8.lt_iff_toNat_lt.1 hone
        have hc : (Char.ofNat a.toNat).toNat = a.toNat := by
          rw [Char.ofNat, dif_pos (.inl (by omega))]
          rfl
        refine ⟨by simp, ?_⟩
        rw [utf8Size_eq, hc, if_pos (by omega)]
      rw [if_neg hone] at h
      by_cases hinner : a < 0xc0
      · rw [if_pos hinner] at h
        cases h
      rw [if_neg hinner] at h
      -- The first byte bounds the code point above, `scalar?` bounds it below.
      by_cases htwo : a < 0xe0
      · rw [if_pos htwo] at h
        have hlt : a.toNat < 0xe0 := UInt8.lt_iff_toNat_lt.1 htwo
        rcases rest with _ | ⟨b, rest⟩
        · cases h
        obtain ⟨y, hy, h⟩ := Option.bind_eq_some_iff.1 h
        obtain ⟨c', hc, h⟩ := Option.bind_eq_some_iff.1 h
        cases h
        have hlow := lt_of_continuation? hy
        obtain ⟨hnat, hleast⟩ := toNat_of_scalar? hc
        refine ⟨by simp, ?_⟩
        rw [utf8Size_eq, if_neg (by omega), if_pos (by omega)]
      rw [if_neg htwo] at h
      by_cases hthree : a < 0xf0
      · rw [if_pos hthree] at h
        have hlt : a.toNat < 0xf0 := UInt8.lt_iff_toNat_lt.1 hthree
        rcases rest with _ | ⟨b, _ | ⟨b', rest⟩⟩
        · cases h
        · cases h
        obtain ⟨y, hy, h⟩ := Option.bind_eq_some_iff.1 h
        obtain ⟨z, hz, h⟩ := Option.bind_eq_some_iff.1 h
        obtain ⟨c', hc, h⟩ := Option.bind_eq_some_iff.1 h
        cases h
        have hlow := lt_of_continuation? hy
        have hlow' := lt_of_continuation? hz
        obtain ⟨hnat, hleast⟩ := toNat_of_scalar? hc
        refine ⟨by simp, ?_⟩
        rw [utf8Size_eq, if_neg (by omega), if_neg (by omega), if_pos (by omega)]
      rw [if_neg hthree] at h
      by_cases hfour : a < 0xf8
      · rw [if_pos hfour] at h
        rcases rest with _ | ⟨b, _ | ⟨b', _ | ⟨b'', rest⟩⟩⟩
        · cases h
        · cases h
        · cases h
        obtain ⟨y, -, h⟩ := Option.bind_eq_some_iff.1 h
        obtain ⟨z, -, h⟩ := Option.bind_eq_some_iff.1 h
        obtain ⟨w, -, h⟩ := Option.bind_eq_some_iff.1 h
        obtain ⟨c', hc, h⟩ := Option.bind_eq_some_iff.1 h
        cases h
        obtain ⟨hnat, hleast⟩ := toNat_of_scalar? hc
        refine ⟨by simp, ?_⟩
        rw [utf8Size_eq, if_neg (by omega), if_neg (by omega), if_neg (by omega)]
      · rw [if_neg hfour] at h
        cases h

theorem decodeFirst?_append {a b : UInt8} (hb : b < 0x80) (x y : Bytes) :
    decodeFirst? (a :: (x ++ b :: y)) = decodeFirst? (a :: x) := by
  have hnone := continuation?_of_ascii hb
  unfold decodeFirst?
  rcases x with _ | ⟨x₁, _ | ⟨x₂, _ | ⟨x₃, x⟩⟩⟩ <;> rcases y with _ | ⟨y₁, _ | ⟨y₂, y⟩⟩ <;>
    simp [hnone]

/-! ## Around an ASCII byte -/

theorem decodeFrom_append {b : UInt8} (hb : b < 0x80) (x y : Bytes) {skip : Nat}
    (hskip : skip ≤ x.length) :
    decodeFrom skip (x ++ b :: y) = decodeFrom skip x ++ decode (b :: y) := by
  induction x generalizing skip with
  | nil =>
      rw [Nat.le_zero.1 hskip]
      rfl
  | cons a x ih =>
      cases skip with
      | succ skip => exact ih (Nat.le_of_succ_le_succ hskip)
      | zero =>
          rw [List.cons_append, decodeFrom, decodeFrom, decodeFirst?_append hb]
          cases hfirst : decodeFirst? (a :: x) with
          | none =>
              simp only [ih (Nat.zero_le _)]
              rfl
          | some first =>
              obtain ⟨c, n⟩ := first
              have hn := (size_of_decodeFirst? hfirst).1
              simp only [List.length_cons] at hn
              simp only [ih (show n - 1 ≤ x.length by omega)]
              rfl

/-- A byte string with an ASCII byte in it is decoded before and after it on its own. -/
theorem decode_append_cons {b : UInt8} (hb : b < 0x80) (x y : Bytes) :
    decode (x ++ b :: y) = decode x ++ char (Char.ofNat b.toNat) :: decode y := by
  rw [decode, decodeFrom_append hb x y (Nat.zero_le _)]
  congr 1
  rw [decode, decodeFrom]
  have hfirst : decodeFirst? (b :: y) = some (Char.ofNat b.toNat, 1) := by
    unfold decodeFirst?
    exact if_pos hb
  rw [hfirst]
  rfl

/-! ## Sizes -/

theorem totalSize_nil : totalSize [] = 0 := rfl

theorem totalSize_cons (r : Rune) (rs : List Rune) :
    totalSize (r :: rs) = r.size + totalSize rs := by
  rw [totalSize, List.foldr_cons, totalSize]

theorem totalSize_append (rs us : List Rune) :
    totalSize (rs ++ us) = totalSize rs + totalSize us := by
  induction rs with
  | nil => rw [List.nil_append, totalSize_nil, Nat.zero_add]
  | cons r rs ih => rw [List.cons_append, totalSize_cons, totalSize_cons, ih, Nat.add_assoc]

theorem totalSize_reverse (rs : List Rune) : totalSize rs.reverse = totalSize rs := by
  induction rs with
  | nil => rfl
  | cons r rs ih =>
      rw [List.reverse_cons, totalSize_append, ih, totalSize_cons, totalSize_cons, totalSize_nil]
      omega

theorem size_pos (r : Rune) : 0 < r.size := by
  cases r with
  | char c => exact c.utf8Size_pos
  | invalid b => exact Nat.one_pos

theorem totalSize_eq_zero {rs : List Rune} (h : totalSize rs = 0) : rs = [] := by
  cases rs with
  | nil => rfl
  | cons r rs =>
      have hpos := r.size_pos
      rw [totalSize_cons] at h
      omega

theorem totalSize_decodeFrom (bs : Bytes) {skip : Nat} (hskip : skip ≤ bs.length) :
    totalSize (decodeFrom skip bs) + skip = bs.length := by
  induction bs generalizing skip with
  | nil =>
      rw [Nat.le_zero.1 hskip]
      rfl
  | cons b bs ih =>
      cases skip with
      | succ skip =>
          have hrest := ih (Nat.le_of_succ_le_succ hskip)
          rw [decodeFrom, List.length_cons]
          omega
      | zero =>
          rw [decodeFrom]
          cases hfirst : decodeFirst? (b :: bs) with
          | none =>
              have hrest := ih (Nat.zero_le _)
              simp only [totalSize_cons, size, List.length_cons]
              omega
          | some first =>
              obtain ⟨c, n⟩ := first
              obtain ⟨hn, hc⟩ := size_of_decodeFirst? hfirst
              have hpos := c.utf8Size_pos
              simp only [List.length_cons] at hn
              have hrest := ih (show n - 1 ≤ bs.length by omega)
              simp only [totalSize_cons, size, List.length_cons]
              omega

theorem totalSize_decode (bs : Bytes) : totalSize (decode bs) = bs.length :=
  totalSize_decodeFrom bs (Nat.zero_le _)

end Rune

namespace Bytes

open Rune

/-! ## Trimming -/

/-- A byte string has no white space at its ends. -/
def Tight (bs : Bytes) : Prop :=
  (decode bs).takeWhile isBlank = [] ∧ (decode bs).reverse.takeWhile isBlank = []

/-- A byte string without white space at its end. -/
def trimEnd (bs : Bytes) : Bytes :=
  bs.take (totalSize ((decode bs).reverse.dropWhile isBlank))

theorem totalSize_takeWhile_add (rs : List Rune) :
    totalSize (rs.takeWhile isBlank) + totalSize (rs.dropWhile isBlank) = totalSize rs := by
  rw [← totalSize_append, List.takeWhile_append_dropWhile]

theorem dropWhile_of_takeWhile {rs : List Rune} (h : rs.takeWhile isBlank = []) :
    rs.dropWhile isBlank = rs := by
  have hall := List.takeWhile_append_dropWhile (p := isBlank) (l := rs)
  rwa [h, List.nil_append] at hall

theorem trim_of_takeWhile {bs : Bytes} (h : (decode bs).takeWhile isBlank = []) :
    trim bs = trimEnd bs := by
  rw [trim, h, dropWhile_of_takeWhile h]
  rfl

/-- What is not changed by trimming has no white space at its ends. -/
theorem tight_iff {bs : Bytes} : Tight bs ↔ trim bs = bs := by
  have hsize := totalSize_decode bs
  constructor
  · rintro ⟨hstart, hend⟩
    have hall := totalSize_takeWhile_add (decode bs).reverse
    rw [hend, totalSize_reverse, hsize] at hall
    rw [trim_of_takeWhile hstart, trimEnd]
    apply List.take_of_length_le
    rw [← hall]
    simp [totalSize]
  · intro h
    have hlen := congrArg List.length h
    have hfront := totalSize_takeWhile_add (decode bs)
    have hback := totalSize_takeWhile_add ((decode bs).dropWhile isBlank).reverse
    rw [totalSize_reverse] at hback
    simp only [trim, List.length_take, List.length_drop] at hlen
    -- Nothing was lost in length, so neither end had a blank to lose.
    have hstart : (decode bs).takeWhile isBlank = [] := totalSize_eq_zero (by omega)
    rw [dropWhile_of_takeWhile hstart] at hfront hback hlen
    exact ⟨hstart, totalSize_eq_zero (by omega)⟩

theorem takeWhile_append_cons {rs us : List Rune} {r : Rune} (hr : r.isBlank = false)
    (h : rs.takeWhile isBlank = []) : (rs ++ r :: us).takeWhile isBlank = [] := by
  cases rs with
  | nil => rw [List.nil_append, List.takeWhile_cons_of_neg (by simp [hr])]
  | cons u rs =>
      have hu : u.isBlank = false := by
        by_contra hblank
        rw [List.takeWhile_cons_of_pos (by simpa using hblank)] at h
        cases h
      rw [List.cons_append, List.takeWhile_cons_of_neg (by simp [hu])]

theorem dropWhile_append_cons {r : Rune} (hr : r.isBlank = false) (rs us : List Rune) :
    (rs ++ r :: us).dropWhile isBlank = rs.dropWhile isBlank ++ r :: us := by
  induction rs with
  | nil => rw [List.nil_append, List.dropWhile_cons_of_neg (by simp [hr])]; rfl
  | cons u rs ih =>
      rw [List.cons_append, List.dropWhile_cons, List.dropWhile_cons, ih]
      split
      · rfl
      · rfl

/-- A byte that is an ASCII character, and no white space. -/
def Firm (b : UInt8) : Prop := b < 0x80 ∧ (Rune.char (Char.ofNat b.toNat)).isBlank = false

theorem Firm.tight_append {b : UInt8} (hb : Firm b) {bs : Bytes} (h : Tight bs) :
    Tight (bs ++ [b]) := by
  have hdecode := decode_append_cons hb.1 bs []
  refine ⟨?_, ?_⟩
  · rw [hdecode]
    exact takeWhile_append_cons hb.2 h.1
  · rw [hdecode, List.reverse_append, List.reverse_cons, List.append_assoc]
    exact takeWhile_append_cons hb.2 rfl

theorem Firm.tight_cons {b : UInt8} (hb : Firm b) {bs : Bytes} (h : Tight bs) :
    Tight (b :: bs) := by
  have hdecode := decode_append_cons hb.1 [] bs
  refine ⟨?_, ?_⟩
  · rw [← List.nil_append (b :: bs), hdecode]
    exact takeWhile_append_cons hb.2 rfl
  · rw [← List.nil_append (b :: bs), hdecode, List.reverse_append, List.reverse_cons,
      List.append_assoc]
    exact takeWhile_append_cons hb.2 h.2

/-- Of what goes on after a byte that is no white space, trimming takes from the end only. -/
theorem Firm.trim_append_cons {b : UInt8} (hb : Firm b) {bs : Bytes} (h : Tight bs) (cs : Bytes) :
    trim (bs ++ b :: cs) = bs ++ b :: trimEnd cs := by
  have hdecode := decode_append_cons hb.1 bs cs
  have hstart : (decode (bs ++ b :: cs)).takeWhile isBlank = [] := by
    rw [hdecode]
    exact takeWhile_append_cons hb.2 h.1
  have hlow : b.toNat < 0x80 := UInt8.lt_iff_toNat_lt.1 hb.1
  have hsize : (Rune.char (Char.ofNat b.toNat)).size = 1 := by
    have hfirst : decodeFirst? [b] = some (Char.ofNat b.toNat, 1) := if_pos hb.1
    exact (size_of_decodeFirst? hfirst).2
  rw [trim_of_takeWhile hstart, trimEnd, trimEnd, hdecode, List.reverse_append, List.reverse_cons,
    List.append_assoc, List.singleton_append, dropWhile_append_cons hb.2, totalSize_append,
    totalSize_cons, totalSize_reverse, totalSize_decode, hsize]
  generalize totalSize ((decode cs).reverse.dropWhile isBlank) = n
  rw [List.take_append, List.take_of_length_le (by omega)]
  have hrest : n + (1 + bs.length) - bs.length = n + 1 := by omega
  rw [hrest, List.take_succ_cons]

/-! ## The first occurrence of a byte -/

theorem cut_append_cons {b : UInt8} {x : Bytes} (hx : b ∉ x) (y : Bytes) :
    cut b (x ++ b :: y) = some (x, y) := by
  induction x with
  | nil => rw [List.nil_append, cut, if_pos rfl]
  | cons c x ih =>
      obtain ⟨hc, hx⟩ := not_or.1 (mt List.mem_cons.2 hx)
      rw [List.cons_append, cut, if_neg (Ne.symm hc), ih hx]
      rfl

theorem cut_eq_some_iff {b : UInt8} {bs x y : Bytes} :
    cut b bs = some (x, y) ↔ bs = x ++ b :: y ∧ b ∉ x := by
  constructor
  · intro h
    refine ⟨cut_eq_some h, ?_⟩
    induction bs generalizing x with
    | nil => cases h
    | cons c bs ih =>
        rw [cut] at h
        split at h
        · cases h
          exact List.not_mem_nil
        · rename_i hc
          obtain ⟨⟨x', y'⟩, hcut, hxy⟩ := Option.map_eq_some_iff.1 h
          cases hxy
          rw [List.mem_cons, not_or]
          exact ⟨Ne.symm hc, ih hcut⟩
  · rintro ⟨rfl, hx⟩
    exact cut_append_cons hx y

end Bytes

end TapeForge
