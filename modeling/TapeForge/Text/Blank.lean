import TapeForge.Text.Utf8

/-!
# Blank characters

The white space of Unicode, and trimming it from both ends of a byte string.
-/

namespace TapeForge

def isBlankCode (n : Nat) : Bool :=
  (9 ≤ n && n ≤ 13) || n == 0x20 || n == 0x85 || n == 0xa0 || n == 0x1680 ||
  (0x2000 ≤ n && n ≤ 0x200a) || n == 0x2028 || n == 0x2029 || n == 0x202f || n == 0x205f ||
  n == 0x3000

namespace Rune

/-- Whether a unit is white space. A stray byte is not. -/
def isBlank : Rune → Bool
  | char c => isBlankCode c.toNat
  | invalid _ => false

def size : Rune → Nat
  | char c => c.utf8Size
  | invalid _ => 1

def totalSize (rs : List Rune) : Nat := rs.foldr (fun r n => r.size + n) 0

end Rune

namespace Bytes

/-- A byte string without white space at its ends. -/
def trim (bs : Bytes) : Bytes :=
  let rs := Rune.decode bs
  let body := (rs.dropWhile Rune.isBlank).reverse.dropWhile Rune.isBlank
  (bs.drop (Rune.totalSize (rs.takeWhile Rune.isBlank))).take (Rune.totalSize body)

theorem length_trim_le (bs : Bytes) : (trim bs).length ≤ bs.length := by
  simp only [trim, List.length_take, List.length_drop]
  omega

def cut (b : UInt8) : Bytes → Option (Bytes × Bytes)
  | [] => none
  | c :: rest => if c = b then some ([], rest) else (cut b rest).map fun (x, y) => (c :: x, y)

theorem cut_eq_some {b : UInt8} {bs x y : Bytes} (h : cut b bs = some (x, y)) :
    bs = x ++ b :: y := by
  induction bs generalizing x y with
  | nil => simp [cut] at h
  | cons c rest ih =>
    unfold cut at h
    split at h
    · next hc => simp_all
    · obtain ⟨⟨x', y'⟩, hcut, hxy⟩ := Option.map_eq_some_iff.1 h
      obtain ⟨rfl, rfl⟩ := Prod.mk.inj hxy
      simp [← ih hcut]

def lowerByte (b : UInt8) : UInt8 := if 65 ≤ b && b ≤ 90 then b + 32 else b

def lower (bs : Bytes) : Bytes := bs.map lowerByte

end Bytes

end TapeForge
