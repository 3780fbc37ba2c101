import TapeForge.Proofs.Abreast

/-!
# A longer tape

Every access is an offset from the data pointer, and in a run that succeeds every access is on the
tape. So the run succeeds as well on a tape with more cells before and after, from the same cell:
the new cells are never seen, and all else goes alike. The pointer may leave the tape on the way;
only what is accessed must lie on it.
-/

namespace TapeForge

theorem Int64.add_right_comm (a b c : Int64) : a + b + c = a + c + b := by
  rw [Int64.add_assoc, Int64.add_comm b, Int64.add_assoc]

namespace Machine

open TapeForge.Machine.Action TapeForge.Effect

/-! ## Cells of a longer tape -/

section Cells

variable {front tape back : Array UInt64} {i : Nat}

theorem getD_longer (h : i < tape.size) :
    (front ++ tape ++ back).getD (front.size + i) 0 = tape.getD i 0 := by
  have hfront : front.size + i < (front ++ tape).size := by
    rw [Array.size_append]
    omega
  rw [Array.getD_eq_getD_getElem?, Array.getD_eq_getD_getElem?,
    Array.getElem?_append_left hfront, Array.getElem?_append_right (Nat.le_add_right _ _),
    Nat.add_sub_cancel_left]

theorem setIfInBounds_longer (h : i < tape.size) (v : UInt64) :
    (front ++ tape ++ back).setIfInBounds (front.size + i) v =
      front ++ tape.setIfInBounds i v ++ back := by
  have hfront : front.size + i < (front ++ tape).size := by
    rw [Array.size_append]
    omega
  rw [Array.setIfInBounds_append_left hfront,
    Array.setIfInBounds_append_right (Nat.le_add_right _ _), Nat.add_sub_cancel_left]

/-- A position on the tape is as far from its start as the position that many cells on. -/
theorem index?_longer {m n : Machine} {p : Int64} (hp : m.index? p = some i)
    (hn : n.tape.size = front.size + m.tape.size + back.size)
    (hsize : front.size + m.tape.size + back.size < 0x8000000000000000) :
    n.index? (p + Int64.ofNat front.size) = some (front.size + i) := by
  rw [index?_eq_some_iff] at hp ⊢
  have hfront : (Int64.ofNat front.size).toInt = front.size := Int64.toInt_ofNat_of_lt (by omega)
  refine ⟨?_, by omega⟩
  rw [Int64.toInt_add, hp.1, hfront, Int.add_comm]
  apply Int.bmod_eq_of_le_mul_two <;> omega

end Cells

/-! ## The bond -/

/-- The bond of a machine with the one whose tape has more cells on both sides and whose pointer
is at the same cell. It says nothing of runs that fail, and nothing of notes, which show the first
cells of the tape. -/
def longer (front back : Array UInt64) (size : Nat) : Bond where
  rel m n := m.tape.size = size ∧ ∃ records,
    n = { m with tape := front ++ m.tape ++ back, dp := m.dp + Int64.ofNat front.size, records }
  cell i j := i < size ∧ j = front.size + i
  shared _ := False
  parts _ _ := True

section Longer

variable {front back : Array UInt64} {size : Nat}

theorem firm_longer (hsize : front.size + size + back.size < 0x8000000000000000) :
    (longer front back size).Firm where
  locate o := by
    rintro m _ ⟨rfl, records, rfl⟩
    cases hi : m.index? (m.dp + o) with
    | none =>
        rw [locate_eq_error hi]
        exact .parted trivial
    | some i =>
        -- The pointer is as far along as the cells in front, so the offset finds the same cell.
        have hj := index?_longer (n := { m with
          tape := front ++ m.tape ++ back, dp := m.dp + Int64.ofNat front.size, records })
          hi (by simp only [Array.size_append]) hsize
        rw [Int64.add_right_comm] at hj
        rw [locate_eq_ok hi, locate_eq_ok hj]
        exact .ok ⟨(index?_eq_some_iff.1 hi).2, rfl⟩ ⟨rfl, records, rfl⟩
  peek := by
    rintro i _ ⟨hi, rfl⟩ m _ ⟨rfl, records, rfl⟩
    exact .ok (getD_longer hi).symm ⟨rfl, records, rfl⟩
  poke := by
    rintro i _ b ⟨hi, rfl⟩ m _ ⟨rfl, records, rfl⟩
    refine .ok rfl ⟨size_set m i _, records, ?_⟩
    simp only [setIfInBounds_longer hi]
  bump := by
    rintro i _ v ⟨hi, rfl⟩ m _ ⟨rfl, records, rfl⟩
    refine .ok rfl ⟨size_set m i _, records, ?_⟩
    simp only [getD_longer hi, setIfInBounds_longer hi]
  shift := by
    rintro k m _ ⟨rfl, records, rfl⟩
    refine .ok rfl ⟨rfl, records, ?_⟩
    simp only [Int64.add_right_comm]
  emit := by
    rintro bs m _ ⟨rfl, records, rfl⟩
    simp only [emit]
    split
    · exact .ok rfl ⟨rfl, records, rfl⟩
    · exact .parted trivial
  mask := by
    rintro m _ ⟨rfl, records, rfl⟩
    exact .ok rfl ⟨rfl, records, rfl⟩
  checked := by
    rintro m _ ⟨rfl, records, rfl⟩
    exact .ok rfl ⟨rfl, records, rfl⟩
  admits _ _ := .inr fun _ _ _ => trivial

theorem lasting_longer (hsize : front.size + size + back.size < 0x8000000000000000) :
    (longer front back size).Lasting where
  toFirm := firm_longer hsize
  tick := by
    rintro m _ ⟨rfl, records, rfl⟩
    simp only [tick]
    split
    -- Both count alike; a run that the limit stops is no longer compared.
    · exact .parted trivial
    · exact .ok rfl ⟨rfl, records, rfl⟩
  readByte := by
    refine Bond.Pairs.then (a := refill) ?_ fun _ => ?_
    · rintro m _ ⟨rfl, records, rfl⟩
      simp only [refill]
      split
      · exact .ok rfl ⟨rfl, records, rfl⟩
      · split
        · exact .ok rfl ⟨rfl, records, rfl⟩
        · split
          · exact .ok rfl ⟨rfl, records, rfl⟩
          · exact .ok rfl ⟨rfl, records, rfl⟩
          · exact .parted trivial
    · rintro m _ ⟨rfl, records, rfl⟩
      dsimp only
      split
      · exact .ok rfl ⟨rfl, records, rfl⟩
      · exact .ok rfl ⟨rfl, records, rfl⟩
  note := by
    rintro m _ o ⟨rfl, records, rfl⟩
    unfold note
    dsimp only
    split
    · exact ⟨rfl, _, rfl⟩
    · exact ⟨rfl, records, rfl⟩

end Longer

/-- A call that succeeds on a tape succeeds on every longer one, from the same cell of it: the
cells around stay as they are, and the tape between them, the pointer, the input, the output and
the count come out alike. -/
theorem Call.run_on_longer_tape (c : Call) (m : Machine) (front back : Array UInt64)
    (hsize : front.size + m.tape.size + back.size < 0x8000000000000000) {fuel : Nat} {m' : Machine}
    (h : c.run fuel m = .done m') :
    ∃ records, c.run fuel { m with
        tape := front ++ m.tape ++ back, dp := m.dp + Int64.ofNat front.size } =
      .done { m' with
        tape := front ++ m'.tape ++ back, dp := m'.dp + Int64.ofNat front.size, records } := by
  have hrun := (lasting_longer hsize).run c fuel (m := m)
    (n := { m with tape := front ++ m.tape ++ back, dp := m.dp + Int64.ofNat front.size })
    ⟨rfl, m.records, rfl⟩
  rw [h] at hrun
  generalize c.run fuel _ = r at hrun ⊢
  cases hrun with
  | done hR =>
      obtain ⟨_, records, rfl⟩ := hR
      exact ⟨records, rfl⟩

/-- A run that leaves a tape of two cells on either side and comes back, with a loop that moves one
cell to the other, on a tape with cells around them. -/
theorem Call.run_on_longer_tape_there_and_back :
    ∃ records, (Call.direct [.shift (-2), .shift 5, .shift (-3), .loop [.write, .move 0 1]]).run 9
        { tape := #[7, 2, 5, 8, 9], dp := 1, width := .one } =
      .done { tape := #[7, 0, 7, 8, 9], dp := 1, width := .one, output := { bytes := #[2] },
              steps := 7, records } := by
  have hrun : (Call.direct [.shift (-2), .shift 5, .shift (-3), .loop [.write, .move 0 1]]).run 9
      { tape := #[2, 5], width := .one } =
    .done { tape := #[0, 7], width := .one, output := { bytes := #[2] }, steps := 7 } := rfl
  exact Call.run_on_longer_tape _ _ #[7] #[8, 9] (by decide) hrun

end Machine

end TapeForge
