import Mathlib.Algebra.Group.Nat.Defs
import TapeForge.Machine.SnapshotBytes
import TapeForge.Proofs.InputHistory

/-!
# What holds of every reachable machine

A machine is made from a configuration, run, fed, pointed elsewhere and put into states that were
saved of machines made in the same way. Calls may fail anywhere. Whatever was done, the cells fit
the width, the tape is not empty, and the cursor is in the input; and until the next restore the
tape keeps its length and the input only grows.
-/

namespace TapeForge

namespace Machine

/-! ## States -/

/-- What may be done to a machine between two restores. -/
inductive Act where
  /-- A call or a feeding. -/
  | request (q : Request)
  /-- The data pointer is set. -/
  | assign (dp : Int64)

namespace Act

def apply (a : Act) (m : Machine) : Machine :=
  match a with
  | request q => q.apply m
  | assign dp => { m with dp }

def applyAll : List Act → Machine → Machine
  | [], m => m
  | a :: rest, m => applyAll rest (a.apply m)

end Act

/-- The states of machines that are made, used and restored from one another. A tape has fewer than
`2 ^ 63` cells, as every array has. -/
inductive Reachable [Snapshot.Codec] : Machine → Prop
  | new {c : Config} {m : Machine} : c.tape.size < 2 ^ 63 → ofConfig c = .ok m → Reachable m
  | act {m : Machine} (a : Act) : Reachable m → Reachable (a.apply m)
  | restored {m s n : Machine} : Reachable m → Reachable s →
      m.restore s.snapshot.encode = .ok n → Reachable n

structure Sound (m : Machine) : Prop where
  masked : m.Masked
  nonempty : 0 < m.tape.size
  bounded : m.tape.size < 2 ^ 63
  cursor : m.cursor ≤ m.input.size

/-! ## New machines -/

theorem orDefault_ne_zero {n fallback : Int64} (h : fallback ≠ 0) : orDefault n fallback ≠ 0 := by
  unfold orDefault
  split
  · exact h
  · assumption

theorem initialTape_spec {c : Config} {w : Width} {tape : Array UInt64}
    (h : initialTape c w = .ok tape) (hsize : c.tape.size < 2 ^ 63) :
    (∀ v ∈ tape, w.Fits v) ∧ 0 < tape.size ∧ tape.size < 2 ^ 63 := by
  unfold initialTape at h
  split at h
  next hempty =>
    have hne : orDefault c.tapeLength defaultTapeLength ≠ 0 := orDefault_ne_zero (by decide)
    generalize orDefault c.tapeLength defaultTapeLength = length at h hne
    dsimp only at h
    split at h
    · cases h
    next hneg =>
      cases h
      have hlt := length.toInt_lt
      have hnn : 0 ≤ length.toInt := by
        rw [Int64.lt_iff_toInt_lt, Int64.toInt_zero] at hneg
        omega
      have hpos : length.toInt ≠ 0 := fun h0 => hne (Int64.toInt_inj.1 h0)
      refine ⟨fun v hv => ?_, ?_, ?_⟩
      · rw [(Array.mem_replicate.1 hv).2]
        exact w.fits_zero
      · rw [Array.size_replicate]
        omega
      · rw [Array.size_replicate]
        omega
  next hempty =>
    cases h
    refine ⟨fun v hv => ?_, ?_, ?_⟩
    · obtain ⟨u, -, rfl⟩ := Array.mem_map.1 hv
      exact w.fits_cut u
    · rw [Array.size_map]
      exact Array.size_pos_iff.2 fun h0 => hempty (by rw [h0]; rfl)
    · rw [Array.size_map]
      exact hsize

theorem sound_ofConfig {c : Config} {m : Machine} (h : ofConfig c = .ok m)
    (hsize : c.tape.size < 2 ^ 63) : Sound m := by
  unfold ofConfig at h
  dsimp only at h
  split at h
  · cases h
  next w _ =>
    split at h
    · cases h
    next tape htape =>
      cases h
      obtain ⟨hfits, hpos, hlt⟩ := initialTape_spec htape hsize
      exact ⟨hfits, hpos, hlt, Nat.zero_le _⟩

/-! ## Acts -/

theorem lifelong_cells (size : Nat) : Lifelong fun m => m.Masked ∧ m.tape.size = size where
  set i _ hv h := ⟨h.1.set i hv, (size_set _ i _).trans h.2⟩
  moved _ h := h
  written _ h := h
  read _ _ _ h := h
  noted _ h := h

/-- What acts leave of a machine. -/
structure Grown (m n : Machine) : Prop where
  sound : Sound n
  size : n.tape.size = m.tape.size
  input : m.input.toList <+: n.input.toList

theorem Grown.trans {m n k : Machine} (h : Grown m n) (h' : Grown n k) : Grown m k :=
  ⟨h'.sound, h'.size.trans h.size, h.input.trans h'.input⟩

namespace Sound

variable {m : Machine} (h : Sound m)

include h

theorem grown_request (q : Request) : Grown m (q.apply m) := by
  have hhistory := history_apply h.cursor q
  have hcells : (q.apply m).Masked ∧ (q.apply m).tape.size = m.tape.size := by
    cases q with
    | call c fuel =>
        exact (persistent_of_lifelong (lifelong_cells m.tape.size) fun _ _ h => h).run c fuel
          ⟨h.masked, rfl⟩
    | feed chunk => exact ⟨h.masked, rfl⟩
  obtain ⟨hmasked, hsize⟩ := hcells
  exact ⟨⟨hmasked, hsize ▸ h.nonempty, hsize ▸ h.bounded, hhistory.cursor⟩, hsize,
    ⟨_, hhistory.input.symm⟩⟩

theorem grown_act (a : Act) : Grown m (a.apply m) := by
  cases a with
  | request q => exact h.grown_request q
  | assign dp => exact ⟨⟨h.masked, h.nonempty, h.bounded, h.cursor⟩, rfl, List.prefix_rfl⟩

theorem grown_acts (acts : List Act) : Grown m (Act.applyAll acts m) := by
  induction acts generalizing m with
  | nil => exact ⟨h, rfl, List.prefix_rfl⟩
  | cons a rest ih =>
      have ha := h.grown_act a
      exact ha.trans (ih ha.sound)

end Sound

/-! ## Restored machines -/

theorem ofBytes?_bytes (w : Width) : Width.ofBytes? (Int64.ofNat w.bytes) = some w := by
  cases w <;> decide

theorem resume_eq_ok {m n : Machine} {s : Snapshot} (h : resume s m = .ok () n) :
    Width.ofBytes? s.cellWidth = some n.width ∧ n.tape = s.tape ∧ n.cursor ≤ n.input.size := by
  cases hw : Width.ofBytes? s.cellWidth with
  | none =>
      rw [resume_of_width m hw] at h
      cases h
  | some width =>
      by_cases hc : s.cursor < 0 ∨ s.input.size < s.cursor.toInt.toNat
      · rw [resume_of_cursor m hw hc] at h
        cases h
      · rw [resume_of_checks m hw hc] at h
        cases h
        exact ⟨rfl, rfl, Nat.not_lt.1 fun hlt => hc (.inr hlt)⟩

section Codec

variable [Snapshot.Codec]

theorem load_of_decode {bs : Bytes} {s : Snapshot} (h : Snapshot.decode bs = .ok s) :
    load bs = resume s := by
  rw [load, h]

theorem restore_eq_ok_iff {m n : Machine} {bs : Bytes} :
    m.restore bs = .ok n ↔ load bs m = .ok () n := by
  unfold restore
  cases load bs m <;> simp

theorem restore_eq_error_iff {m : Machine} {bs : Bytes} {e : Fault} :
    m.restore bs = .error e ↔ ∃ n, load bs m = .error e n := by
  unfold restore
  cases load bs m <;> simp

theorem Sound.restored {m s n : Machine} (hs : Sound s)
    (h : m.restore s.snapshot.encode = .ok n) : Sound n := by
  rw [restore_eq_ok_iff, load_of_decode (Snapshot.decode_encode _)] at h
  obtain ⟨hwidth, htape, hcursor⟩ := resume_eq_ok h
  have hsame : n.width = s.width :=
    Option.some.inj (hwidth.symm.trans (ofBytes?_bytes s.width))
  refine ⟨?_, ?_, ?_, hcursor⟩
  · rw [Masked, htape, hsame]
    exact hs.masked
  · rw [htape]
    exact hs.nonempty
  · rw [htape]
    exact hs.bounded

end Codec

/-! ## The invariant -/

theorem Reachable.sound [Snapshot.Codec] {m : Machine} (h : Reachable m) : Sound m := by
  induction h with
  | new hsize hc => exact sound_ofConfig hc hsize
  | act a _ ih => exact (ih.grown_act a).sound
  | restored _ _ hn _ ihs => exact ihs.restored hn

theorem toNat_mask_eq (w : Width) : w.mask.toNat = 2 ^ (8 * w.bytes) - 1 := by
  cases w <;> rfl

/-- Every reachable machine has one of four widths, cells of that width, a tape and a cursor in the
input. Whatever is done to it before it is restored, its tape keeps its length, and its input begins
with what it is now. The mask is no field, it is that of the width; so its size holds of any
machine. -/
theorem Reachable.invariant [Snapshot.Codec] {m : Machine} (h : Reachable m) :
    m.width.bytes ∈ [1, 2, 4, 8] ∧ m.width.mask.toNat = 2 ^ (8 * m.width.bytes) - 1 ∧
      (∀ v ∈ m.tape, v ≤ m.width.mask) ∧ 0 < m.tape.size ∧ m.cursor ≤ m.input.size ∧
      ∀ acts, (Act.applyAll acts m).tape.size = m.tape.size ∧
        m.input.toList <+: (Act.applyAll acts m).input.toList := by
  have hm := h.sound
  refine ⟨?_, toNat_mask_eq m.width, hm.masked, hm.nonempty, hm.cursor, fun acts => ?_⟩
  · cases m.width <;> decide
  · exact ⟨(hm.grown_acts acts).size, (hm.grown_acts acts).input⟩

/-- A machine with cells of one byte, put into the state of one with cells of two bytes whose run
failed off the tape. -/
theorem Reachable.invariant_of_restored :
    ∃ m s n : Machine, ofConfig { tapeLength := 2 } = .ok m ∧
      ofConfig { tapeLength := 3, cellWidth := 2, input := [7] } = .ok s ∧
      m.restore ((Request.call (.direct [.add (-1), .read, .shift 5, .zero]) 9).apply
        s).snapshot.encode = .ok n ∧
      n.tape = #[7, 0, 0] ∧ n.width.mask.toNat = 2 ^ (8 * 2) - 1 ∧
      ∀ acts, (Act.applyAll acts n).tape.size = 3 := by
  have hm : Reachable { tape := #[0, 0], width := .one } :=
    .new (c := { tapeLength := 2 }) (by decide) rfl
  have hs : Reachable { tape := #[7, 0, 0], dp := 5, width := .two, input := #[7], cursor := 1,
                        steps := 4 } :=
    .act (.request (.call (.direct [.add (-1), .read, .shift 5, .zero]) 9))
      (.new (c := { tapeLength := 3, cellWidth := 2, input := [7] }) (by decide) rfl)
  have hn : Machine.restore { tape := #[0, 0], width := .one } (snapshot
      { tape := #[7, 0, 0], dp := 5, width := .two, input := #[7], cursor := 1,
        steps := 4 }).encode =
      .ok { tape := #[7, 0, 0], dp := 5, width := .two, input := #[7], cursor := 1,
            steps := 4 } := by
    rw [restore_eq_ok_iff, load_of_decode (Snapshot.decode_encode _)]
    rfl
  have h := (Reachable.restored hm hs hn).invariant
  exact ⟨_, _, _, rfl, rfl, hn, rfl, h.2.1, fun acts => (h.2.2.2.2.2 acts).1⟩

end Machine

end TapeForge
