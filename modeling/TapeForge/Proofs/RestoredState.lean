import TapeForge.Proofs.Rollback
import TapeForge.Proofs.StepLimit

/-!
# What restoring admits

A new machine has a valid width, a tape whose cells fit the width, a cursor in its input and a count
that is not negative, and runs keep it so. Restoring checks the width and the cursor of a snapshot.
It takes the cells, the tape and the count as they are, so it leaves such a machine exactly where
the cells fit the width, the tape is not empty and the count is not negative.
-/

namespace TapeForge

namespace Width

theorem bytes_mem (w : Width) : w.bytes ∈ [1, 2, 4, 8] := by
  cases w <;> decide

theorem toInt_ofNat_bytes (w : Width) : (Int64.ofNat w.bytes).toInt.toNat = w.bytes := by
  cases w <;> decide

theorem ofBytes?_eq_some {n : Int64} {w : Width} (h : ofBytes? n = some w) :
    n = Int64.ofNat w.bytes := by
  unfold ofBytes? at h
  split_ifs at h <;> cases h <;> assumption

theorem exists_ofBytes? {n : Int64} (h : n ∈ [1, 2, 4, 8]) : ∃ w, ofBytes? n = some w := by
  simp only [List.mem_cons, List.not_mem_nil, or_false] at h
  obtain rfl | rfl | rfl | rfl := h
  · exact ⟨one, rfl⟩
  · exact ⟨two, rfl⟩
  · exact ⟨four, rfl⟩
  · exact ⟨eight, rfl⟩

end Width

namespace Snapshot

/-- What restoring asks of a snapshot. -/
structure Checked (s : Snapshot) : Prop where
  width : s.cellWidth ∈ [1, 2, 4, 8]
  low : 0 ≤ s.cursor
  high : s.cursor.toInt ≤ s.input.size

/-- What restoring does not ask of a snapshot. -/
structure Fitting (s : Snapshot) : Prop where
  cells : ∀ v ∈ s.tape, v.toNat ≤ 2 ^ (8 * s.cellWidth.toInt.toNat) - 1
  nonempty : 0 < s.tape.size
  counted : 0 ≤ s.steps

end Snapshot

namespace Machine

open TapeForge.Machine.Action TapeForge.Effect

/-! ## Proper machines -/

/-- What a new machine is, and what runs keep. -/
structure Proper (m : Machine) : Prop where
  width : m.width.bytes ∈ [1, 2, 4, 8]
  cells : ∀ v ∈ m.tape, v.toNat ≤ 2 ^ (8 * m.width.bytes) - 1
  nonempty : 0 < m.tape.size
  cursor : m.cursor ≤ m.input.size
  counted : 0 ≤ m.steps

theorem masked_iff_toNat (m : Machine) :
    m.Masked ↔ ∀ v ∈ m.tape, v.toNat ≤ 2 ^ (8 * m.width.bytes) - 1 := by
  simp only [Masked, Width.Fits, UInt64.le_iff_toNat_le, toNat_mask_eq]

theorem steps_ofConfig {c : Config} {m : Machine} (h : ofConfig c = .ok m) : m.steps = 0 := by
  unfold ofConfig at h
  dsimp only at h
  split at h
  · cases h
  · split at h
    · cases h
    · cases h
      rfl

theorem proper_ofConfig {c : Config} {m : Machine} (h : ofConfig c = .ok m)
    (hsize : c.tape.size < 2 ^ 63) : Proper m := by
  have hm := sound_ofConfig h hsize
  refine ⟨m.width.bytes_mem, (masked_iff_toNat m).1 hm.masked, hm.nonempty, hm.cursor, ?_⟩
  rw [steps_ofConfig h]
  exact Int64.le_refl 0

/-! ## Counting up -/

/-- The count of a machine is between a number and the limit. -/
def Between (least limit : Int64) (m : Machine) : Prop :=
  m.limit = limit ∧ least ≤ m.steps ∧ m.steps ≤ limit

/-- The bond of a machine with itself until its count has passed its limit, and is then no less than
a number. -/
def counting (least limit : Int64) : Bond :=
  .self (Between least limit) (fun e => e ≠ .stepLimit) fun e m => e = .stepLimit ∧ least ≤ m.steps

section Counting

variable {limit : Int64} (hpos : 0 < limit) (hmax : limit < Int64.maxValue)

include hpos hmax

theorem lasting_counting (least : Int64) : (counting least limit).Lasting := by
  refine Bond.lasting_limits (lifelong_counts fun l s => l = limit ∧ least ≤ s ∧ s ≤ limit)
    (fun _ he => .inl he) ?_
  rintro m _ ⟨rfl, hlimit, hleast, hle⟩
  -- Below the limit the count does not wrap.
  have hup : m.steps ≤ m.steps + 1 := by
    rw [Int64.le_iff_toInt_le, toInt_succ hmax hle]
    omega
  have hleast' := Int64.le_trans hleast hup
  dsimp only [Tuning.apply, id]
  simp only [tick, hlimit]
  split
  · exact .parted ⟨rfl, hleast'⟩
  next hover =>
    exact .ok rfl ⟨rfl, rfl, hleast', Int64.not_lt.1 fun hlt => hover ⟨hpos, hlt⟩⟩

theorem Call.le_steps_run (c : Call) {m : Machine} (hm : Within limit m) (fuel : Nat) :
    m.steps ≤ (c.run fuel m).state.steps := by
  have hrun := (lasting_counting hpos hmax m.steps).run (m := m) (n := m) c fuel
    ⟨rfl, hm.1, Int64.le_refl _, hm.2⟩
  generalize c.run fuel m = r at hrun ⊢
  cases hrun with
  | done hR => exact hR.2.2.1
  | pending hR => exact hR.2.2.1
  | failed _ hR => exact hR.2.2.1
  | parted hp => exact hp.2

end Counting

/-- A call whose count stays in the range of numbers: it is under a limit, or it would not be
stopped if it were. -/
def Call.InRange (c : Call) (fuel : Nat) (m : Machine) : Prop :=
  ∃ limit, 0 < limit ∧ limit < Int64.maxValue ∧ m.steps ≤ limit ∧
    (m.limit = limit ∨ m.limit ≤ 0 ∧ ¬ LimitReached (c.run fuel { m with limit }))

theorem Call.InRange.le_steps {c : Call} {fuel : Nat} {m : Machine} (h : c.InRange fuel m) :
    m.steps ≤ (c.run fuel m).state.steps := by
  obtain ⟨limit, hpos, hmax, hle, rfl | ⟨hnone, hfree⟩⟩ := h
  · exact c.le_steps_run hpos hmax ⟨rfl, hle⟩ fuel
  · -- Without a limit the call goes as it goes under one that does not stop it.
    have hsame := c.run_raised hpos (.inl hnone) (m := { m with limit }) rfl hfree
    have hup := c.le_steps_run hpos hmax (m := { m with limit }) ⟨rfl, hle⟩ fuel
    change c.run fuel m = _ at hsame
    rw [hsame, Outcome.state_map]
    exact hup

theorem Proper.run {m : Machine} (h : Proper m) {c : Call} {fuel : Nat} (hr : c.InRange fuel m) :
    Proper (c.run fuel m).state := by
  obtain ⟨hmasked, hsize⟩ :=
    (persistent_of_lifelong (lifelong_cells m.tape.size) fun _ _ h => h).run c fuel
      ⟨(masked_iff_toNat m).2 h.cells, rfl⟩
  refine ⟨Width.bytes_mem _, (masked_iff_toNat _).1 hmasked, hsize ▸ h.nonempty, ?_, ?_⟩
  · exact (history_apply h.cursor (.call c fuel)).cursor
  · exact Int64.le_trans h.counted hr.le_steps

/-! ## What is checked -/

/-- Restoring asks of the cursor that it is in the input. -/
theorem cursor_in_input (s : Snapshot) :
    ¬ (s.cursor < 0 ∨ s.input.size < s.cursor.toInt.toNat) ↔
      0 ≤ s.cursor ∧ s.cursor.toInt ≤ s.input.size := by
  rw [not_or, Int64.not_lt, Nat.not_lt, Int.toNat_le]

theorem resume_of_checked {s : Snapshot} (h : s.Checked) (m : Machine) :
    ∃ n, resume s m = .ok () n ∧ n.snapshot = s ∧ m.inStateOf n = n ∧
      n.cursor ≤ n.input.size := by
  obtain ⟨width, hwidth⟩ := Width.exists_ofBytes? h.width
  have hcursor := (cursor_in_input s).2 ⟨h.low, h.high⟩
  refine ⟨_, resume_of_checks m hwidth hcursor, ?_, rfl, Int.toNat_le.2 h.high⟩
  simp only [snapshot, ← Width.ofBytes?_eq_some hwidth, Int64.ofNat_toInt_toNat h.low]

/-- What is not checked is refused before any field is set. -/
theorem resume_of_unchecked {s : Snapshot} (h : ¬ s.Checked) (m : Machine) :
    ∃ e, resume s m = .error e m := by
  cases hw : Width.ofBytes? s.cellWidth with
  | none => exact ⟨_, resume_of_width m hw⟩
  | some width =>
      by_cases hc : s.cursor < 0 ∨ s.input.size < s.cursor.toInt.toNat
      · exact ⟨_, resume_of_cursor m hw hc⟩
      · obtain ⟨hlow, hhigh⟩ := (cursor_in_input s).1 hc
        have hwidth : s.cellWidth ∈ [1, 2, 4, 8] := by
          rw [Width.ofBytes?_eq_some hw]
          cases width <;> decide
        exact absurd ⟨hwidth, hlow, hhigh⟩ h

theorem proper_iff_fitting {n : Machine} (hcursor : n.cursor ≤ n.input.size) :
    Proper n ↔ n.snapshot.Fitting := by
  have hbytes : n.snapshot.cellWidth.toInt.toNat = n.width.bytes := n.width.toInt_ofNat_bytes
  constructor
  · intro h
    exact ⟨hbytes ▸ h.cells, h.nonempty, h.counted⟩
  · intro h
    exact ⟨n.width.bytes_mem, hbytes ▸ h.cells, h.nonempty, hcursor, h.counted⟩

section Codec

variable [Snapshot.Codec]

theorem load_of_undecoded {bs : Bytes} {e : Fault} (h : Snapshot.decode bs = .error e)
    (m : Machine) : load bs m = .error e m := by
  rw [load, h]
  rfl

theorem load_of_checked {bs : Bytes} {s : Snapshot} (hs : Snapshot.decode bs = .ok s)
    (h : s.Checked) (m : Machine) :
    ∃ n, load bs m = .ok () n ∧ n.snapshot = s ∧ m.inStateOf n = n ∧ n.cursor ≤ n.input.size := by
  rw [load_of_decode hs]
  exact resume_of_checked h m

theorem load_of_unchecked {bs : Bytes} {s : Snapshot} (hs : Snapshot.decode bs = .ok s)
    (h : ¬ s.Checked) (m : Machine) : ∃ e, load bs m = .error e m := by
  rw [load_of_decode hs]
  exact resume_of_unchecked h m

/-! ## What is admitted -/

/-- Bytes are refused and the machine is as it was, or it is proper. -/
def LoadsProperly (bs : Bytes) (m : Machine) : Prop :=
  (∃ e, load bs m = .error e m) ∨ ∃ n, load bs m = .ok () n ∧ Proper n

theorem loadsProperly_iff (bs : Bytes) (m : Machine) :
    LoadsProperly bs m ↔ ∀ s, Snapshot.decode bs = .ok s → s.Checked → s.Fitting := by
  constructor
  · intro h s hs hchecked
    obtain ⟨n, hn, rfl, -, hcursor⟩ := load_of_checked hs hchecked m
    rcases h with ⟨e, he⟩ | ⟨n', hn', hproper⟩
    · rw [hn] at he
      cases he
    · rw [hn] at hn'
      cases hn'
      exact (proper_iff_fitting hcursor).1 hproper
  -- A snapshot that is checked loads, and then the machine has just its fields.
  · intro h
    cases hs : Snapshot.decode bs with
    | error e => exact .inl ⟨e, load_of_undecoded hs m⟩
    | ok s =>
        by_cases hchecked : s.Checked
        · obtain ⟨n, hn, rfl, -, hcursor⟩ := load_of_checked hs hchecked m
          exact .inr ⟨n, hn, (proper_iff_fitting hcursor).2 (h _ hs hchecked)⟩
        · exact .inl (load_of_unchecked hs hchecked m)

/-- Restoring refuses bytes that hold no snapshot or one whose width or cursor is bad, and puts the
machine into the state of any other snapshot. So it refuses the bytes or leaves a proper machine
exactly if the snapshot, where its width and cursor are good, has cells that fit the width, a tape
that is not empty and a count that is not negative. Calls then keep the machine proper as long as
the count does not wrap, and a new machine is proper from the first. -/
theorem loads_properly_where_fitting (bs : Bytes) (m : Machine) :
    (∀ e, Snapshot.decode bs = .error e → load bs m = .error e m) ∧
    (∀ s, Snapshot.decode bs = .ok s → ¬ s.Checked → ∃ e, load bs m = .error e m) ∧
    (∀ s, Snapshot.decode bs = .ok s → s.Checked →
      ∃ n, load bs m = .ok () n ∧ n.snapshot = s ∧ m.inStateOf n = n) ∧
    (LoadsProperly bs m ↔ ∀ s, Snapshot.decode bs = .ok s → s.Checked → s.Fitting) ∧
    (∀ (c : Call) (fuel : Nat), Proper m → c.InRange fuel m → Proper (c.run fuel m).state) ∧
    ∀ c : Config, c.tape.size < 2 ^ 63 → ofConfig c = .ok m → Proper m := by
  refine ⟨fun e he => load_of_undecoded he m, fun s hs h => load_of_unchecked hs h m,
    fun s hs h => ?_, loadsProperly_iff bs m, fun c fuel h hr => h.run hr,
    fun c hsize h => proper_ofConfig h hsize⟩
  obtain ⟨n, hn, hsnapshot, hsame, -⟩ := load_of_checked hs h m
  exact ⟨n, hn, hsnapshot, hsame⟩

end Codec

def twoCells (cellWidth : Int64) : Snapshot :=
  { tape := #[255, 7], dp := 1, cellWidth, input := #[9], cursor := 1, steps := 3 }

/-- A machine of one cell is put into the state of one with two cells of one byte, and runs on. It
is not put into that of one with cells of three bytes. -/
theorem loads_properly_where_fitting_two_cells :
    ∃ m n : Machine, ofConfig { tapeLength := 1, stepLimit := 9 } = .ok m ∧ Proper m ∧
      load (twoCells 1).encode m = .ok () n ∧ n.snapshot = twoCells 1 ∧ Proper n ∧
      ((Call.direct [.add 1]).run 9 n).state.tape = #[255, 8] ∧
      Proper ((Call.direct [.add 1]).run 9 n).state ∧
      ∃ e, load (twoCells 3).encode m = .error e m := by
  have hm : ofConfig { tapeLength := 1, stepLimit := 9 } =
      .ok { tape := #[0], width := .one, limit := 9 } := rfl
  have hdecode : ∀ w, Snapshot.decode (twoCells w).encode = .ok (twoCells w) :=
    fun w => Snapshot.decode_encode _
  have hchecked : (twoCells 1).Checked := ⟨by decide, by decide, by decide⟩
  have hunchecked : ¬ (twoCells 3).Checked := by
    intro h
    have hwidth : (3 : Int64) ∉ [1, 2, 4, 8] := by decide
    exact hwidth h.width
  have hfitting : (twoCells 1).Fitting := by
    refine ⟨fun v hv => ?_, by decide, by decide⟩
    have hv' : v = 255 ∨ v = 7 := by simpa [twoCells] using hv
    rcases hv' with rfl | rfl
    · decide
    · decide
  obtain ⟨-, -, hload, hproper, -, hnew⟩ := loads_properly_where_fitting (twoCells 1).encode
    { tape := #[0], width := .one, limit := 9 }
  obtain ⟨-, hrefused, -⟩ := loads_properly_where_fitting (twoCells 3).encode
    { tape := #[0], width := .one, limit := 9 }
  obtain ⟨n, hn, hsnapshot, hsame⟩ := hload _ (hdecode 1) hchecked
  have hn' : Proper n := by
    have hadmitted := hproper.2 fun s hs _ => by
      rw [hdecode 1] at hs
      cases hs
      exact hfitting
    rcases hadmitted with ⟨e, he⟩ | ⟨n', hload', hn'⟩
    · rw [hn] at he
      cases he
    · rw [hn] at hload'
      cases hload'
      exact hn'
  have hstate : n = { tape := #[255, 7], dp := 1, width := .one, input := #[9], cursor := 1,
                      steps := 3, limit := 9 } := by
    rw [load_of_decode (hdecode 1)] at hn
    cases hn
    rfl
  obtain ⟨-, -, -, -, hrun, -⟩ := loads_properly_where_fitting (twoCells 1).encode n
  refine ⟨_, n, hm, hnew _ (by decide) hm, hn, hsnapshot, hn', ?_, hrun _ _ hn' ⟨9, ?_⟩,
    hrefused _ (hdecode 3) hunchecked⟩
  · rw [hstate]
    rfl
  · rw [hstate]
    exact ⟨by decide, by decide, by decide, .inl rfl⟩

/-- The bytes of a snapshot that passes the checks and does not fit are loaded all the same. -/
theorem not_loadsProperly [Snapshot.Codec] {s : Snapshot} (hchecked : s.Checked)
    (hfitting : ¬ s.Fitting) (m : Machine) :
    Snapshot.decode s.encode = .ok s ∧ ¬ LoadsProperly s.encode m := by
  have hdecode := Snapshot.decode_encode s
  refine ⟨hdecode, fun h => hfitting ?_⟩
  exact (loadsProperly_iff s.encode m).1 h s hdecode hchecked

/-- A new machine is put into three states that are not proper, however they are written: a cell
does not fit the width, there is no cell, the count is negative. -/
theorem loads_not_properly :
    ∃ m : Machine, ofConfig { tapeLength := 1 } = .ok m ∧
      ∀ [Snapshot.Codec], ∀ s ∈ [{ tape := #[300], cellWidth := 1 },
          { tape := #[], cellWidth := 1 }, { tape := #[0], cellWidth := 1, steps := -5 }],
        Snapshot.decode s.encode = .ok s ∧ ¬ LoadsProperly s.encode m := by
  refine ⟨_, rfl, ?_⟩
  intro _ s hs
  simp only [List.mem_cons, List.not_mem_nil, or_false] at hs
  rcases hs with rfl | rfl | rfl
  · refine not_loadsProperly ⟨by decide, by decide, by decide⟩ ?_ _
    intro h
    exact absurd (h.cells 300 (Array.mem_singleton.2 rfl)) (by decide)
  · refine not_loadsProperly ⟨by decide, by decide, by decide⟩ ?_ _
    intro h
    exact absurd h.nonempty (by decide)
  · refine not_loadsProperly ⟨by decide, by decide, by decide⟩ ?_ _
    intro h
    exact absurd h.counted (by decide)

end Machine

end TapeForge
