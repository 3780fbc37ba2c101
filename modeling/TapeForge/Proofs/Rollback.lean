import TapeForge.Proofs.Reachable

/-!
# Rollback

A snapshot holds all that the later work of a machine depends on, its live reader and its writer
apart. So where there is no live reader and no write fails, a machine that is put into the state of
a snapshot goes on as the machine did of which it was taken, whatever was done in between, and
whichever machine it is: it answers alike, writes the same bytes and comes into the same states.
-/

namespace TapeForge

namespace Machine

open TapeForge.Machine.Action TapeForge.Effect

/-! ## Restoring in place -/

section Codec

variable [Snapshot.Codec]

/-- Bytes that no machine can be put into the state of, and the fault that says why. -/
inductive Refused (bs : Bytes) : Fault → Prop
  | stream {e : Fault} : Snapshot.decode bs = .error e → Refused bs e
  | width {s : Snapshot} : Snapshot.decode bs = .ok s → Width.ofBytes? s.cellWidth = none →
      Refused bs (.cellWidth s.cellWidth)
  | cursor {s : Snapshot} : Snapshot.decode bs = .ok s → Width.ofBytes? s.cellWidth ≠ none →
      s.cursor < 0 ∨ s.input.size < s.cursor.toInt.toNat → Refused bs (.inputCursor s.cursor)

/-- What loading does: the machine is as it was and the bytes were refused, or it is in the state
that the bytes hold and its other fields are as they were. -/
inductive Loads (bs : Bytes) (m : Machine) : EStateM.Result Fault Machine Unit → Prop
  | refused {e : Fault} : Refused bs e → m.restore bs = .error e → Loads bs m (.error e m)
  | loaded {s : Snapshot} {width : Width} : Snapshot.decode bs = .ok s →
      Width.ofBytes? s.cellWidth = some width →
      m.restore bs = .ok { m with tape := s.tape, dp := s.dp, width, input := s.input,
                                  cursor := s.cursor.toInt.toNat, steps := s.steps } →
      Loads bs m (.ok () { m with tape := s.tape, dp := s.dp, width, input := s.input,
                                  cursor := s.cursor.toInt.toNat, steps := s.steps })

theorem loads_load (bs : Bytes) (m : Machine) : Loads bs m (load bs m) := by
  have herror : ∀ {e}, Refused bs e → load bs m = .error e m → Loads bs m (load bs m) := by
    intro e he hload
    rw [hload]
    exact .refused he (restore_eq_error_iff.2 ⟨m, hload⟩)
  cases hs : Snapshot.decode bs with
  | error e => exact herror (.stream hs) (by rw [load, hs]; rfl)
  | ok s =>
      have hload : load bs m = resume s m := by rw [load_of_decode hs]
      cases hw : Width.ofBytes? s.cellWidth with
      | none => exact herror (.width hs hw) (hload.trans (resume_of_width m hw))
      | some width =>
          by_cases hc : s.cursor < 0 ∨ s.input.size < s.cursor.toInt.toNat
          · exact herror (.cursor hs (by simp [hw]) hc) (hload.trans (resume_of_cursor m hw hc))
          · have hok := hload.trans (resume_of_checks m hw hc)
            rw [hok]
            exact .loaded hs hw (restore_eq_ok_iff.2 hok)

end Codec

/-! ## Machines that echo each other -/

/-- Two machines in the same state, with the same limit and the same checks, neither of which waits
for a reader or fails to write. What each wrote at first is its own, and what they wrote since is
the same; what they note does not count. -/
structure Echo (limit : Int64) (checked : Bool) (a b : Array UInt8) (m n : Machine) : Prop where
  live : m.live = none
  limit : m.limit = limit
  checked : m.checked = checked
  same : ∃ written trace cells records, m.output = ⟨a ++ written, none⟩ ∧
    n = { m with output := ⟨b ++ written, none⟩, trace, traceCells := cells, records }

theorem readByte_of_none {m : Machine} (h : m.live = none) : readByte m = takeByte m := by
  have hrefill : refill m = .ok () m := by
    unfold refill
    split
    · rfl
    · rw [h]
  rw [readByte_eq, bind_of_ok hrefill]

section Echo

variable {limit : Int64} {checked : Bool} {a b : Array UInt8} {m n : Machine}

theorem congruent_echo (limit : Int64) (checked : Bool) (a b : Array UInt8) :
    Congruent (Echo limit checked a b) where
  locate o := by
    rintro m _ ⟨hlive, hlimit, hchecked, written, trace, cells, records, hout, rfl⟩
    simp only [locate, index?]
    split
    · exact .ok ⟨hlive, hlimit, hchecked, written, trace, cells, records, hout, rfl⟩
    · exact .error ⟨hlive, hlimit, hchecked, written, trace, cells, records, hout, rfl⟩
  peek i := by
    rintro m _ ⟨hlive, hlimit, hchecked, written, trace, cells, records, hout, rfl⟩
    exact .ok ⟨hlive, hlimit, hchecked, written, trace, cells, records, hout, rfl⟩
  poke i v := by
    rintro m _ ⟨hlive, hlimit, hchecked, written, trace, cells, records, hout, rfl⟩
    exact .ok ⟨hlive, hlimit, hchecked, written, trace, cells, records, hout, rfl⟩
  bump i v := by
    rintro m _ ⟨hlive, hlimit, hchecked, written, trace, cells, records, hout, rfl⟩
    exact .ok ⟨hlive, hlimit, hchecked, written, trace, cells, records, hout, rfl⟩
  shift k := by
    rintro m _ ⟨hlive, hlimit, hchecked, written, trace, cells, records, hout, rfl⟩
    exact .ok ⟨hlive, hlimit, hchecked, written, trace, cells, records, hout, rfl⟩
  emit bs := by
    rintro m _ ⟨hlive, hlimit, hchecked, written, trace, cells, records, hout, rfl⟩
    have hassoc : ∀ first : Array UInt8, first ++ written ++ bs = first ++ (written ++ bs) :=
      fun _ => Array.ext' (by simp)
    simp only [emit, Sink.write, hout, hassoc, if_true]
    exact .ok ⟨hlive, hlimit, hchecked, written ++ bs, trace, cells, records, rfl, rfl⟩
  readByte := by
    rintro m _ ⟨hlive, hlimit, hchecked, written, trace, cells, records, hout, rfl⟩
    rw [readByte_of_none hlive, readByte_of_none (by exact hlive)]
    simp only [takeByte]
    split
    · exact .ok ⟨hlive, hlimit, hchecked, written, trace, cells, records, hout, rfl⟩
    · exact .ok ⟨hlive, hlimit, hchecked, written, trace, cells, records, hout, rfl⟩
  mask := by
    rintro m _ ⟨hlive, hlimit, hchecked, written, trace, cells, records, hout, rfl⟩
    exact .ok ⟨hlive, hlimit, hchecked, written, trace, cells, records, hout, rfl⟩
  checked := by
    rintro m _ ⟨hlive, hlimit, hchecked, written, trace, cells, records, hout, rfl⟩
    exact .ok ⟨hlive, hlimit, hchecked, written, trace, cells, records, hout, rfl⟩

theorem alike_tick_echo (limit : Int64) (checked : Bool) (a b : Array UInt8) :
    Alike (Echo limit checked a b) tick tick := by
  rintro m _ ⟨hlive, hlimit, hchecked, written, trace, cells, records, hout, rfl⟩
  simp only [tick]
  split
  · exact .error ⟨hlive, hlimit, hchecked, written, trace, cells, records, hout, rfl⟩
  · exact .ok ⟨hlive, hlimit, hchecked, written, trace, cells, records, hout, rfl⟩

theorem Echo.note {m n : Machine} (h : Echo limit checked a b m n) (o : Op) :
    Echo limit checked a b (m.note o) (n.note o) := by
  obtain ⟨hlive, hlimit, hchecked, written, trace, cells, records, hout, rfl⟩ := h
  unfold Machine.note
  split
  · split
    · exact ⟨hlive, hlimit, hchecked, written, trace, cells, _, hout, rfl⟩
    · exact ⟨hlive, hlimit, hchecked, written, trace, cells, records, hout, rfl⟩
  · split
    · exact ⟨hlive, hlimit, hchecked, written, trace, cells, _, hout, rfl⟩
    · exact ⟨hlive, hlimit, hchecked, written, trace, cells, records, hout, rfl⟩

theorem lasting_echo (limit : Int64) (checked : Bool) (a b : Array UInt8) :
    (Bond.of (Echo limit checked a b)).Lasting where
  toFirm := (congruent_echo limit checked a b).firm
  tick := pairs_of_alike (alike_tick_echo limit checked a b)
  readByte := pairs_of_alike (congruent_echo limit checked a b).readByte
  note o hR := hR.note o

end Echo

/-! ## Acts and their answers -/

/-- What an act gives back: whether it came to its end, and the failure if it failed. -/
def Act.answer (a : Act) (m : Machine) : Outcome Failure Unit :=
  match a with
  | request (.call c fuel) => (c.run fuel m).map fun _ => ()
  | request (.feed _) => .done ()
  | assign _ => .done ()

/-- What acts in order give back. -/
def Act.answerAll : List Act → Machine → List (Outcome Failure Unit)
  | [], _ => []
  | a :: rest, m => a.answer m :: answerAll rest (a.apply m)

section Acts

variable {limit : Int64} {checked : Bool} {a b : Array UInt8} {m n : Machine}

theorem Echo.act (h : Echo limit checked a b m n) (act : Act) :
    act.answer m = act.answer n ∧ Echo limit checked a b (act.apply m) (act.apply n) := by
  cases act with
  | request q =>
      cases q with
      | call c fuel =>
          have hrun := (lasting_echo limit checked a b).run c fuel h
          show (c.run fuel m).map _ = (c.run fuel n).map _ ∧
            Echo limit checked a b (c.run fuel m).state (c.run fuel n).state
          generalize c.run fuel m = r at hrun ⊢
          generalize c.run fuel n = r' at hrun ⊢
          cases hrun with
          | done h => exact ⟨rfl, h⟩
          | failed _ h => exact ⟨rfl, h⟩
          | pending h => exact ⟨rfl, h⟩
          | parted hp => exact hp.elim
      | feed chunk =>
          obtain ⟨hlive, hlimit, hchecked, written, trace, cells, records, hout, rfl⟩ := h
          exact ⟨rfl, hlive, hlimit, hchecked, written, trace, cells, records, hout, rfl⟩
  | assign dp =>
      obtain ⟨hlive, hlimit, hchecked, written, trace, cells, records, hout, rfl⟩ := h
      exact ⟨rfl, hlive, hlimit, hchecked, written, trace, cells, records, hout, rfl⟩

theorem Echo.acts (h : Echo limit checked a b m n) (acts : List Act) :
    Act.answerAll acts m = Act.answerAll acts n ∧
      Echo limit checked a b (Act.applyAll acts m) (Act.applyAll acts n) := by
  induction acts generalizing m n with
  | nil => exact ⟨rfl, h⟩
  | cons act acts ih =>
      obtain ⟨hanswer, hact⟩ := h.act act
      obtain ⟨hanswers, hacts⟩ := ih hact
      refine ⟨?_, hacts⟩
      rw [Act.answerAll, Act.answerAll, hanswer, hanswers]

/-- Over some acts, a machine does what another does: it gives the same answers, writes the same
bytes, and comes into the same state. -/
structure Follows (n m : Machine) (acts : List Act) : Prop where
  answers : Act.answerAll acts n = Act.answerAll acts m
  written : ∃ written, (Act.applyAll acts m).output.bytes = m.output.bytes ++ written ∧
    (Act.applyAll acts n).output.bytes = n.output.bytes ++ written
  tape : (Act.applyAll acts n).tape = (Act.applyAll acts m).tape
  dp : (Act.applyAll acts n).dp = (Act.applyAll acts m).dp
  width : (Act.applyAll acts n).width = (Act.applyAll acts m).width
  input : (Act.applyAll acts n).input = (Act.applyAll acts m).input
  cursor : (Act.applyAll acts n).cursor = (Act.applyAll acts m).cursor
  steps : (Act.applyAll acts n).steps = (Act.applyAll acts m).steps

theorem Echo.follows (h : Echo limit checked m.output.bytes n.output.bytes m n)
    (acts : List Act) : Follows n m acts := by
  obtain ⟨hanswers, -, -, -, written, trace, cells, records, hout, hn⟩ := h.acts acts
  refine ⟨hanswers.symm, ⟨written, by rw [hout], by rw [hn]⟩, ?_, ?_, ?_, ?_, ?_, ?_⟩ <;> rw [hn]

end Acts

/-! ## Rollback -/

/-- One machine put into the state of another, which is the snapshot and no more. -/
def inStateOf (t m : Machine) : Machine :=
  { t with tape := m.tape, dp := m.dp, width := m.width, input := m.input, cursor := m.cursor,
           steps := m.steps }

/-- Machines that agree in all that a snapshot does not hold: neither waits for a reader or fails to
write, and they have the same limit and the same checks. -/
structure Compatible (t m : Machine) : Prop where
  live : t.live = none
  room : t.output.room = none
  limit : t.limit = m.limit
  checked : t.checked = m.checked

theorem echo_inStateOf {t m : Machine} (hm : Compatible m m) (ht : Compatible t m) :
    Echo m.limit m.checked m.output.bytes t.output.bytes m (t.inStateOf m) where
  live := hm.live
  limit := rfl
  checked := rfl
  same := by
    refine ⟨#[], t.trace, t.traceCells, t.records, ?_, ?_⟩
    · rw [Array.append_empty, ← hm.room]
    · rw [inStateOf, Array.append_empty, hm.live, ← ht.live, ← ht.limit, ← ht.checked, ← ht.room]

theorem Echo.compatible {m n : Machine} {a b : Array UInt8} {k : Machine}
    (h : Echo k.limit k.checked a b m n) : Compatible m k := by
  obtain ⟨hlive, hlimit, hchecked, written, -, -, -, hout, -⟩ := h
  exact ⟨hlive, by rw [hout], hlimit, hchecked⟩

theorem ofNat_cursor {k : Nat} (h : k < 2 ^ 63) :
    ¬ Int64.ofNat k < 0 ∧ (Int64.ofNat k).toInt.toNat = k := by
  have hint : (Int64.ofNat k).toInt = k := Int64.toInt_ofNat_of_lt h
  rw [Int64.lt_iff_toInt_lt, hint, Int64.toInt_zero]
  omega

section Codec

variable [Snapshot.Codec]

/-- Any machine can be put into the state of a sound one. -/
theorem restore_snapshot {m : Machine} (hm : Sound m) (hinput : m.input.size < 2 ^ 63)
    (t : Machine) : t.restore m.snapshot.encode = .ok (t.inStateOf m) := by
  obtain ⟨hlow, hnat⟩ := ofNat_cursor (Nat.lt_of_le_of_lt hm.cursor hinput)
  -- The cursor of a sound machine is in its input, so no check refuses it.
  have hcursor : ¬ (m.snapshot.cursor < 0 ∨
      m.snapshot.input.size < m.snapshot.cursor.toInt.toNat) := by
    rintro (h | h)
    · exact hlow h
    · rw [snapshot, hnat] at h
      exact Nat.not_lt.2 hm.cursor h
  have hwidth : Width.ofBytes? m.snapshot.cellWidth = some m.width := ofBytes?_bytes m.width
  have hstate : t.inStateOf m = { t.inStateOf m with cursor := m.snapshot.cursor.toInt.toNat } := by
    rw [snapshot, hnat, inStateOf]
  rw [restore_eq_ok_iff, load_of_decode (Snapshot.decode_encode _), hstate]
  exact resume_of_checks t hwidth hcursor

/-- A snapshot rolls a machine back. Take it of a machine that is reached somehow, without a live
reader and with a writer that never fails, and do anything to that machine: once the snapshot has
been restored, whatever is done goes as it would have gone right after the snapshot. Any other
machine of the same limit and checks, if it has no live reader and its writer never fails, may be
used in its place. A restore that fails leaves the machine as it was, and one that succeeds changes
only what a snapshot holds. -/
theorem restore_rolls_back {m : Machine} (hm : Reachable m) (hlive : m.live = none)
    (hroom : m.output.room = none) (hinput : m.input.size < 2 ^ 63) :
    (∀ before : List Act, ∃ n, (Act.applyAll before m).restore m.snapshot.encode = .ok n ∧
      ∀ acts, Follows n m acts) ∧
    (∀ t : Machine, Compatible t m → ∃ n, t.restore m.snapshot.encode = .ok n ∧
      ∀ acts, Follows n m acts) ∧
    ∀ (t : Machine) (bs : Bytes), Loads bs t (load bs t) := by
  have hself : Compatible m m := ⟨hlive, hroom, rfl, rfl⟩
  have hcompatible : ∀ t : Machine, Compatible t m →
      ∃ n, t.restore m.snapshot.encode = .ok n ∧ ∀ acts, Follows n m acts := fun t ht =>
    ⟨t.inStateOf m, restore_snapshot hm.sound hinput t, (echo_inStateOf hself ht).follows⟩
  refine ⟨fun before => hcompatible _ ?_, hcompatible, fun t bs => loads_load bs t⟩
  exact ((echo_inStateOf hself hself).acts before).2.compatible

end Codec

/-- A machine that has read one byte of two. After the snapshot it fails off the tape, is fed and
reads on; restored, it reads the second byte and finds no third. -/
theorem restore_rolls_back_reader :
    ∃ m n : Machine, ofConfig { tapeLength := 2, input := [7, 8] } = .ok m ∧
      (Act.applyAll [.request (.call (.direct [.shift 5, .zero]) 9), .assign 1,
        .request (.feed [9]), .request (.call (.text [0x2c, 0x2c]) 9)]
        ((Request.call (.direct [.read]) 9).apply m)).restore
        ((Request.call (.direct [.read]) 9).apply m).snapshot.encode = .ok n ∧
      (Act.applyAll [.request (.call (.direct [.read, .write, .read, .write]) 9)] n).output.bytes =
        n.output.bytes ++ #[8, 0] ∧
      (Act.applyAll [.request (.call (.direct [.read, .write, .read, .write]) 9)] n).steps = 5 := by
  have hm : Reachable
      { tape := #[7, 0], width := .one, input := #[7, 8], cursor := 1, steps := 1 } :=
    .act (.request (.call (.direct [.read]) 9))
      (.new (c := { tapeLength := 2, input := [7, 8] }) (by decide) rfl)
  obtain ⟨n, hn, hfollows⟩ := (restore_rolls_back hm rfl rfl (by decide)).1
    [.request (.call (.direct [.shift 5, .zero]) 9), .assign 1, .request (.feed [9]),
      .request (.call (.text [0x2c, 0x2c]) 9)]
  have h := hfollows [.request (.call (.direct [.read, .write, .read, .write]) 9)]
  obtain ⟨written, hwritten, hwritten'⟩ := h.written
  have hbytes : written = #[8, 0] := by
    have heq : (#[8, 0] : Array UInt8) = #[] ++ written := hwritten
    rw [heq, Array.empty_append]
  exact ⟨_, n, rfl, hn, hbytes ▸ hwritten', h.steps⟩

end Machine

end TapeForge
