import TapeForge.Packed.Run

/-!
# Buffered output

What a buffer was given is what it has handed on and then what it holds, as long as it is not
broken. In front of a sink that accepts everything it never breaks.
-/

namespace TapeForge

theorem Sink.bytes_write {s : Sink} {bs : Bytes} (h : (s.write bs).2 = true) :
    (s.write bs).1.bytes = s.bytes ++ bs := by
  unfold write at h ⊢
  cases hroom : s.room with
  | none => rfl
  | some k =>
      rw [hroom] at h
      dsimp only at h ⊢
      by_cases hle : bs.length ≤ k
      · rw [if_pos hle]
      · rw [if_neg hle] at h
        cases h

theorem Sink.write_unlimited {s : Sink} (h : s.room = none) (bs : Bytes) :
    s.write bs = ({ s with bytes := s.bytes ++ bs }, true) := by
  rw [write, h]

namespace Packed.Buffer

/-- The bytes handed on, and then the bytes held. -/
def all (b : Buffer) : Array UInt8 := b.sink.bytes ++ b.held

variable {b : Buffer}

/-! ## Handing on -/

theorem flush_idle (h : b.broken = true ∨ b.held.isEmpty = true) : b.flush = b := if_pos h

theorem flush_accepted (hb : ¬ (b.broken = true ∨ b.held.isEmpty = true))
    (hw : (b.sink.write b.held.toList).2 = true) :
    b.flush = { sink := (b.sink.write b.held.toList).1 } := by
  rw [flush, if_neg hb]
  rcases hsink : b.sink.write b.held.toList with ⟨sink, _ | _⟩
  · rw [hsink] at hw
    cases hw
  · rfl

theorem flush_refused (hb : ¬ (b.broken = true ∨ b.held.isEmpty = true))
    (hw : (b.sink.write b.held.toList).2 = false) :
    b.flush.broken = true ∧ b.flush.sink = (b.sink.write b.held.toList).1 := by
  rw [flush, if_neg hb]
  rcases hsink : b.sink.write b.held.toList with ⟨sink, _ | _⟩
  · exact ⟨rfl, rfl⟩
  · rw [hsink] at hw
    cases hw

/-- A buffer that is not broken by handing on has delivered all of its bytes. -/
theorem flush_whole (h : b.flush.broken = false) :
    b.flush.sink.bytes = b.all ∧ b.flush.held = #[] := by
  by_cases hidle : b.broken = true ∨ b.held.isEmpty = true
  · rw [flush_idle hidle] at h ⊢
    have hempty : b.held = #[] := by simpa [h] using hidle
    refine ⟨?_, hempty⟩
    rw [all, hempty, Array.append_empty]
  · cases hw : (b.sink.write b.held.toList).2 with
    | true =>
        rw [flush_accepted hidle hw]
        exact ⟨(Sink.bytes_write hw).trans (Array.ext' (by simp [all])), rfl⟩
    | false =>
        rw [(flush_refused hidle hw).1] at h
        cases h

theorem all_flush (h : b.flush.broken = false) : b.flush.all = b.all := by
  obtain ⟨hbytes, hheld⟩ := flush_whole h
  rw [all, hbytes, hheld, Array.append_empty]

/-! ## A byte more -/

/-- Holds one more byte, unless the buffer is broken. -/
def hold (b : Buffer) (byte : UInt8) : Buffer :=
  if b.broken then b else { b with held := b.held.push byte }

theorem put_small (hsize : b.held.size < bufferSize) (byte : UInt8) :
    b.put byte = b.hold byte := by
  simp only [put, hold, if_pos hsize]

theorem put_full (hsize : ¬ b.held.size < bufferSize) (byte : UInt8) :
    b.put byte = b.flush.hold byte := by
  simp only [put, hold, if_neg hsize]

theorem hold_of_whole (h : b.broken = false) (byte : UInt8) :
    b.hold byte = { b with held := b.held.push byte } := if_neg (Bool.eq_false_iff.1 h)

theorem whole_of_hold {byte : UInt8} (h : (b.hold byte).broken = false) : b.broken = false := by
  unfold hold at h
  split at h
  · exact h
  · exact h

theorem all_hold {byte : UInt8} (h : (b.hold byte).broken = false) :
    (b.hold byte).all = b.all.push byte := by
  rw [hold_of_whole (whole_of_hold h)]
  simp [all]

/-- What a buffer is given comes after its bytes, unless the buffer is broken. -/
theorem all_put {byte : UInt8} (h : (b.put byte).broken = false) :
    (b.put byte).all = b.all.push byte := by
  by_cases hsize : b.held.size < bufferSize
  · rw [put_small hsize] at h ⊢
    exact all_hold h
  · rw [put_full hsize] at h ⊢
    rw [all_hold h, all_flush (whole_of_hold h)]

/-! ## In front of a sink that accepts everything -/

/-- A buffer in front of a sink that accepts everything. -/
structure Sound (b : Buffer) : Prop where
  whole : b.broken = false
  reliable : b.sink.room = none

theorem Sound.flush (h : b.Sound) : b.flush.Sound := by
  by_cases hidle : b.broken = true ∨ b.held.isEmpty = true
  · rw [flush_idle hidle]
    exact h
  · have hw := Sink.write_unlimited h.reliable b.held.toList
    rw [flush_accepted hidle (by rw [hw]), hw]
    exact ⟨rfl, h.reliable⟩

theorem Sound.hold (h : b.Sound) (byte : UInt8) : (b.hold byte).Sound := by
  rw [hold_of_whole h.whole]
  exact ⟨h.whole, h.reliable⟩

theorem Sound.put (h : b.Sound) (byte : UInt8) : (b.put byte).Sound := by
  by_cases hsize : b.held.size < bufferSize
  · rw [put_small hsize]
    exact h.hold byte
  · rw [put_full hsize]
    exact h.flush.hold byte

end Packed.Buffer

end TapeForge
