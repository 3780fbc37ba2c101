import TapeForge.Proofs.FoldedText
import TapeForge.Proofs.PackedBuffer
import TapeForge.Proofs.Unlimited

/-!
# Packed runs refine text runs

A packed run keeps the tape, the data pointer and the unread input of the machine that runs the
text, and in its buffer the output that was not yet handed on. So a text run that is done is matched
by the packed run, and a packed run that comes to an end is matched by a text run which is done as
well or leaves the tape.
-/

namespace TapeForge

open Machine Machine.Action Effect

namespace Packed

/-! ## The machine and the core -/

/-- A packed run keeps track of a machine. -/
structure Tracks (m : Machine) (c : Core) : Prop where
  clean : m.Clean
  tape : c.tape = m.tape
  dp : c.dp = m.dp
  width : c.width = m.width
  unread : (c.input.map Reader.pending).getD [] = m.unread
  reader : ∀ r, c.input = some r → r.fails = false
  buffer : c.output.Sound
  output : c.output.all = m.output.bytes

namespace Tracks

variable {m : Machine} {c : Core}

theorem index? (h : Tracks m c) : c.index? = m.index? m.dp := by
  show (if 0 ≤ c.dp ∧ c.dp.toInt.toNat < c.tape.size then some c.dp.toInt.toNat else none) = _
  rw [h.dp, h.tape]
  rfl

theorem get (h : Tracks m c) (i : Nat) : c.get i = m.get i := by
  rw [Core.get, h.tape]
  rfl

theorem set (h : Tracks m c) (i : Nat) {v : UInt64} (hv : m.width.Fits v) :
    Tracks (m.set i v) (c.set i v) where
  clean := kept_clean.set i h.clean hv
  tape := by rw [Core.set, h.tape]; rfl
  dp := h.dp
  width := h.width
  unread := h.unread
  reader := h.reader
  buffer := h.buffer
  output := h.output

end Tracks

/-- Something is done with the current cell of both. -/
theorem alike_onCell {α : Type} {a : Nat → Action α}
    {f : Nat → Core → EStateM.Result Fault Core α}
    (h : ∀ i m c, Tracks m c → Related Tracks (a i m) (f i c)) :
    Alike Tracks (locate 0 >>= a) (Core.onCell f) := by
  intro m c hmc
  unfold Core.onCell
  rw [hmc.index?]
  cases hi : m.index? m.dp with
  | none =>
      rw [bind_of_error (locate_here_error hi), hmc.dp, hmc.tape]
      exact .error hmc
  | some i =>
      rw [bind_of_ok (locate_here hi)]
      exact h i m c hmc

theorem alike_look : Alike Tracks isOpen Core.look := by
  refine alike_onCell fun i m c hmc => ?_
  rw [hmc.get]
  exact .ok hmc

theorem related_emit (i : Nat) (m : Machine) (c : Core) (h : Tracks m c) :
    Related Tracks ((peek i >>= fun v => emit [v.toUInt8]) m) (c.emit i) := by
  have hput := h.buffer.put (c.get i).toUInt8
  have hm : (peek i >>= fun v => emit [v.toUInt8]) m = .ok () (m.put [(m.get i).toUInt8]) :=
    emit_eq_ok h.clean.reliable _
  have hc : c.emit i = .ok () { c with output := c.output.put (c.get i).toUInt8 } :=
    if_neg (Bool.eq_false_iff.1 hput.whole)
  rw [hm, hc]
  refine .ok ⟨kept_clean.put _ h.clean, h.tape, h.dp, h.width, h.unread, h.reader, hput, ?_⟩
  rw [Buffer.all_put hput.whole, h.output, h.get]
  exact Array.ext' (by simp [Machine.put])

theorem related_read (i : Nat) (m : Machine) (c : Core) (h : Tracks m c) :
    Related Tracks ((readByte >>= fun b => poke i b.toUInt64) m) (c.read i) := by
  obtain ⟨m', hb, hclean, hunread⟩ := readByte_of_clean h.clean
  have hframe := readByte_frame hb
  have hfits := m.width.fits_byte (m.unread.headD 0)
  have hsound := h.buffer.flush
  have hall : c.output.flush.all = m.output.bytes := by
    rw [Buffer.all_flush hsound.whole, h.output]
  -- Whatever the input and the buffer have become, the rest is as it was.
  have htracks : ∀ (input : Option Reader) (output : Buffer),
      (input.map Reader.pending).getD [] = m'.unread → (∀ r, input = some r → r.fails = false) →
      output.Sound → output.all = m.output.bytes → Tracks m' { c with input, output } := by
    intro input output hi hr hs ho
    refine ⟨hclean, ?_, ?_, ?_, hi, hr, hs, ?_⟩
    · rw [hframe]
      exact h.tape
    · rw [hframe]
      exact h.dp
    · rw [hframe]
      exact h.width
    · rw [hframe]
      exact ho
  have hwidth : m'.width = m.width := by rw [hframe]
  rw [bind_of_ok hb, Core.read]
  rw [← hwidth] at hfits
  cases hin : c.input with
  | none =>
      have hnil : m.unread = [] := by rw [← h.unread, hin]; rfl
      rw [hnil] at hfits hunread ⊢
      have ht := htracks none c.output hunread.symm (by simp) h.buffer h.output
      rw [← hin] at ht
      exact .ok (ht.set i hfits)
  | some r =>
      have hpending : r.pending = m.unread := by rw [← h.unread, hin]; rfl
      have hfails := h.reader r hin
      rw [← hpending] at hfits hunread ⊢
      have hwhole : ¬ c.output.flush.broken = true := by simp [hsound.whole]
      simp only [if_neg hwhole]
      -- At the end of its input the packed run drops the reader, and the machine reads zeros.
      cases hp : r.pending with
      | cons b rest =>
          rw [hp] at hfits hunread
          exact .ok ((htracks (some { r with pending := rest }) c.output.flush hunread.symm
            (by rintro _ ⟨⟩; exact hfails) hsound hall).set i hfits)
      | nil =>
          rw [hp] at hfits hunread
          simp only [hfails]
          exact .ok ((htracks none c.output.flush hunread.symm (by simp) hsound hall).set i hfits)

theorem alike_work (l : Lump) : Alike Tracks (doLump l) (Core.work l) := by
  cases l with
  | add n =>
      refine alike_onCell fun i m c hmc => ?_
      rw [hmc.get, hmc.width]
      exact .ok (hmc.set i (Width.fits_cut _ _))
  | clear => exact alike_onCell fun i m c hmc => .ok (hmc.set i (Width.fits_zero _))
  | shift n =>
      intro m c h
      exact .ok ⟨kept_clean.moved n h.clean, h.tape, congrArg (· + n) h.dp, h.width, h.unread,
        h.reader, h.buffer, h.output⟩
  | out => exact alike_onCell related_emit
  | inp => exact alike_onCell related_read

/-! ## Runs -/

/-- A machine and a packed run with the same tape, data pointer and output. -/
structure Agrees (m : Machine) (s : State) : Prop where
  tape : m.tape = s.tape
  dp : m.dp = s.dp
  output : m.output = s.output.sink

theorem sink_eq {s t : Sink} (hbytes : s.bytes = t.bytes) (hroom : s.room = t.room) : s = t := by
  cases s
  cases t
  cases hbytes
  cases hroom
  rfl

/-- What is left in the buffer is handed on, and then the outputs are the same. -/
theorem flush_of_tracks {m : Machine} {c : Core} (h : Tracks m c) :
    c.output.flush.broken = false ∧ m.output = c.output.flush.sink := by
  have hsound := h.buffer.flush
  have hbytes := (Buffer.flush_whole hsound.whole).1
  exact ⟨hsound.whole,
    sink_eq (h.output.symm.trans hbytes.symm) (h.clean.reliable.trans hsound.reliable.symm)⟩

/-- A run that has come to its last word is done. -/
theorem finish_done {m : Machine} {s : State} (h : Tracks m s.core) :
    ∃ s', finish (.done s) = .done s' ∧ Agrees m s' := by
  obtain ⟨hwhole, houtput⟩ := flush_of_tracks h
  exact ⟨{ s with output := s.output.flush }, if_neg (Bool.eq_false_iff.1 hwhole), h.tape.symm,
    h.dp.symm, houtput⟩

theorem finish_failed {m : Machine} {s : State} (h : Tracks m s.core) (e : Stop) :
    ∃ s', finish (.failed e s) = .failed e s' ∧ Agrees m s' :=
  ⟨{ s with output := s.output.flush }, rfl, h.tape.symm, h.dp.symm, (flush_of_tracks h).2⟩

section Effects

variable {b : Block} {m : Machine} {c : Core}

theorem folds_block_fold (b : Block) : Folds b.quiet (fold .none b).quiet := by
  have h := folds_fold .none b
  rwa [Pending.lumps, Lump.effects, List.foldr, skip_seq] at h

theorem core_of_text (h : Tracks m c) {n : Machine} (hb : b.quiet m (.ok () n)) :
    ∃ c', (fold .none b).effect Core.look Core.work c (.ok () c') ∧ Tracks n c' := by
  have hq := ((folds_block_fold b).forth h.clean hb).1
  obtain ⟨r, hr, hrel⟩ := Folded.sim_effect alike_look alike_work (fold .none b) h hq
  cases hrel with
  | ok ht => exact ⟨_, hr, ht⟩

theorem text_of_core (h : Tracks m c) {r : EStateM.Result Fault Core Unit}
    (hr : (fold .none b).effect Core.look Core.work c r) :
    (∃ n c', r = .ok () c' ∧ b.quiet m (.ok () n) ∧ Tracks n c') ∨ Leaves b.quiet m := by
  obtain ⟨r', hr', hrel⟩ := Folded.sim_effect alike_look.swap (fun l => (alike_work l).swap)
    (fold .none b) h hr
  rcases (folds_block_fold b).back h.clean hr' with ⟨n, rfl, hb⟩ | hleaves
  · cases hrel with
    | ok ht => exact Or.inl ⟨n, _, rfl, hb, ht⟩
  · exact Or.inr hleaves

end Effects

section Runs

variable {b : Block} {m : Machine} {s : State} (hlen : b.symbols.length ≤ 16777216)
  (h : Tracks m s.core) (hlimit : m.limit ≤ 0) (hstart : s.ip = 0)

theorem at_core (hstart : s.ip = 0) : s.core.at 0 = s := by
  cases s
  cases hstart
  rfl

include hlen hstart

theorem effect_of_done {fuel : Nat} {s₁ : State}
    (hi : iterate (step (ofCode b.code)) fuel s = .done s₁) :
    (fold .none b).effect Core.look Core.work s.core (.ok () s₁.core) := by
  refine (ends_iterate hlen s.core _).1 ⟨fuel, ?_⟩
  simp only [at_core hstart, hi, Outcome.map]

theorem effect_of_failed {fuel : Nat} {e : Stop} {s₁ : State}
    (hi : iterate (step (ofCode b.code)) fuel s = .failed e s₁) :
    (fold .none b).effect Core.look Core.work s.core (.error e.cause s₁.core) := by
  refine (ends_iterate hlen s.core _).1 ⟨fuel, e, ?_, rfl⟩
  simp only [at_core hstart, hi, Outcome.map]

include hlimit h

/-- A text run that is done is matched by the packed run. -/
theorem run_of_runCode {fuel : Nat} {m' : Machine} (hrun : runCode fuel b.code m = .done m') :
    ∃ fuel' s', run fuel' (ofCode b.code) s = .done s' ∧ Agrees m' s' := by
  obtain ⟨r, hr, hrel⟩ := quiet_of_ends_runCode (r := .ok () m') hlimit ⟨fuel, hrun⟩
  cases hrel with
  | @ok _ _ n hsame =>
      -- From the text to its effect, to the fold on the core, to a run of the words.
      obtain ⟨c', hc', ht⟩ := core_of_text h hr
      obtain ⟨fuel', hf⟩ := (ends_iterate hlen s.core (.ok () c')).2 hc'
      rw [at_core hstart] at hf
      cases hi : iterate (step (ofCode b.code)) fuel' s with
      | done s₁ =>
          simp only [hi, Outcome.map, Outcome.done.injEq] at hf
          subst hf
          obtain ⟨s', hs', hagrees⟩ := finish_done ht
          refine ⟨fuel', s', by rw [run, hi, hs'], ?_⟩
          exact ⟨hsame.tape.trans hagrees.tape, hsame.dp.trans hagrees.dp,
            hsame.output.trans hagrees.output⟩
      | failed e s₁ => simp [hi, Outcome.map] at hf
      | pending s₁ => simp [hi, Outcome.map] at hf

omit hlen hstart h in
theorem leavesTape_of_leaves (hb : Leaves b.quiet m) :
    ∃ pos length output, LeavesTape (runCode · b.code m) pos length output := by
  obtain ⟨pos, length, n, hb⟩ := hb
  obtain ⟨r, hr, hrel⟩ := ends_runCode_of_quiet hlimit hb
  cases hrel with
  | error _ =>
      obtain ⟨fuel, failure, hf, hfault⟩ := hr
      exact ⟨pos, length, _, fuel, failure, _, hf, hfault, rfl⟩

/-- A packed run that is done is matched by a text run that is done, or leaves the tape. -/
theorem runCode_of_done {fuel : Nat} {s' : State}
    (hrun : run fuel (ofCode b.code) s = .done s') :
    (∃ fuel' m', runCode fuel' b.code m = .done m' ∧ Agrees m' s') ∨
      ∃ pos length output, LeavesTape (runCode · b.code m) pos length output := by
  cases hi : iterate (step (ofCode b.code)) fuel s with
  | failed e s₁ => simp [run, hi, finish] at hrun
  | pending s₁ => simp [run, hi, finish] at hrun
  | done s₁ =>
      rcases text_of_core h (effect_of_done hlen hstart hi) with ⟨n, c', hc', hb, ht⟩ | hleaves
      · cases hc'
        obtain ⟨s₂, hs₂, hagrees⟩ := finish_done ht
        rw [run, hi, hs₂] at hrun
        cases hrun
        obtain ⟨r, hr, hrel⟩ := ends_runCode_of_quiet hlimit hb
        cases hrel with
        | ok hsame =>
            obtain ⟨fuel', hf⟩ := hr
            exact Or.inl ⟨fuel', _, hf, hsame.tape.symm.trans hagrees.tape,
              hsame.dp.symm.trans hagrees.dp, hsame.output.symm.trans hagrees.output⟩
      · exact Or.inr (leavesTape_of_leaves hlimit hleaves)

/-- Where a packed run fails, the text run leaves the tape. -/
theorem leavesTape_of_failed {fuel : Nat} {e : Stop} {s' : State}
    (hrun : run fuel (ofCode b.code) s = .failed e s') :
    ∃ pos length output, LeavesTape (runCode · b.code m) pos length output := by
  refine leavesTape_of_leaves hlimit ?_
  cases hi : iterate (step (ofCode b.code)) fuel s with
  | pending s₁ => simp [run, hi, finish] at hrun
  | failed f s₁ =>
      rcases text_of_core h (effect_of_failed hlen hstart hi) with ⟨n, c', hc', _⟩ | hleaves
      · cases hc'
      · exact hleaves
  | done s₁ =>
      -- The buffer never breaks, so a run that comes to its last word is done.
      rcases text_of_core h (effect_of_done hlen hstart hi) with ⟨n, c', hc', _, ht⟩ | hleaves
      · cases hc'
        obtain ⟨s₂, hs₂, _⟩ := finish_done ht
        rw [run, hi, hs₂] at hrun
        cases hrun
      · exact hleaves

end Runs

/-! ## From a configuration -/

/-- The reader of a packed run: the input, and after it what the live reader delivers. -/
def inputOf (input : Bytes) (live : Option Reader) : Reader :=
  ⟨input ++ (live.map Reader.pending).getD [], false⟩

def start (tape : Array UInt64) (width : Width) (input : Bytes) (live : Option Reader)
    (sink : Sink) : State :=
  { tape, width, input := some (inputOf input live), output := { sink } }

variable {tape : Array UInt64} {width : Width} {input : Bytes} {live : Option Reader}
  {sink : Sink}

/-- A given tape whose cells are masked is the first tape of the machine. -/
theorem ofConfig_eq (hne : tape ≠ #[]) (hmask : ∀ v ∈ tape, v ≤ width.mask) :
    Machine.ofConfig { cellWidth := .ofNat width.bytes, tape, input, live, output := sink } =
      .ok { tape, width, input := input.toArray, live, output := sink } := by
  have hwidth : Width.ofBytes? (orDefault (.ofNat width.bytes) defaultCellWidth) = some width := by
    cases width <;> rfl
  have hcut : tape.map (· &&& width.mask) = tape := by
    conv => rhs; rw [← Array.map_id tape]
    exact Array.map_congr_left fun v hv => Width.cut_eq_self (w := width) (hmask v hv)
  have htape : initialTape { cellWidth := .ofNat width.bytes, tape, input, live, output := sink }
      width = .ok tape := by
    simp only [initialTape]
    rw [if_neg (by simpa using hne), hcut]
  simp only [Machine.ofConfig, hwidth, htape]
  rfl

/-- A packed run starts on the tape of the machine, with its input in one reader or in none. -/
theorem tracks_fresh {stdin : Option Reader} (hmask : ∀ v ∈ tape, v ≤ width.mask)
    (hlive : ∀ r, live = some r → r.fails = false) (hstdin : ∀ r, stdin = some r → r.fails = false)
    (hinput : (stdin.map Reader.pending).getD [] = input ++ (live.map Reader.pending).getD [])
    (hsink : sink.room = none) :
    Tracks { tape, width, input := input.toArray, live, output := sink }
      (State.core { tape, width, input := stdin, output := { sink } }) where
  clean := ⟨hmask, hsink, Nat.zero_le _, hlive⟩
  tape := rfl
  dp := rfl
  width := rfl
  unread := hinput
  reader := hstdin
  buffer := ⟨rfl, hsink⟩
  output := Array.append_empty

theorem tracks_start (hmask : ∀ v ∈ tape, v ≤ width.mask)
    (hlive : ∀ r, live = some r → r.fails = false) (hsink : sink.room = none) :
    Tracks { tape, width, input := input.toArray, live, output := sink }
      (start tape width input live sink).core :=
  tracks_fresh hmask hlive (by rintro r ⟨⟩; rfl) rfl hsink

/-- Text of at most 2^24 symbols packed and run from a tape of masked cells, with a reliable
output and input, against the machine that runs the text. Every stream is finite: a reader delivers
its bytes and is then at its end. Where the text run is done, so is the packed run, with the same
tape, data pointer and output. Where the packed run is done, so is the text run, unless it leaves
the tape; and where the packed run fails or panics, the text run leaves the tape. -/
theorem run_refines_runCode (src : Bytes) (code : Code) (tape : Array UInt64) (width : Width)
    (input : Bytes) (live : Option Reader) (sink : Sink) (hsrc : Code.compile src = .ok code)
    (hlen : code.symbols.size ≤ 0x1000000) (hne : tape ≠ #[]) (hmask : ∀ v ∈ tape, v ≤ width.mask)
    (hlive : ∀ r, live = some r → r.fails = false) (hsink : sink.room = none) :
    ∃ m packed,
      Machine.ofConfig
        { cellWidth := .ofNat width.bytes, tape, input, live, output := sink } = .ok m ∧
      compile src = .ok packed ∧
      (∀ fuel m', runCode fuel code m = .done m' → ∃ fuel' s',
        run fuel' packed (start tape width input live sink) = .done s' ∧ Agrees m' s') ∧
      (∀ fuel s', run fuel packed (start tape width input live sink) = .done s' →
        (∃ fuel' m', runCode fuel' code m = .done m' ∧ Agrees m' s') ∨
          ∃ pos length output, LeavesTape (runCode · code m) pos length output) ∧
      ∀ fuel e s', run fuel packed (start tape width input live sink) = .failed e s' →
        ∃ pos length output, LeavesTape (runCode · code m) pos length output := by
  obtain ⟨b, _, rfl⟩ := Code.exists_block hsrc
  have hblock : b.symbols.length ≤ 16777216 := by simpa [Block.code] using hlen
  have ht : Tracks _ (start tape width input live sink).core := tracks_start hmask hlive hsink
  have hlimit : (0 : Int64) ≤ 0 := Int64.le_refl 0
  refine ⟨_, ofCode b.code, ofConfig_eq hne hmask, by rw [compile, hsrc], ?_, ?_, ?_⟩
  · intro fuel m' hrun
    exact run_of_runCode hblock ht hlimit rfl hrun
  · intro fuel s' hrun
    exact runCode_of_done hblock ht hlimit rfl hrun
  · intro fuel e s' hrun
    exact leavesTape_of_failed hblock ht hlimit rfl hrun

/-- The text `,[.,]` echoes its input and what the live reader delivers. -/
theorem run_refines_runCode_echo :
    ∃ m packed,
      Machine.ofConfig { cellWidth := .ofNat Width.two.bytes, tape := #[0, 7], input := [104],
                         live := some ⟨[105, 10], false⟩, output := {} } = .ok m ∧
      compile [44, 91, 46, 44, 93] = .ok packed ∧
      ∀ fuel m', runCode fuel
          (Block.plain .inp (.loop (.plain .out (.plain .inp .nil)) .nil)).code m = .done m' →
        ∃ fuel' s', run fuel' packed
          (start #[0, 7] .two [104] (some ⟨[105, 10], false⟩) {}) = .done s' ∧ Agrees m' s' := by
  have hfits : ∀ v ∈ #[(0 : UInt64), 7], Width.Fits .two v := by
    intro v hv
    simp only [List.mem_toArray, List.mem_cons, List.not_mem_nil, or_false] at hv
    rcases hv with rfl | rfl <;> decide
  obtain ⟨m, packed, hm, hpacked, h, -⟩ := run_refines_runCode [44, 91, 46, 44, 93]
    (Block.plain .inp (.loop (.plain .out (.plain .inp .nil)) .nil)).code #[0, 7] .two [104]
    (some ⟨[105, 10], false⟩) {}
    (Code.compile_block (.plain .inp (.loop (.plain .out (.plain .inp .nil)) .nil))) (by decide)
    (by decide) hfits (by simp) rfl
  exact ⟨m, packed, hm, hpacked, h⟩

end Packed

end TapeForge
