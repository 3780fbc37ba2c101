import TapeForge.Proofs.InputHistory
import TapeForge.Proofs.OutputRoom
import TapeForge.Proofs.PackedRefines

/-!
# Packed output into a bounded sink

A packed run emits through a buffer. Each step asks the buffer for one thing at most and looks at
nothing of it but whether it is broken. So a bounded sink is seen only when bytes are handed on, and
then it gets what it would have got without a bound, cut off where its room ends; and a byte is
read only when the buffer is empty.
-/

namespace TapeForge

def Stage.map {ε σ τ : Type} (f : σ → τ) : Stage ε σ → Stage ε τ
  | next s => next (f s)
  | halt s => halt (f s)
  | fail e s => fail e (f s)

theorem Stage.state_map {ε σ τ : Type} (f : σ → τ) (r : Stage ε σ) :
    (r.map f).state = f r.state := by
  cases r <;> rfl

theorem Outcome.Settled.of_map {ε σ τ : Type} {f : σ → τ} {r : Outcome ε σ}
    (h : (r.map f).Settled) : r.Settled := by
  cases r <;> exact h

namespace Packed

/-! ## What a step asks of the buffer -/

/-- What may be asked of a buffer. -/
inductive Demand where
  | nothing
  /-- To take a byte that is emitted. -/
  | put (byte : UInt8)
  /-- To hand on what it holds. -/
  | flush

namespace Demand

def meet : Demand → Buffer → Buffer
  | nothing, b => b
  | put byte, b => b.put byte
  | flush, b => b.flush

def emitted : Demand → Bytes
  | put byte => [byte]
  | _ => []

end Demand

/-- What work on the cell with an index asks of the buffer. -/
def demandAt (s : State) (v : Verb) (i : Nat) : Demand :=
  match v with
  | .out => .put (s.tape.getD i 0).toUInt8
  | .inp => if s.input.isSome then .flush else .nothing
  | _ => .nothing

/-- What the next step asks of the buffer. -/
def demand (code : Assembly) (s : State) : Demand :=
  if s.ip < 0 then .nothing
  else
    match code.words[s.ip.toNat]?.bind Word.verb?, s.index? with
    | some v, some i => demandAt s v i
    | _, _ => .nothing

def State.over (s : State) (b : Buffer) : State := { s with output := b }

/-- The state with an empty buffer in front of a sink without a bound. -/
def State.free (s : State) : State := s.over { sink := {} }

theorem map_over_over (r : Stage Stop State) (b c : Buffer) :
    (r.map (·.over b)).map (·.over c) = r.map (·.over c) := by
  cases r <;> rfl

/-- A step after which a demand has been met. It fails when that broke the buffer. -/
def Demand.conclude (d : Demand) (s : State) (r : Stage Stop State) : Stage Stop State :=
  if (d.meet s.output).broken then .fail (.fault .writeFailed) (s.over (d.meet s.output))
  else r.map (·.over (d.meet s.output))

/-! ## Steps -/

/-- What a step is apart from the buffer: the work of a word on a cell, or something else, which
asks nothing of the buffer and keeps the input. -/
inductive Turn (code : Assembly) (s : State) : Prop
  | work {v : Verb} {arg : Int64} {i : Nat} : demand code s = demandAt s v i →
      (∀ b, step code (s.over b) = doWord code.far (s.over b) v arg i) → Turn code s
  | idle {r : Stage Stop State} : demand code s = .nothing → r.state.input = s.input →
      (∀ b, step code (s.over b) = r.map (·.over b)) → Turn code s

section Cases

variable {code : Assembly} {s : State} {w : Word} {i : Nat}

theorem step_past (hip : ¬ s.ip < 0) (hw : code.words[s.ip.toNat]? = none) :
    step code s = .halt s := by
  rw [step, if_neg hip, hw]

theorem step_along (hip : ¬ s.ip < 0) (hw : code.words[s.ip.toNat]? = some w)
    (hv : w.verb? = some .shift) :
    step code s = .next { s with dp := s.dp + w.arg, ip := s.ip + 1 } := by
  rw [step, if_neg hip, hw]
  simp only [hv]

theorem step_off (hip : ¬ s.ip < 0) (hw : code.words[s.ip.toNat]? = some w)
    (hv : w.verb? ≠ some .shift) (hi : s.index? = none) :
    step code s = .fail (.fault (.outOfBounds s.dp s.tape.size)) s := by
  rw [step, if_neg hip, hw]
  simp only [hi]

theorem step_blank (hip : ¬ s.ip < 0) (hw : code.words[s.ip.toNat]? = some w)
    (hv : w.verb? = none) (hi : s.index? = some i) : step code s = .next s.advance := by
  rw [step, if_neg hip, hw]
  simp only [hv, hi]

theorem step_word (hip : ¬ s.ip < 0) (hw : code.words[s.ip.toNat]? = some w) {v : Verb}
    (hv : w.verb? = some v) (hi : s.index? = some i) :
    step code s = doWord code.far s v w.arg i := by
  rw [step, if_neg hip, hw]
  simp only [hv, hi]
  cases v <;> rfl

end Cases

theorem turn (code : Assembly) (s : State) : Turn code s := by
  by_cases hip : s.ip < 0
  · exact .idle (r := .fail .panic s) (if_pos hip) rfl fun b => if_pos hip
  have hdemand : demand code s = _ := if_neg hip
  cases hw : code.words[s.ip.toNat]? with
  | none =>
      rw [hw] at hdemand
      exact .idle (r := .halt s) hdemand rfl fun b => step_past (s := s.over b) hip hw
  | some w =>
      rw [hw, Option.bind_some] at hdemand
      cases hi : s.index? with
      | some i =>
          rw [hi] at hdemand
          cases hv : w.verb? with
          | none =>
              rw [hv] at hdemand
              exact .idle (r := .next s.advance) hdemand rfl
                fun b => step_blank (s := s.over b) hip hw hv hi
          | some v =>
              rw [hv] at hdemand
              exact .work hdemand fun b => step_word (s := s.over b) hip hw hv hi
      | none =>
          have hnothing : demand code s = .nothing := by
            rw [hdemand, hi]
            cases w.verb? <;> rfl
          by_cases hv : w.verb? = some .shift
          -- Off the tape only a shift goes on.
          · exact .idle (r := .next { s with dp := s.dp + w.arg, ip := s.ip + 1 }) hnothing rfl
              fun b => step_along (s := s.over b) hip hw hv
          · exact .idle (r := .fail (.fault (.outOfBounds s.dp s.tape.size)) s) hnothing rfl
              fun b => step_off (s := s.over b) hip hw hv hi

section Steps

theorem hop_over (s : State) (p : Prop) [Decidable p] (arg : Int64) (b : Buffer) :
    (if p then s.jump arg else s.advance) =
      (if p then (s.over b).jump arg else (s.over b).advance).over s.output := by
  split <;> rfl

theorem farHop_input (far : Array Int64) (s : State) (p : Prop) [Decidable p] (arg : Int64) :
    (if p then farJump far s arg else .next s.advance).state.input = s.input := by
  split
  · unfold farJump
    split
    · rfl
    · cases far[arg.toInt.toNat]? <;> rfl
  · rfl

theorem farHop_over (far : Array Int64) (s : State) (p : Prop) [Decidable p] (arg : Int64)
    (b : Buffer) :
    (if p then farJump far s arg else .next s.advance) =
      (if p then farJump far (s.over b) arg else .next (s.over b).advance).map
        (·.over s.output) := by
  split
  · unfold farJump
    split
    · rfl
    · cases far[arg.toInt.toNat]? <;> rfl
  · rfl

theorem doWord_input (far : Array Int64) (s : State) (v : Verb) (arg : Int64) (i : Nat) :
    (doWord far s v arg i).state.input = s.input ∨ demandAt s v i = .flush := by
  cases v with
  | add | shift | clear => exact .inl rfl
  | out =>
      refine .inl ?_
      simp only [doWord]
      split <;> rfl
  | inp =>
      obtain ⟨ip, dp, tape, width, input, output⟩ := s
      cases input with
      | none => exact .inl rfl
      | some r => exact .inr rfl
  | jumpZero =>
      refine .inl ?_
      simp only [doWord, Stage.state]
      split <;> rfl
  | jumpNonZero =>
      refine .inl ?_
      simp only [doWord, Stage.state]
      split <;> rfl
  | farJumpZero => exact .inl (farHop_input far s _ arg)
  | farJumpNonZero => exact .inl (farHop_input far s _ arg)

variable {s : State} (h : s.output.broken = false)

include h

theorem concludes_nothing {r r' : Stage Stop State} (hr : r = r'.map (·.over s.output)) :
    r = Demand.nothing.conclude s r' :=
  hr.trans (if_neg (by simp [Demand.meet, h])).symm

theorem readInto_over (i : Nat) :
    readInto s i = (if s.input.isSome then Demand.flush else .nothing).conclude s
      (readInto s.free i) := by
  obtain ⟨ip, dp, tape, width, input, output⟩ := s
  cases input with
  | none => exact concludes_nothing h rfl
  | some r =>
      obtain ⟨pending, fails⟩ := r
      by_cases hb : output.flush.broken = true
      · exact (if_pos hb).trans (if_pos hb).symm
      · refine (if_neg hb).trans (Eq.trans ?_ (if_neg hb).symm)
        cases pending with
        | cons b rest => rfl
        | nil => cases fails <;> rfl

theorem doWord_over (far : Array Int64) (v : Verb) (arg : Int64) (i : Nat) :
    doWord far s v arg i = (demandAt s v i).conclude s
      (doWord far s.free v arg i) := by
  cases v with
  | add => exact concludes_nothing h rfl
  | shift => exact concludes_nothing h rfl
  | clear => exact concludes_nothing h rfl
  | out =>
      by_cases hb : (s.output.put (s.tape.getD i 0).toUInt8).broken = true
      · exact (if_pos hb).trans (if_pos hb).symm
      · exact (if_neg hb).trans (if_neg hb).symm
  | inp => exact readInto_over h i
  | jumpZero => exact concludes_nothing h (congrArg Stage.next (hop_over s _ arg _))
  | jumpNonZero => exact concludes_nothing h (congrArg Stage.next (hop_over s _ arg _))
  | farJumpZero => exact concludes_nothing h (farHop_over far s _ arg _)
  | farJumpNonZero => exact concludes_nothing h (farHop_over far s _ arg _)

/-- A step does what it does over an empty buffer without a bound, unless it breaks its own. -/
theorem step_over (code : Assembly) :
    step code s = (demand code s).conclude s (step code s.free) := by
  cases turn code s with
  | work hdemand hstep =>
      rw [hdemand, State.free, hstep]
      exact (hstep s.output).trans (doWord_over h _ _ _ _)
  | idle hdemand _ hstep =>
      rw [hdemand, State.free, hstep]
      exact concludes_nothing h ((hstep s.output).trans (map_over_over _ _ _).symm)

omit h in
/-- A step that changes the input hands on what the buffer holds. -/
theorem step_input (code : Assembly) :
    (step code s).state.input = s.input ∨ demand code s = .flush := by
  cases turn code s with
  | work hdemand hstep =>
      rw [hdemand, show step code s = _ from hstep s.output]
      exact doWord_input _ _ _ _ _
  | idle _ hinput hstep =>
      rw [show step code s = _ from hstep s.output, Stage.state_map]
      exact .inl hinput

end Steps

/-! ## Buffers -/

namespace Buffer

/-- What is emitted comes after the bytes of a buffer, unless the buffer is broken. -/
theorem all_meet {d : Demand} {b : Buffer} (h : (d.meet b).broken = false) :
    (d.meet b).all.toList = b.all.toList ++ d.emitted := by
  cases d with
  | nothing => exact (List.append_nil _).symm
  | flush => exact (congrArg Array.toList (all_flush h)).trans (List.append_nil _).symm
  | put byte => exact (congrArg Array.toList (all_put h)).trans Array.toList_push

theorem Sound.meet {b : Buffer} (h : b.Sound) (d : Demand) : (d.meet b).Sound := by
  cases d with
  | nothing => exact h
  | put byte => exact h.put byte
  | flush => exact h.flush

/-- A buffer that is not broken, in front of a sink with room for `cap` bytes. -/
structure Limited (cap : Nat) (b : Buffer) : Prop where
  whole : b.broken = false
  holds : b.sink.Holds cap

/-- The same buffer in front of the sink without its bound. -/
def unbounded (b : Buffer) : Buffer := { b with sink := b.sink.unbounded }

theorem Limited.sound {cap : Nat} {b : Buffer} (h : b.Limited cap) : b.unbounded.Sound :=
  ⟨h.whole, rfl⟩

/-- What is asked of a buffer either is done, as it is without the bound, or breaks the buffer,
which without the bound would have handed on and hold too many bytes. -/
inductive Meets (cap : Nat) (d : Demand) (b : Buffer) : Prop
  | fits : (d.meet b).Limited cap → d.meet b.unbounded = (d.meet b).unbounded → Meets cap d b
  | overruns : (d.meet b).broken = true →
      Overrun cap (d.meet b).sink.bytes (d.meet b.unbounded).all → Meets cap d b

variable {cap : Nat} {b : Buffer}

theorem Limited.flush (h : b.Limited cap) : Meets cap .flush b := by
  by_cases hidle : b.broken = true ∨ b.held.isEmpty = true
  · have hsame : Demand.flush.meet b = b := flush_idle hidle
    refine .fits ?_ ?_
    · rw [hsame]
      exact h
    · rw [hsame]
      exact flush_idle (b := b.unbounded) hidle
  · have hfree : Demand.flush.meet b.unbounded =
        { sink := { bytes := b.sink.bytes ++ b.held.toList, room := none } } :=
      flush_accepted (b := b.unbounded) hidle rfl
    cases h.holds.writes b.held.toList with
    | fits hok hbytes hholds =>
        have hflush : Demand.flush.meet b = { sink := (b.sink.write b.held.toList).1 } :=
          flush_accepted hidle hok
        refine .fits ?_ ?_
        · rw [hflush]
          exact ⟨rfl, hholds⟩
        · rw [hflush, hfree, Buffer.unbounded, Sink.unbounded, hbytes]
    | overruns hfail hover _ =>
        obtain ⟨hbroken, hsink⟩ := flush_refused hidle hfail
        refine .overruns hbroken ?_
        show Overrun cap b.flush.sink.bytes _
        rw [hsink, hfree, Buffer.all, Array.append_empty]
        exact hover

theorem Limited.hold (h : b.Limited cap) (byte : UInt8) :
    (b.hold byte).Limited cap ∧ b.unbounded.hold byte = (b.hold byte).unbounded := by
  rw [hold_of_whole h.whole, hold_of_whole (b := b.unbounded) h.whole]
  exact ⟨⟨h.whole, h.holds⟩, rfl⟩

theorem Limited.put (h : b.Limited cap) (byte : UInt8) : Meets cap (.put byte) b := by
  by_cases hsize : b.held.size < bufferSize
  · obtain ⟨hlimited, hsame⟩ := h.hold byte
    rw [← put_small hsize byte] at hlimited hsame
    exact .fits hlimited ((put_small (b := b.unbounded) hsize byte).trans hsame)
  · have hput := put_full hsize byte
    have hfree := put_full (b := b.unbounded) hsize byte
    cases h.flush with
    | fits hflush hsame =>
        obtain ⟨hlimited, hhold⟩ := hflush.hold byte
        refine .fits ?_ ?_
        · show (b.put byte).Limited cap
          rw [hput]
          exact hlimited
        · calc b.unbounded.put byte
            _ = b.unbounded.flush.hold byte := hfree
            _ = b.flush.unbounded.hold byte := congrArg (Buffer.hold · byte) hsame
            _ = (b.flush.hold byte).unbounded := hhold
            _ = (b.put byte).unbounded := by rw [hput]
    | overruns hbroken hover =>
        -- A buffer that breaks when it is handed on does not take the byte.
        have hsame : Demand.meet (.put byte) b = Demand.flush.meet b :=
          hput.trans (if_pos hbroken)
        refine .overruns (hsame ▸ hbroken) ?_
        rw [hsame]
        refine hover.grow ?_
        rw [all_meet (h.sound.meet .flush).whole, all_meet (h.sound.meet (.put byte)).whole]
        exact (List.prefix_append_right_inj _).2 List.nil_prefix

theorem Limited.meets (h : b.Limited cap) (d : Demand) : Meets cap d b := by
  cases d with
  | nothing => exact .fits h rfl
  | put byte => exact h.put byte
  | flush => exact h.flush

end Buffer

/-! ## Runs -/

def State.unbounded (s : State) : State := s.over s.output.unbounded

/-- A run with room for `cap` bytes goes on beside the run without the bound. -/
def Keeps (cap : Nat) (s u : State) : Prop := u = s.unbounded ∧ s.output.Limited cap

/-- The run has broken its buffer, and the run without the bound has emitted too much. -/
def Breaks (cap : Nat) (s u : State) : Prop :=
  s.output.broken = true ∧ u.output.Sound ∧ Overrun cap s.output.sink.bytes u.output.all

section Runs

variable {cap : Nat} (code : Assembly)

theorem output_step {s : State} (h : s.output.broken = false) :
    (step code s).state.output = (demand code s).meet s.output := by
  rw [step_over h, Demand.conclude]
  split
  · rfl
  · rw [Stage.state_map]
    rfl

theorem abreast_step {s u : State} (h : Keeps cap s u) :
    Stage.Abreast (Keeps cap) (fun _ => True) (fun _ => Breaks cap) (step code s)
      (step code u) := by
  obtain ⟨rfl, hs⟩ := h
  -- The two steps differ in their buffers only, so both are the step without a buffer.
  have hsound : ((demand code s).meet s.output.unbounded).Sound := hs.sound.meet _
  have hfree : step code s.unbounded =
      (step code s.free).map (·.over ((demand code s).meet s.output.unbounded)) :=
    (step_over (s := s.unbounded) hs.whole code).trans (if_neg (Bool.eq_false_iff.1 hsound.whole))
  rw [step_over hs.whole code, Demand.conclude]
  cases hs.meets (demand code s) with
  | fits hlimited hsame =>
      rw [if_neg (by simp [hlimited.whole]), hfree, hsame]
      cases step code s.free with
      | next t => exact .next ⟨rfl, hlimited⟩
      | halt t => exact .halt ⟨rfl, hlimited⟩
      | fail e t => exact .fail trivial ⟨rfl, hlimited⟩
  | overruns hbroken hover =>
      rw [if_pos hbroken]
      refine .parted ⟨hbroken, ?_⟩
      rw [hfree, Stage.state_map]
      exact ⟨hsound, hover⟩

/-- A step into a sink without a bound emits after what was there. -/
theorem sound_step {s : State} (h : s.output.Sound) :
    (step code s).state.output.Sound ∧
      s.output.all.toList <+: (step code s).state.output.all.toList := by
  have hmeet := h.meet (demand code s)
  rw [output_step code h.whole, Buffer.all_meet hmeet.whole]
  exact ⟨hmeet, List.prefix_append _ _⟩

theorem breaks_step {s u : State} (h : Breaks cap s u) : Breaks cap s (step code u).state := by
  obtain ⟨hbroken, hsound, hover⟩ := h
  have hstep := sound_step code hsound
  exact ⟨hbroken, hstep.1, hover.grow hstep.2⟩

theorem abreast_run (fuel : Nat) {s u : State} (h : Keeps cap s u) :
    Outcome.Abreast (Keeps cap) (fun _ => True) (fun _ => Breaks cap)
      (iterate (step code) fuel s) (iterate (step code) fuel u) :=
  abreast_iterate (fun _ _ => abreast_step code) (fun _ _ _ => breaks_step code) fuel h

/-- What a run into a sink without a bound emits comes after what was there. -/
theorem begins_run {before : Bytes} (fuel : Nat) {s : State} (hsound : s.output.Sound)
    (hbegin : before <+: s.output.all.toList) :
    before <+: (iterate (step code) fuel s).state.output.all.toList := by
  refine (state_iterate (I := fun s : State => s.output.Sound ∧ before <+: s.output.all.toList) ?_
    fuel ⟨hsound, hbegin⟩).2
  rintro t ⟨ht, hb⟩
  have hstep := sound_step code ht
  exact ⟨hstep.1, hb.trans hstep.2⟩

end Runs

/-! ## What is left in the buffer -/

section Finish

variable {r r' : Outcome Stop State}

theorem settled_finish : (finish r).Settled ↔ r.Settled := by
  cases r with
  | done s =>
      simp only [finish]
      split <;> exact Iff.rfl
  | failed e s => exact Iff.rfl
  | pending s => exact Iff.rfl

theorem state_finish (h : r.Settled) : (finish r).state = r.state.over r.state.output.flush := by
  cases r with
  | done s =>
      simp only [finish]
      split <;> rfl
  | failed e s => rfl
  | pending s => exact h.elim

theorem error?_finish_whole (h : r.state.output.flush.broken = false) :
    (finish r).error? = r.error? := by
  cases r with
  | done s =>
      have hb : ¬ s.output.flush.broken = true := by
        simp [show s.output.flush.broken = false from h]
      simp only [finish, if_neg hb]
      rfl
  | failed e s => rfl
  | pending s => rfl

theorem error?_finish_broken (hr : r.Settled) (h : r.state.output.flush.broken = true) :
    ∃ f, (finish r).error? = some f := by
  cases r with
  | done s =>
      have hb : s.output.flush.broken = true := h
      simp only [finish, if_pos hb]
      exact ⟨_, rfl⟩
  | failed e s => exact ⟨e, rfl⟩
  | pending s => exact hr.elim

def State.delivered (s : State) : Array UInt8 := s.output.sink.bytes

theorem delivered_finish_of_sound (hr : r.Settled) (h : r.state.output.Sound) :
    (finish r).state.delivered = r.state.output.all := by
  rw [state_finish hr]
  exact (Buffer.flush_whole h.flush.whole).1

/-- Both runs have come to their ends side by side, and hand on what is left. -/
theorem curtails_of_keeps {before : Array UInt8} {k : Nat} (hr : r.Settled) (hr' : r'.Settled)
    (herror : r'.error? = r.error?) (hkeeps : Keeps (before.size + k) r'.state r.state)
    (hbegin : before.toList <+: r.state.output.all.toList) :
    Curtails k before State.delivered (finish r) (finish r') := by
  obtain ⟨hsame, hlimited⟩ := hkeeps
  have hsound : r.state.output.Sound := by
    rw [hsame]
    exact hlimited.sound
  have hall := delivered_finish_of_sound hr hsound
  have hdelivered : (finish r').state.delivered = r'.state.output.flush.sink.bytes := by
    rw [state_finish hr']
    rfl
  cases hlimited.flush with
  | fits hfits heq =>
      have hbytes : (finish r').state.delivered = (finish r).state.delivered := by
        rw [hall, hdelivered, ← (Buffer.flush_whole hsound.flush.whole).1, hsame]
        exact (congrArg (·.sink.bytes) heq).symm
      refine curtails_of_fits (settled_finish.2 hr') ?_ hbytes (hall ▸ hbegin) ?_
      · rw [error?_finish_whole hfits.whole, herror,
          error?_finish_whole hsound.flush.whole]
      · obtain ⟨j, -, hcap⟩ := hfits.holds
        rw [← hbytes, hdelivered, ← hcap]
        exact Nat.le_add_right _ j
  | overruns hbroken hover =>
      -- What does not fit shows only when the rest is handed on at the end.
      obtain ⟨f, hf⟩ := error?_finish_broken hr' hbroken
      refine curtails_of_overrun (settled_finish.2 hr') hf (hall ▸ hbegin) ?_
      rw [hall, hdelivered, ← Buffer.all_flush hsound.flush.whole, hsame]
      exact hover

/-- The bounded run has broken its buffer, and the other one has emitted too much. -/
theorem curtails_of_breaks {before : Array UInt8} {k : Nat} {e : Stop} {s : State}
    (hr : r.Settled) (hbreaks : Breaks (before.size + k) s r.state)
    (hbegin : before.toList <+: r.state.output.all.toList) :
    Curtails k before State.delivered (finish r) (finish (.failed e s)) := by
  obtain ⟨hbroken, hsound, hover⟩ := hbreaks
  have hall := delivered_finish_of_sound hr hsound
  have hflush : s.output.flush = s.output := if_pos (.inl hbroken)
  refine curtails_of_overrun trivial rfl (hall ▸ hbegin) ?_
  rw [hall]
  show Overrun _ s.output.flush.sink.bytes _
  rw [hflush]
  exact hover

end Finish

/-! ## Executions -/

section Execution

variable {s : State} {sink : Sink} (hs : s.output = { sink }) (hroom : sink.room = none)

include hs

theorem all_of_fresh : s.output.all = sink.bytes := by
  rw [hs, Buffer.all, Array.append_empty]

include hroom

theorem curtails_run (code : Assembly) (k fuel : Nat) (hsettled : (run fuel code s).Settled) :
    Curtails k sink.bytes State.delivered (run fuel code s)
      (run fuel code (s.over { sink := sink.limit k })) := by
  have hkeeps : Keeps (sink.bytes.size + k) (s.over { sink := sink.limit k }) s := by
    refine ⟨?_, rfl, k, rfl, rfl⟩
    rw [State.unbounded, State.over, State.over]
    simp only [Buffer.unbounded, Sink.unbounded, Sink.limit, ← hroom, ← hs]
  have hsound : s.output.Sound := by
    rw [hs]
    exact ⟨rfl, hroom⟩
  have hstart : sink.bytes.toList <+: s.output.all.toList :=
    all_of_fresh hs ▸ List.prefix_rfl
  have hbegin := begins_run code fuel hsound hstart
  have hab := abreast_run code fuel hkeeps
  rw [run, settled_finish] at hsettled
  rw [run, run]
  generalize iterate (step code) fuel s = r at hab hbegin hsettled ⊢
  generalize iterate (step code) fuel (s.over { sink := sink.limit k }) = r' at hab ⊢
  cases hab with
  | done hQ => exact curtails_of_keeps trivial trivial rfl hQ hbegin
  | failed _ hQ => exact curtails_of_keeps trivial trivial rfl hQ hbegin
  | pending _ => exact hsettled.elim
  | parted hbreaks => exact curtails_of_breaks hsettled hbreaks hbegin

end Execution

theorem curtails_execute (tapeLength cellWidth : Int64) (src : Bytes) (input : Option Reader)
    {sink : Sink} (hroom : sink.room = none) (k fuel : Nat)
    (hsettled : (execute fuel tapeLength cellWidth src input sink).Settled) :
    Curtails k sink.bytes Sink.bytes (execute fuel tapeLength cellWidth src input sink)
      (execute fuel tapeLength cellWidth src input (sink.limit k)) := by
  -- Where nothing runs, nothing is emitted.
  have hidle : ∀ e : Stop,
      Curtails k sink.bytes Sink.bytes (.failed e sink) (.failed e (sink.limit k)) :=
    fun e => curtails_of_fits trivial rfl rfl List.prefix_rfl (Nat.le_add_right _ k)
  unfold execute at hsettled ⊢
  cases hw : Width.ofBytes? cellWidth with
  | none => exact hidle _
  | some width =>
      simp only [hw] at hsettled ⊢
      by_cases hlength : tapeLength ≤ 0
      · rw [if_pos hlength, if_pos hlength]
        exact hidle _
      · rw [if_neg hlength] at hsettled ⊢
        rw [if_neg hlength]
        cases hc : compile src with
        | error e => exact hidle _
        | ok code =>
            simp only [hc] at hsettled ⊢
            exact .map (fun s : State => s.output.sink)
              (curtails_run rfl hroom code k fuel hsettled.of_map)

/-! ## Reads -/

theorem whole_of_next (code : Assembly) {s t : State} (h : s.output.broken = false)
    (hstep : step code s = .next t) : t.output.broken = false := by
  have houtput := output_step code h
  rw [step_over h, Demand.conclude] at hstep
  split at hstep
  · cases hstep
  · next hwhole =>
      cases hfree : step code s.free with
      | next u =>
          rw [hfree] at hstep
          cases hstep
          exact Bool.eq_false_iff.2 hwhole
      | halt u =>
          rw [hfree] at hstep
          cases hstep
      | fail e u =>
          rw [hfree] at hstep
          cases hstep

/-- A step that reads has delivered everything that was emitted. -/
theorem delivered_step (code : Assembly) {s : State} (h : s.output.broken = false)
    (hread : (step code s).state.input ≠ s.input) :
    (step code s).state.delivered = s.output.all ∧ (step code s).state.output.held = #[] := by
  have hflush := (step_input code (s := s)).resolve_left hread
  have hwhole : s.output.flush.broken = false := by
    by_contra hbroken
    have hbroken' : (Demand.flush.meet s.output).broken = true :=
      (Bool.not_eq_false _).mp hbroken
    rw [step_over h, hflush, Demand.conclude, if_pos hbroken'] at hread
    exact hread rfl
  rw [State.delivered, output_step code h, hflush]
  exact Buffer.flush_whole hwhole

/-- Where a run reads, everything that it has emitted is delivered, and nothing is held back. -/
theorem delivered_at_read (code : Assembly) (fuel : Nat) {s : State}
    (h : s.output.broken = false) {earlier later : List (State × Bool × State)} {t t' : State}
    {ok : Bool} (htrail : trail (step code) fuel s = earlier ++ (t, ok, t') :: later)
    (hread : t'.input ≠ t.input) :
    t'.delivered.toList =
        s.output.all.toList ++ earlier.flatMap (fun x => (demand code x.1).emitted) ∧
      t'.output.held = #[] := by
  induction fuel generalizing s earlier with
  | zero => simp [trail] at htrail
  | succ fuel ih =>
      -- The read may be the first step; whether that step succeeds does not matter.
      have hhere : t'.input ≠ s.input → (step code s).state = t' →
          t'.delivered.toList = s.output.all.toList ++ [] ∧ t'.output.held = #[] := by
        rintro hread rfl
        obtain ⟨hdelivered, hheld⟩ := delivered_step code h hread
        rw [hdelivered, List.append_nil]
        exact ⟨rfl, hheld⟩
      rw [trail] at htrail
      cases hstep : step code s with
      | halt u => simp [hstep] at htrail
      | fail e u =>
          simp only [hstep] at htrail
          cases earlier with
          | nil =>
              cases htrail
              exact hhere hread (congrArg Stage.state hstep)
          | cons x earlier => simp at htrail
      | next u =>
          simp only [hstep] at htrail
          cases earlier with
          | nil =>
              cases htrail
              exact hhere hread (congrArg Stage.state hstep)
          | cons x earlier =>
              obtain ⟨rfl, htail⟩ := List.cons.inj htrail
              have hu := whole_of_next code h hstep
              have houtput := output_step code h
              rw [hstep] at houtput
              change u.output = _ at houtput
              have hlater := ih hu htail
              rw [houtput, Buffer.all_meet (houtput ▸ hu), List.append_assoc] at hlater
              rw [List.flatMap_cons]
              exact hlater

end Packed

open Packed in
/-- Calls of the machine and packed executions of text, into a sink with room for `k` more bytes,
come to an end where they do without the bound, and deliver what fits. A packed run from an empty
buffer, into any sink, has delivered everything that it has emitted whenever it reads. -/
theorem delivers_what_fits (k fuel : Nat) :
    (∀ (c : Machine.Call) (m : Machine), m.output.room = none → (c.run fuel m).Settled →
      Curtails k m.output.bytes (·.output.bytes) (c.run fuel m)
        (c.run fuel { m with output := m.output.limit k })) ∧
    (∀ (tapeLength cellWidth : Int64) (src : Bytes) (input : Option Reader) (sink : Sink),
      sink.room = none → (execute fuel tapeLength cellWidth src input sink).Settled →
      Curtails k sink.bytes Sink.bytes (execute fuel tapeLength cellWidth src input sink)
        (execute fuel tapeLength cellWidth src input (sink.limit k))) ∧
    ∀ (code : Assembly) (s : State) (sink : Sink), s.output = { sink } →
      ∀ earlier t ok t' later,
        trail (step code) fuel s = earlier ++ (t, ok, t') :: later → t'.input ≠ t.input →
        t'.delivered.toList =
            sink.bytes.toList ++ earlier.flatMap (fun x => (demand code x.1).emitted) ∧
          t'.output.held = #[] := by
  refine ⟨fun c m hroom => c.curtails_run hroom k fuel,
    fun tapeLength cellWidth src input sink hroom =>
      curtails_execute tapeLength cellWidth src input hroom k fuel, ?_⟩
  intro code s sink hs earlier t ok t' later htrail hread
  have hwhole : s.output.broken = false := by rw [hs]
  rw [← all_of_fresh hs]
  exact delivered_at_read code fuel hwhole htrail hread

/-- Two of three bytes fit, whether they are written at once or one after the other; and a byte
written before a read is delivered when that read is done. -/
theorem delivers_what_fits_two_of_three :
    Curtails 2 #[] (·.output.bytes)
        ((Machine.Call.direct [.writeS [104, 105, 33]]).run 9 { tape := #[0], width := .one })
        ((Machine.Call.direct [.writeS [104, 105, 33]]).run 9
          { tape := #[0], width := .one, output := { room := some 2 } }) ∧
      Curtails 2 #[] Sink.bytes
        (Packed.execute 9 1 1 [44, 46, 44, 46, 46] (some ⟨[104, 105], false⟩) {})
        (Packed.execute 9 1 1 [44, 46, 44, 46, 46] (some ⟨[104, 105], false⟩)
          { room := some 2 }) ∧
      ∃ code s earlier t t', Packed.compile [44, 46, 44] = .ok code ∧
        s = { tape := #[0], width := .one, input := some ⟨[104, 105], false⟩,
              output := { sink := {} } } ∧
        trail (Packed.step code) 9 s = earlier ++ [(t, true, t')] ∧
        t'.input = some ⟨[], false⟩ ∧ t'.delivered.toList = [104] := by
  obtain ⟨hcall, hexecute, htrail⟩ := delivers_what_fits 2 9
  refine ⟨hcall _ { tape := #[0], width := .one } rfl trivial, hexecute _ _ _ _ {} rfl True.intro,
    ?_⟩
  have hsteps : trail (Packed.step { words := #[⟨5⟩, ⟨4⟩, ⟨5⟩] }) 9
      { tape := #[0], width := .one, input := some ⟨[104, 105], false⟩, output := { sink := {} } } =
      [({ tape := #[0], width := .one, input := some ⟨[104, 105], false⟩,
          output := { sink := {} } }, true,
        { ip := 1, tape := #[104], width := .one, input := some ⟨[105], false⟩,
          output := { sink := {} } }),
       ({ ip := 1, tape := #[104], width := .one, input := some ⟨[105], false⟩,
          output := { sink := {} } }, true,
        { ip := 2, tape := #[104], width := .one, input := some ⟨[105], false⟩,
          output := { sink := {}, held := #[104] } })] ++
      [({ ip := 2, tape := #[104], width := .one, input := some ⟨[105], false⟩,
          output := { sink := {}, held := #[104] } }, true,
        { ip := 3, tape := #[105], width := .one, input := some ⟨[], false⟩,
          output := { sink := { bytes := #[104] } } })] := rfl
  have hdelivered := (htrail _ _ {} rfl _ _ _ _ _ hsteps (by simp)).1
  exact ⟨_, _, _, _, _, rfl, rfl, hsteps, rfl, hdelivered⟩

end TapeForge
