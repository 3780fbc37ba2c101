import TapeForge.Proofs.DirectCells
import TapeForge.Proofs.StepLimit

/-!
# Output into a bounded sink

A sink that accepts only so many bytes keeps those that fit of the write that goes beyond, and the
call ends there. Until then the machine cannot tell the sink from one that accepts everything, so
what is delivered is the beginning of what would be delivered without a bound, cut off where the
room ends.
-/

namespace TapeForge

/-! ## Sinks -/

/-- The first bytes fill a room for `cap` bytes, and are the beginning of the second ones, which
would not fit. -/
structure Overrun (cap : Nat) (bs cs : Array UInt8) : Prop where
  begins : bs.toList <+: cs.toList
  full : bs.size = cap
  beyond : cap < cs.size

theorem Overrun.grow {cap : Nat} {bs cs ds : Array UInt8} (h : Overrun cap bs cs)
    (hgrow : cs.toList <+: ds.toList) : Overrun cap bs ds where
  begins := h.begins.trans hgrow
  full := h.full
  beyond := Nat.lt_of_lt_of_le h.beyond hgrow.length_le

namespace Sink

/-- The sink has room for `cap` bytes in all. -/
def Holds (cap : Nat) (s : Sink) : Prop := ∃ k, s.room = some k ∧ s.bytes.size + k = cap

def unbounded (s : Sink) : Sink := { s with room := none }

/-- The same sink with room for `k` more bytes. -/
def limit (s : Sink) (k : Nat) : Sink := { s with room := some k }

/-- A write either fits, and is the write into the sink without a bound, or fills the room. -/
inductive Writes (cap : Nat) (s : Sink) (bs : Bytes) : Prop
  | fits : (s.write bs).2 = true → (s.write bs).1.bytes = s.bytes ++ bs → (s.write bs).1.Holds cap →
      Writes cap s bs
  | overruns : (s.write bs).2 = false → Overrun cap (s.write bs).1.bytes (s.bytes ++ bs) →
      (s.write bs).1.Holds cap → Writes cap s bs

theorem Holds.writes {cap : Nat} {s : Sink} (h : s.Holds cap) (bs : Bytes) : Writes cap s bs := by
  obtain ⟨k, hroom, hcap⟩ := h
  by_cases hle : bs.length ≤ k
  · have hw : s.write bs = ({ bytes := s.bytes ++ bs, room := some (k - bs.length) }, true) := by
      simp only [write, hroom, if_pos hle]
    have hsize := Machine.size_append_bytes s.bytes bs
    refine .fits ?_ ?_ ⟨k - bs.length, ?_, ?_⟩
    · rw [hw]
    · rw [hw]
    · rw [hw]
    · rw [hw]
      show (s.bytes ++ bs).size + _ = cap
      omega
  · have hw : s.write bs = ({ bytes := s.bytes ++ bs.take k, room := some 0 }, false) := by
      simp only [write, hroom, if_neg hle]
    -- The part that is taken fills the room to its last byte.
    have hfull : (s.bytes ++ bs.take k).size = cap := by
      rw [Machine.size_append_bytes, List.length_take]
      omega
    refine .overruns ?_ ⟨?_, ?_, ?_⟩ ⟨0, ?_, ?_⟩
    · rw [hw]
    · rw [hw]
      simp only [Array.toList_appendList]
      exact (List.prefix_append_right_inj _).2 (List.take_prefix k bs)
    · rw [hw]
      exact hfull
    · rw [Machine.size_append_bytes]
      omega
    · rw [hw]
    · rw [hw]
      exact hfull

end Sink

namespace Machine

open TapeForge.Machine.Action TapeForge.Effect

/-! ## Without emission -/

/-- The bond of a machine whose output has room for `cap` bytes with the same machine without that
bound, until the first one fails to write. -/
def bounded (cap : Nat) : Bond :=
  .tuned { output := Sink.unbounded } (fun m => m.output.Holds cap) (fun e => e ≠ .writeFailed)
    fun e _ => e = .writeFailed

/-- The same bond while nothing is emitted. -/
def muted (cap : Nat) : Bond :=
  .tuned { output := Sink.unbounded } (fun m => m.output.Holds cap) (fun e => e ≠ .writeFailed)
    fun _ _ => False

section Bounded

variable {cap : Nat}

theorem lifelong_holds : Lifelong fun m => m.output.Holds cap where
  set _ _ _ h := h
  moved _ h := h
  written bs h := by
    cases h.writes bs with
    | fits _ _ hw => exact hw
    | overruns _ _ hw => exact hw
  read _ _ _ h := h
  noted _ h := h

theorem bare_muted : (muted cap).Bare :=
  Bond.bare_tuned lifelong_holds.toEnduring fun _ _ he => .inl he

theorem checks_muted : (muted cap).Checks := Bond.checks_of_checked (Bond.pairs_checked rfl)

theorem pairs_tick_muted : (muted cap).Pairs Eq tick tick :=
  Bond.pairs_tick rfl (fun _ _ h => h) (.inl (show Fault.stepLimit ≠ .writeFailed by simp))

theorem pairs_readByte_muted : (muted cap).Pairs Eq readByte readByte :=
  Bond.pairs_readByte lifelong_holds (.inl (show Fault.readFailed ≠ .writeFailed by simp))

/-! ## Where the room ends -/

/-- Where an action fails to write it has filled the room, and without the bound it emits more. -/
def Overruns (cap : Nat) {α : Type} (a : Action α) : Prop :=
  ∀ ⦃m n m' : Machine⦄, (muted cap).rel m n → a m = .error .writeFailed m' →
    Overrun cap m'.output.bytes (machineOf (a n)).output.bytes

/-- An action that emits nothing does not fail to write. -/
theorem ne_writeFailed {α : Type} {V : α → α → Prop} {a : Action α}
    (h : (muted cap).Pairs V a a) {m n : Machine} (hR : (muted cap).rel m n) (m' : Machine) :
    a m ≠ .error .writeFailed m' := by
  intro ha
  have hr := h hR
  rw [ha] at hr
  generalize a n = r at hr
  cases hr with
  | error hs _ => exact hs rfl
  | parted hp => exact hp

/-- An action that cannot fail and emits nothing. -/
def Silent {α : Type} (a : Action α) : Prop :=
  ∀ m, ∃ x m', a m = .ok x m' ∧ m'.output = m.output

theorem silent_pure {α : Type} (x : α) : Silent (pure x : Action α) :=
  fun m => ⟨x, m, rfl, rfl⟩

theorem silent_emitHead (code : UInt8) (char left : Nat) : Silent (emitHead code char left) := by
  intro m
  by_cases h0 : m.get left = 0
  · exact ⟨_, _, emitHead_zero h0, rfl⟩
  · exact ⟨_, _, emitHead_of_ne h0, rfl⟩

namespace Overruns

variable {α β : Type}

theorem of_muted {V : α → α → Prop} {a : Action α} (h : (muted cap).Pairs V a a) :
    Overruns cap a :=
  fun _ _ _ hR ha => absurd ha (ne_writeFailed h hR _)

theorem bind {a : Action α} {k : α → Action β} (h : (muted cap).Pairs Eq a a)
    (hk : ∀ x, Overruns cap (k x)) : Overruns cap (a >>= k) := by
  intro m n m' hR hr
  have ha := h hR
  cases hm : a m with
  | ok x m₁ =>
      rw [bind_of_ok hm] at hr
      rw [hm] at ha
      cases hn : a n with
      | ok y n₁ =>
          rw [hn] at ha
          cases ha with
          | ok hxy hR' =>
              cases hxy
              rw [bind_of_ok hn]
              exact hk x hR' hr
      | error e n₁ =>
          rw [hn] at ha
          cases ha
  | error e m₁ =>
      rw [bind_of_error hm] at hr
      cases hr
      -- The first action emits nothing, so it cannot be the one that fails to write.
      exact absurd hm (ne_writeFailed h hR _)

theorem emit (bs : Bytes) : Overruns cap (emit bs) := by
  rintro m _ m' ⟨rfl, hm⟩ hr
  have hn : Action.emit bs (Tuning.apply { output := Sink.unbounded } m) =
      .ok () ((Tuning.apply { output := Sink.unbounded } m).put bs) := emit_eq_ok rfl bs
  rw [hn]
  simp only [Action.emit] at hr
  cases hm.writes bs with
  | fits hok _ _ =>
      rw [hok] at hr
      cases hr
  | overruns hfail hover _ =>
      rw [hfail] at hr
      cases hr
      exact hover

/-- What comes after emission and is silent. -/
theorem quietly {a : Action α} {k : α → Action β} (h : Overruns cap a) (hk : ∀ x, Silent (k x)) :
    Overruns cap (a >>= k) := by
  intro m n m' hR hr
  cases hm : a m with
  | ok x m₁ =>
      -- What is silent succeeds, so the failure was that of the first action.
      obtain ⟨y, m₂, hx, -⟩ := hk x m₁
      rw [bind_of_ok hm, hx] at hr
      cases hr
  | error e m₁ =>
      rw [bind_of_error hm] at hr
      cases hr
      have hover := h hR hm
      cases hn : a n with
      | ok x n₁ =>
          obtain ⟨y, n₂, hx, houtput⟩ := hk x n₁
          rw [hn] at hover
          rw [bind_of_ok hn, hx]
          show Overrun cap _ n₂.output.bytes
          rw [houtput]
          exact hover
      | error e n₁ =>
          rw [hn] at hover
          rw [bind_of_error hn]
          exact hover

end Overruns

theorem overruns_perform (o : Op) : Overruns cap (perform o) := by
  cases hw : o.writes with
  | false =>
      refine .of_muted (bare_muted.perform checks_muted o (fun _ => pairs_readByte_muted) ?_)
      intro h
      rw [hw] at h
      cases h
  | true =>
      cases o with
      | write =>
          exact .bind (bare_muted.locate 0) fun i => .bind (bare_muted.peek rfl) fun v =>
            .quietly (.emit _) fun _ => silent_pure _
      | writeS text =>
          refine .quietly ?_ fun _ => silent_pure _
          rw [doWriteS_eq_checking]
          split
          · refine .bind (bare_muted.locate 0) fun i => .bind (bare_muted.peek rfl) fun v => ?_
            exact .bind (checks_muted (probe_expectNothing _ v) (bare_muted.expectNothing _ v))
              fun _ => .emit _
          · exact .of_muted (Bond.Pairs.pure (V := Eq) rfl)
      -- The other ops leave emission to tasks of their own, or do not emit.
      | _ => cases hw

theorem overruns_doTask (t : Task) : Overruns cap (doTask t) := by
  rw [doTask_eq]
  refine .bind pairs_tick_muted fun _ => ?_
  cases t with
  | op o => exact overruns_perform o
  | again body => exact .of_muted (bare_muted.loopHead body)
  | emitting code char left =>
      refine .bind bare_muted.mask fun v => .bind (bare_muted.bump v rfl) fun _ => ?_
      exact .bind (bare_muted.peek rfl) fun _ => .quietly (.emit _) fun _ =>
        silent_emitHead code char left

theorem overruns_stepSymbol (s : Symbol) (jump : Option Nat) (index : Nat) :
    Overruns cap (stepSymbol s jump index) := by
  rw [stepSymbol_eq]
  refine .bind pairs_tick_muted fun _ => ?_
  by_cases hs : s = .out
  · subst hs
    refine .quietly ?_ fun _ => silent_pure _
    exact .bind (bare_muted.locate 0) fun i => .bind (bare_muted.peek rfl) fun v => .emit _
  · exact .of_muted (bare_muted.symbolWork s jump index (fun _ => pairs_readByte_muted)
      fun h => absurd h hs)

/-! ## Calls -/

theorem persistent_overrun (m : Machine) :
    Persistent fun n => Overrun cap m.output.bytes n.output.bytes :=
  persistent_of_lifelong {
    set := fun _ _ _ h => h
    moved := fun _ h => h
    written := fun bs h => h.grow (prefix_write _ bs)
    read := fun _ _ _ h => h
    noted := fun _ h => h } fun _ _ h => h

theorem lasting_bounded : (bounded cap).Lasting where
  toBare := Bond.bare_tuned lifelong_holds.toEnduring fun _ _ he => .inl he
  emit bs := by
    rintro m _ ⟨rfl, hm⟩
    have hn : Action.emit bs (Tuning.apply { output := Sink.unbounded } m) =
        .ok () ((Tuning.apply { output := Sink.unbounded } m).put bs) := emit_eq_ok rfl bs
    rw [hn]
    simp only [Action.emit]
    cases hm.writes bs with
    | fits hok hbytes hw =>
        rw [hok]
        refine .ok rfl ⟨?_, hw⟩
        simp only [put, Tuning.apply, Sink.unbounded, hbytes]
    | overruns hfail _ _ =>
        rw [hfail]
        exact .parted rfl
  checked := Bond.pairs_checked rfl
  tick := Bond.pairs_tick rfl (fun _ _ h => h) (.inl (show Fault.stepLimit ≠ .writeFailed by simp))
  readByte :=
    Bond.pairs_readByte lifelong_holds (.inl (show Fault.readFailed ≠ .writeFailed by simp))
  note := Bond.rel_note lifelong_holds

theorem direct_bounded :
    (bounded cap).LastingDirect fun _ m n => Overrun cap m.output.bytes n.output.bytes where
  doTask := lasting_bounded.doTask
  note := lasting_bounded.note
  parted {t u m m' n e} ht hR hm he := by
    cases Bond.eq_of_sameTask (fun _ _ => id) ht
    cases he
    exact overruns_doTask t hR hm
  persists _ m := persistent_overrun m

theorem text_bounded :
    (bounded cap).LastingText fun _ m n => Overrun cap m.output.bytes n.output.bytes where
  stepSymbol := lasting_bounded.stepSymbol
  note := lasting_bounded.note
  parted {s jump index m m' n e} hR hm he := by
    cases he
    exact overruns_stepSymbol s jump index hR hm
  persists _ m := persistent_overrun m
  fails _ he _ := .inl he

end Bounded

end Machine

/-! ## How a bounded run ends -/

section Curtails

variable {φ σ τ : Type}

/-- The second run has come to its end, as the first one would with room for `k` more bytes than
were there before. It delivers the beginning of what the first one emits that fits; it succeeds if
the first one does and all of it fits, and if all of it fits their errors are the same. -/
def Curtails (k : Nat) (before : Array UInt8) (delivered : σ → Array UInt8)
    (r r' : Outcome φ σ) : Prop :=
  r'.Settled ∧ ∃ emitted, (delivered r.state).toList = before.toList ++ emitted ∧
    (delivered r'.state).toList = before.toList ++ emitted.take k ∧
    (r'.error? = none ↔ r.error? = none ∧ emitted.length ≤ k) ∧
    (emitted.length ≤ k → r'.error? = r.error?)

variable {k : Nat} {before : Array UInt8} {delivered : σ → Array UInt8} {r r' : Outcome φ σ}

theorem size_of_emitted {after : Array UInt8} {emitted : Bytes}
    (h : before.toList ++ emitted = after.toList) : after.size = before.size + emitted.length := by
  simpa using (congrArg List.length h).symm

theorem curtails_of_fits (hr' : r'.Settled) (herror : r'.error? = r.error?)
    (hsame : delivered r'.state = delivered r.state)
    (hbegin : before.toList <+: (delivered r.state).toList)
    (hfits : (delivered r.state).size ≤ before.size + k) :
    Curtails k before delivered r r' := by
  obtain ⟨emitted, hemitted⟩ := hbegin
  have hsize := size_of_emitted hemitted
  have hle : emitted.length ≤ k := by omega
  refine ⟨hr', emitted, hemitted.symm, ?_, ?_, fun _ => herror⟩
  · rw [hsame, ← hemitted, List.take_of_length_le hle]
  · rw [herror]
    exact ⟨fun h => ⟨h, hle⟩, fun h => h.1⟩

theorem curtails_of_overrun (hr' : r'.Settled) {f : φ} (herror : r'.error? = some f)
    (hbegin : before.toList <+: (delivered r.state).toList)
    (hover : Overrun (before.size + k) (delivered r'.state) (delivered r.state)) :
    Curtails k before delivered r r' := by
  obtain ⟨emitted, hemitted⟩ := hbegin
  have hsize := size_of_emitted hemitted
  have hbeyond := hover.beyond
  refine ⟨hr', emitted, hemitted.symm, ?_, ?_, fun h => by omega⟩
  · rw [List.prefix_iff_eq_take.1 hover.begins, Array.length_toList, hover.full, ← hemitted,
      ← Array.length_toList, List.take_length_add_append]
  · rw [herror]
    exact ⟨nofun, fun h => by omega⟩

theorem Curtails.map {g : τ → Array UInt8} (f : σ → τ)
    (h : Curtails k before (fun s => g (f s)) r r') :
    Curtails k before g (r.map f) (r'.map f) := by
  cases r <;> cases r' <;> exact h

end Curtails

namespace Machine

theorem Call.curtails_run (c : Call) {m : Machine} (hroom : m.output.room = none) (k fuel : Nat)
    (hsettled : (c.run fuel m).Settled) :
    Curtails k m.output.bytes (·.output.bytes) (c.run fuel m)
      (c.run fuel { m with output := m.output.limit k }) := by
  have hR : (bounded (m.output.bytes.size + k)).rel { m with output := m.output.limit k } m := by
    refine ⟨?_, k, rfl, rfl⟩
    simp only [Tuning.apply, Sink.unbounded, Sink.limit, id, ← hroom]
  have hrun := Bond.outcomes_run direct_bounded text_bounded c fuel hR
  have hgrow : m.output.bytes.toList <+: (c.run fuel m).state.output.bytes.toList :=
    (persistent_behind m).run c fuel List.prefix_rfl
  generalize c.run fuel m = r at hrun hsettled hgrow ⊢
  generalize c.run fuel { m with output := m.output.limit k } = r' at hrun ⊢
  -- Side by side, both have emitted the same, and it fits the room.
  have hfits : ∀ {s t : Machine}, (bounded (m.output.bytes.size + k)).rel s t →
      s.output.bytes = t.output.bytes ∧ t.output.bytes.size ≤ m.output.bytes.size + k := by
    rintro s _ ⟨rfl, j, -, hcap⟩
    refine ⟨rfl, ?_⟩
    show s.output.bytes.size ≤ _
    omega
  cases hrun with
  | done hQ => exact curtails_of_fits trivial rfl (hfits hQ).1 hgrow (hfits hQ).2
  | failed _ hQ => exact curtails_of_fits trivial rfl (hfits hQ).1 hgrow (hfits hQ).2
  | pending _ => exact hsettled.elim
  | parted hover => exact curtails_of_overrun trivial rfl hgrow hover

end Machine

end TapeForge
