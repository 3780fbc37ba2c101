import TapeForge.Proofs.DirectCells
import TapeForge.Proofs.InputHistory
import TapeForge.Proofs.StepLimit

/-!
# Checked mode only stops runs

In checked mode a direct run looks at more cells, and refuses to go on where one of them is off the
tape or not zero. It refuses before it has changed anything, so where it stops the unchecked run has
been in the same state; and as long as it does not refuse, the two cannot be told apart. Text has no
preconditions.
-/

namespace TapeForge

namespace Machine

open TapeForge.Machine.Action TapeForge.Effect

/-! ## Actions that do not refuse -/

/-- The cells of two machines stand at the same positions. -/
def Framed (m₀ m : Machine) : Prop := m.tape.size = m₀.tape.size ∧ m.dp = m₀.dp

theorem Framed.index? {m₀ m : Machine} (h : Framed m₀ m) (o : Offset) :
    m.index? (m.dp + o) = m₀.index? (m₀.dp + o) := by
  simp only [Machine.index?, h.1, h.2]

/-- An action that keeps the frame of a machine, and in that frame does not refuse. -/
def Accepts (m₀ : Machine) {α : Type} (a : Action α) : Prop :=
  ∀ ⦃m : Machine⦄, Framed m₀ m →
    match a m with
    | .ok _ m' => Framed m₀ m'
    | .error e _ => ¬ e.Refuses

namespace Accepts

variable {m₀ : Machine} {α β : Type}

theorem pure (x : α) : Accepts m₀ (pure x : Action α) := fun _ hm => hm

theorem bind {a : Action α} {k : α → Action β} (h : Accepts m₀ a) (hk : ∀ x, Accepts m₀ (k x)) :
    Accepts m₀ (a >>= k) := by
  intro m hm
  have ha := h hm
  cases hr : a m with
  | ok x m' =>
      rw [hr] at ha
      rw [bind_of_ok hr]
      exact hk x ha
  | error e m' =>
      rw [hr] at ha
      rw [bind_of_error hr]
      exact ha

theorem ite {a a' : Action α} (c : Prop) [Decidable c] (h : Accepts m₀ a) (h' : Accepts m₀ a') :
    Accepts m₀ (if c then a else a') := by
  split
  · exact h
  · exact h'

theorem locate {o : Offset} {i : Nat} (h : m₀.index? (m₀.dp + o) = some i) :
    Accepts m₀ (locate o) := by
  intro m hm
  rw [locate_eq_ok ((hm.index? o).trans h)]
  exact hm

theorem peek (i : Nat) : Accepts m₀ (peek i) := fun _ hm => hm

theorem poke (i : Nat) (v : UInt64) : Accepts m₀ (poke i v) :=
  fun m hm => ⟨(size_set m i v).trans hm.1, hm.2⟩

theorem bump (i : Nat) (v : UInt64) : Accepts m₀ (bump i v) :=
  fun m hm => ⟨(size_set m i _).trans hm.1, hm.2⟩

theorem emit (bs : Bytes) : Accepts m₀ (emit bs) := by
  intro m hm
  simp only [Action.emit]
  cases (m.output.write bs).2 with
  | true => exact hm
  | false => exact id

theorem readByte : Accepts m₀ readByte := by
  refine bind (a := refill) ?_ fun _ => ?_
  · intro m hm
    unfold refill
    by_cases hlt : m.cursor < m.input.size
    · rw [if_pos hlt]
      exact hm
    · rw [if_neg hlt]
      cases m.live with
      | none => exact hm
      | some r =>
          dsimp only
          rcases r.readLine with ⟨line, _ | _ | _, rest⟩
          · exact hm
          · exact hm
          · exact id
  · intro m hm
    dsimp only
    cases m.input[m.cursor]? with
    | some b => exact hm
    | none => exact hm

theorem mask : Accepts m₀ cellMask := fun _ hm => hm

theorem emitHead (code : UInt8) (char left : Nat) : Accepts m₀ (emitHead code char left) :=
  (peek left).bind fun _ => .ite _ ((bump char _).bind fun _ => .pure _) (.pure _)

theorem doMove {src dest : Offset} {s d : Nat} (hs : m₀.index? (m₀.dp + src) = some s)
    (hd : m₀.index? (m₀.dp + dest) = some d) : Accepts m₀ (doMove src dest) := by
  refine (locate hs).bind fun s => (peek s).bind fun v => .ite _ ?_ (.pure _)
  exact (locate hd).bind fun d => (bump d v).bind fun _ => poke s 0

theorem copyCells {src tmp dest : Offset} {s t d : Nat} (hs : m₀.index? (m₀.dp + src) = some s)
    (ht : m₀.index? (m₀.dp + tmp) = some t) (hd : m₀.index? (m₀.dp + dest) = some d) :
    Accepts m₀ (copyCells src tmp dest) := by
  refine (locate hs).bind fun s => (peek s).bind fun v => .ite _ ?_ (doMove ht hs)
  refine (locate ht).bind fun t => (locate hd).bind fun d => ?_
  exact (bump t v).bind fun _ => (bump d v).bind fun _ => (poke s 0).bind fun _ => doMove ht hs

end Accepts

/-! ## A refusal comes before any change -/

/-- If an action refuses, it has changed nothing. -/
def Forewarns (m : Machine) {α : Type} (a : Action α) : Prop :=
  ∀ ⦃e : Fault⦄ ⦃m' : Machine⦄, a m = .error e m' → e.Refuses → m' = m

namespace Forewarns

variable {m : Machine} {α β : Type}

theorem of_accepts {a : Action α} (h : Accepts m a) : Forewarns m a := by
  intro e m' ha he
  have hm := h (m := m) ⟨rfl, rfl⟩
  rw [ha] at hm
  exact absurd he hm

theorem pure (x : α) : Forewarns m (pure x : Action α) := of_accepts (.pure x)

theorem ite {a a' : Action α} (c : Prop) [Decidable c] (h : Forewarns m a) (h' : Forewarns m a') :
    Forewarns m (if c then a else a') := by
  split
  · exact h
  · exact h'

theorem locate {o : Offset} {k : Nat → Action α}
    (h : ∀ i, m.index? (m.dp + o) = some i → Forewarns m (k i)) :
    Forewarns m (locate o >>= k) := by
  intro e m' hr he
  cases hi : m.index? (m.dp + o) with
  | none =>
      rw [bind_of_error (locate_eq_error hi)] at hr
      cases hr
      rfl
  | some i =>
      rw [bind_of_ok (locate_eq_ok hi)] at hr
      exact h i hi hr he

theorem peek {i : Nat} {k : UInt64 → Action α} (h : ∀ v, Forewarns m (k v)) :
    Forewarns m (peek i >>= k) := h _

theorem probe {c : Action Unit} {k : Action α} (hc : Probe c)
    (h : c m = .ok () m → Forewarns m k) : Forewarns m (c >>= fun _ => k) := by
  intro e m' hr he
  rcases hc m with hm | ⟨e', -, hm⟩
  · rw [bind_of_ok hm] at hr
    exact h hm hr he
  · rw [bind_of_error hm] at hr
    cases hr
    rfl

theorem then_pure {a : Action α} (h : Forewarns m a) (y : β) :
    Forewarns m (a >>= fun _ => Pure.pure y) := by
  intro e m' hr he
  cases ha : a m with
  | ok x m₁ =>
      rw [bind_of_ok ha] at hr
      cases hr
  | error e₁ m₁ =>
      rw [bind_of_error ha] at hr
      cases hr
      exact h ha he

theorem doMove (src dest : Offset) : Forewarns m (doMove src dest) := by
  refine locate fun s _ => peek fun v => ite _ (locate fun d _ => of_accepts ?_) (pure _)
  exact (Accepts.bump d v).bind fun _ => .poke s 0

theorem doWriteS (o : Op) (text : Bytes) : Forewarns m (doWriteS o text) := by
  rw [doWriteS_eq_checking]
  refine ite _ (locate fun i _ => peek fun v => ?_) (pure _)
  exact probe (probe_expectNothing o v).checking fun _ => of_accepts (.emit _)

end Forewarns

theorem index?_of_expectZero {m : Machine} {o : Op} {offset : Offset}
    (h : expectZero o offset m = .ok () m) : ∃ i, m.index? (m.dp + offset) = some i := by
  cases hi : m.index? (m.dp + offset) with
  | none =>
      rw [expectZero, bind_of_error (locate_eq_error hi)] at h
      cases h
  | some i => exact ⟨i, rfl⟩

/-- In checked mode the cells of a copy are found before the first of them is changed. -/
theorem forewarns_doCopy {m : Machine} (hm : m.checked = true) (o : Op) (src tmp dest : Offset)
    {α : Type} {k : Action α} (hk : ∀ {t d}, m.index? (m.dp + tmp) = some t →
      m.index? (m.dp + dest) = some d → Accepts m k) :
    Forewarns m (doCopy o src tmp dest >>= fun _ => k) := by
  have hcopy : (doCopy o src tmp dest >>= fun _ => k) m =
      (expectZero o tmp >>= fun _ => expectZero o dest >>= fun _ =>
        copyCells src tmp dest >>= fun _ => k) m := by
    have hmode : isChecked m = .ok true m := congrArg (EStateM.Result.ok · m) hm
    rw [doCopy_eq, bind_assoc, bind_of_ok hmode]
    simp only [if_true, bind_assoc]
  intro e m' hr he
  rw [hcopy] at hr
  -- The checks have looked at both cells, so the copy finds them; only the source may be missing.
  refine Forewarns.probe (probe_expectZero o tmp) (fun htmp => ?_) hr he
  refine Forewarns.probe (probe_expectZero o dest) fun hdest => ?_
  obtain ⟨t, ht⟩ := index?_of_expectZero htmp
  obtain ⟨d, hd⟩ := index?_of_expectZero hdest
  cases hs : m.index? (m.dp + src) with
  | none =>
      intro e m' hr he
      rw [bind_of_error (copyCells_error hs)] at hr
      cases hr
      rfl
  | some s => exact .of_accepts ((Accepts.copyCells hs ht hd).bind fun _ => hk ht hd)

theorem forewarns_loopHead (m : Machine) (body : List Op) : Forewarns m (loopHead body) :=
  .locate fun _ _ => .peek fun _ => .pure _

/-- What an op emits and reads comes after all its checks. -/
theorem forewarns_perform {m : Machine} (hm : m.checked = true) (o : Op) :
    Forewarns m (perform o) := by
  cases o with
  | add n => exact .locate fun i _ => .of_accepts ((Accepts.bump i _).bind fun _ => .pure _)
  | shift n =>
      intro e m' hr
      cases hr
  | move src dest => exact (Forewarns.doMove src dest).then_pure []
  | zero => exact .locate fun i _ => .of_accepts ((Accepts.poke i _).bind fun _ => .pure _)
  | copy src tmp dest => exact forewarns_doCopy hm _ src tmp dest fun _ _ => .pure _
  | loop body => exact forewarns_loopHead m body
  | read =>
      exact .locate fun i _ => .of_accepts (Accepts.readByte.bind fun b =>
        (Accepts.poke i _).bind fun _ => .pure _)
  | write =>
      exact .locate fun i _ => .peek fun v => .of_accepts ((Accepts.emit _).bind fun _ => .pure _)
  | writeN code count tmp1 tmp2 =>
      refine forewarns_doCopy hm _ count tmp1 tmp2 fun hc hl => ?_
      exact (Accepts.locate hc).bind fun c => (Accepts.bump c _).bind fun _ =>
        (Accepts.locate hl).bind fun l => .emitHead code c l
  | writeS text => exact (Forewarns.doWriteS _ text).then_pure []
  | assertZero offsets =>
      rw [perform_assertZero]
      exact .probe (probe_expectZeros _ offsets).checking fun _ => .pure _
  | undefined kind => exact .of_accepts fun _ _ => id

theorem forewarns_work {m : Machine} (hm : m.checked = true) (t : Task) : Forewarns m t.work := by
  cases t with
  | op o => exact forewarns_perform hm o
  | again body => exact forewarns_loopHead m body
  | emitting code char left =>
      refine .of_accepts (Accepts.mask.bind fun v => (Accepts.bump left v).bind fun _ => ?_)
      exact (Accepts.peek char).bind fun _ => (Accepts.emit _).bind fun _ =>
        .emitHead code char left

theorem machineOf_tick (m : Machine) : machineOf (tick m) = { m with steps := m.steps + 1 } := by
  unfold tick
  dsimp only
  split
  · rfl
  · rfl

/-- A task that refuses has been counted, and that is all. -/
theorem refused_doTask {m m' : Machine} (hm : m.checked = true) {t : Task} {e : Fault}
    (ht : doTask t m = .error e m') (he : e.Refuses) : m' = { m with steps := m.steps + 1 } := by
  have hcounted := machineOf_tick m
  rw [doTask_eq] at ht
  cases hc : tick m with
  | ok x m₁ =>
      rw [hc] at hcounted
      rw [bind_of_ok hc] at ht
      have hm₁ : m₁ = { m with steps := m.steps + 1 } := hcounted
      rw [← hm₁]
      exact forewarns_work (by rw [hm₁]; exact hm) t ht he
  | error e₁ m₁ =>
      rw [hc] at hcounted
      rw [bind_of_error hc] at ht
      cases ht
      exact hcounted

/-! ## In checked mode and out of it -/

/-- The bond of a machine in checked mode with the same machine out of it, until the first
refuses. -/
def sparing : Bond :=
  .tuned { checked := fun _ => false } (fun m => m.checked = true) (fun e => ¬ e.Refuses)
    fun e _ => e.Refuses

theorem lifelong_checked : Lifelong fun m => m.checked = true where
  set _ _ _ h := h
  moved _ h := h
  written _ h := h
  read _ _ _ h := h
  noted _ h := h

theorem bare_sparing : sparing.Bare :=
  Bond.bare_tuned lifelong_checked.toEnduring fun e _ _ =>
    (Classical.em e.Refuses).elim (fun h => .inr fun _ _ _ => h) .inl

theorem checks_sparing : sparing.Checks := by
  rintro c hprobe - m _ ⟨rfl, hm⟩
  rw [checking_of_checked hm, checking_of_unchecked rfl]
  rcases hprobe m with hc | ⟨e, he, hc⟩
  · rw [hc]
    exact .ok rfl ⟨rfl, hm⟩
  · rw [hc]
    exact .parted he

theorem direct_sparing : sparing.LastingDirect fun e m n => e.Refuses ∧ Behind m n where
  doTask ht := by
    have htick : sparing.Pairs Eq tick tick :=
      Bond.pairs_tick rfl (fun _ _ h => h) (.inl id)
    have hread : sparing.Pairs Eq readByte readByte :=
      Bond.pairs_readByte lifelong_checked (.inl id)
    have hemit : ∀ bs, sparing.Pairs Eq (emit bs) (emit bs) :=
      Bond.pairs_emit lifelong_checked.toEnduring rfl (.inl id)
    rw [doTask_eq, doTask_eq]
    exact htick.then fun _ => bare_sparing.work checks_sparing ht (fun _ => hread) fun _ => hemit
  note := Bond.rel_note lifelong_checked
  parted {t u m m' n e} _ hR ht he := by
    obtain ⟨rfl, hm⟩ := hR
    rw [refused_doTask hm ht he]
    exact ⟨he, (persistent_behind _).doTask u List.prefix_rfl⟩
  persists _ m := (persistent_behind m).given _

def inMode (checked : Bool) : Bond :=
  .tuned { checked := fun _ => checked } (fun _ => True) (fun _ => True) fun _ _ => False

/-- Text has no checks, so the mode makes no difference to it. -/
theorem text_inMode (checked : Bool) : (inMode checked).LastingText fun _ _ _ => False where
  stepSymbol s jump index := by
    have hbare : (inMode checked).Bare :=
      Bond.bare_tuned lifelong_true.toEnduring fun _ _ _ => .inl trivial
    have htick : (inMode checked).Pairs Eq tick tick :=
      Bond.pairs_tick rfl (fun _ _ h => h) (.inl trivial)
    have hread : (inMode checked).Pairs Eq readByte readByte :=
      Bond.pairs_readByte lifelong_true (.inl trivial)
    have hemit : ∀ bs, (inMode checked).Pairs Eq (emit bs) (emit bs) :=
      Bond.pairs_emit lifelong_true.toEnduring rfl (.inl trivial)
    rw [stepSymbol_eq]
    exact htick.then fun _ => hbare.symbolWork s jump index (fun _ => hread) fun _ => hemit
  note := Bond.rel_note lifelong_true
  parted _ _ hp := hp
  persists _ _ := persistent_const False
  fails _ _ _ := .inl trivial

/-! ## Where a run refuses -/

/-- The machine when the step of an event has been counted, and nothing else has happened. -/
def Event.counted : Event → Option Machine
  | fed _ => none
  | read _ m _ => some { m with steps := m.steps + 1 }
  | work m _ => some { m with steps := m.steps + 1 }

theorem counted_ofStep (reads ok : Bool) (m n : Machine) :
    (Event.ofStep reads ok m n).counted = some { m with steps := m.steps + 1 } := by
  cases reads
  · rfl
  · rfl

theorem exists_mem_trail {φ τ : Type} {step : τ → Stage φ τ} {t : τ}
    (h : ∀ t', step t ≠ .halt t') (n : Nat) : ∃ ok t', (t, ok, t') ∈ trail step (n + 1) t := by
  cases ht : step t with
  | halt t' => exact absurd ht (h t')
  | next t' => exact ⟨true, t', by simp only [trail, ht, List.mem_cons, true_or]⟩
  | fail f t' => exact ⟨false, t', by simp only [trail, ht, List.mem_cons, true_or]⟩

theorem Direct.step_ne_halt (t : Task) (rest : List Task) (m : Machine) (d : Direct) :
    Direct.step ⟨t :: rest, m⟩ ≠ .halt d := by
  simp only [Direct.step]
  cases doTask t m with
  | ok new m' =>
      intro h
      cases h
  | error e m' =>
      intro h
      cases h

/-- Where a step refuses, the second run does the same task from the same state, whatever comes of
it. -/
theorem refused_step {d d' d₁ : Direct} {e : Fault} (ht : sparing.SameTasks d.tasks d'.tasks)
    (hR : sparing.rel d.machine d'.machine) (hstep : d.step = .fail e d₁) (he : e.Refuses) :
    (∀ d₂, d'.step ≠ .halt d₂) ∧
      { d'.machine with steps := d'.machine.steps + 1 } = { d₁.machine with checked := false } := by
  obtain ⟨ts, m⟩ := d
  obtain ⟨us, n⟩ := d'
  obtain ⟨rfl, hm⟩ := hR
  cases ht with
  | nil => cases hstep
  | @cons t u ts us _ _ =>
      refine ⟨Direct.step_ne_halt u us _, ?_⟩
      simp only [Direct.step] at hstep
      cases hr : doTask t m with
      | ok new m₁ =>
          rw [hr] at hstep
          cases hstep
      | error e₁ m₁ =>
          rw [hr] at hstep
          cases hstep
          rw [refused_doTask hm hr he]
          rfl

theorem refused_iterate (fuel : Nat) {d d' d₁ : Direct} {e : Fault}
    (ht : sparing.SameTasks d.tasks d'.tasks) (hR : sparing.rel d.machine d'.machine)
    (hrun : iterate Direct.step fuel d = .failed e d₁) (he : e.Refuses) :
    ∃ x ∈ trail Direct.step fuel d',
      { x.1.machine with steps := x.1.machine.steps + 1 } =
        { d₁.machine with checked := false } := by
  induction fuel generalizing d d' with
  | zero => cases hrun
  | succ fuel ih =>
      have hs := direct_sparing.step ht hR
      rw [iterate] at hrun
      cases hstep : d.step with
      | halt d₂ =>
          rw [hstep] at hrun
          cases hrun
      | next d₂ =>
          rw [hstep] at hs hrun
          -- As long as the first run goes on, the second does the same; its events are one more.
          cases hstep' : d'.step with
          | next d₂' =>
              rw [hstep'] at hs
              cases hs with
              | next hQ =>
                  obtain ⟨x, hx, hsame⟩ := ih hQ.1 hQ.2 hrun
                  refine ⟨x, ?_, hsame⟩
                  rw [trail, hstep']
                  exact List.mem_cons_of_mem _ hx
          | halt d₂' =>
              rw [hstep'] at hs
              cases hs
          | fail e' d₂' =>
              rw [hstep'] at hs
              cases hs
      | fail e' d₂ =>
          rw [hstep] at hrun
          cases hrun
          -- The step that refuses is the last of the first run, and an event of the second.
          obtain ⟨hgoes, hsame⟩ := refused_step ht hR hstep he
          obtain ⟨ok, d₂', hmem⟩ := exists_mem_trail hgoes fuel
          exact ⟨_, hmem, hsame⟩

theorem refused_runOp (fuel : Nat) (o : Op) {m n m' : Machine} {e : Fault}
    (hR : sparing.rel m n) (hrun : runOp fuel o m = .failed e m') (he : e.Refuses) :
    ∃ x ∈ opEvents fuel o n, x.counted = some { m' with checked := false } := by
  cases hi : iterate Direct.step fuel ⟨[.op o], m⟩ with
  | done d =>
      rw [runOp, hi] at hrun
      cases hrun
  | pending d =>
      rw [runOp, hi] at hrun
      cases hrun
  | failed e' d =>
      rw [runOp, hi] at hrun
      cases hrun
      obtain ⟨⟨d₁, ok, d₂⟩, hmem, hsame⟩ :=
        @refused_iterate fuel ⟨[.op o], m⟩ ⟨[.op o], n⟩ d e (.cons (.op o) .nil) hR hi he
      refine ⟨_, List.mem_map_of_mem hmem, ?_⟩
      exact (counted_ofStep _ _ _ _).trans (congrArg some hsame)

theorem refused_exec (fuel : Nat) (ops : List Op) {m n m' : Machine} {f : Failure}
    (hR : sparing.rel m n) (hrun : exec fuel ops m = .failed f m') (hf : f.fault.Refuses) :
    ∃ x ∈ (Call.direct ops).events fuel n, x.counted = some { m' with checked := false } := by
  induction ops generalizing m n with
  | nil => cases hrun
  | cons o ops ih =>
      have ho := direct_sparing.runOp fuel o hR
      rw [exec] at hrun
      simp only [Call.events, eventsEach, List.mem_append]
      cases hr : runOp fuel o m with
      | done m₁ =>
          rw [hr] at ho hrun
          -- An op that passes its checks ends alike in both modes, and the rest starts alike.
          cases hr' : runOp fuel o n with
          | done n₁ =>
              rw [hr'] at ho
              cases ho with
              | done hR₁ =>
                  obtain ⟨x, hx, hcounted⟩ := ih (direct_sparing.note o hR₁) hrun
                  exact ⟨x, .inr hx, hcounted⟩
          | failed e n₁ =>
              rw [hr'] at ho
              cases ho
          | pending n₁ =>
              rw [hr'] at ho
              cases ho
      | failed e m₁ =>
          rw [hr] at hrun
          cases hrun
          obtain ⟨x, hx, hcounted⟩ := refused_runOp fuel o hR hr hf
          exact ⟨x, .inl hx, hcounted⟩
      | pending m₁ =>
          rw [hr] at hrun
          cases hrun

/-- In checked mode a direct run either refuses or does what it does out of it, up to the mode. When
it refuses, the run out of checked mode comes to the same state, at the same count, where the step
that refuses has been counted and nothing else; and it has emitted the same and goes on from there.
Text is run alike in either mode, whether it is the text of ops or a text as it is. -/
theorem exec_in_checked_mode (m : Machine) (fuel : Nat) (ops : List Op) :
    ((∀ f, (exec fuel ops { m with checked := true }).error? = some f → ¬ f.fault.Refuses) →
      exec fuel ops { m with checked := false } =
        (exec fuel ops { m with checked := true }).map fun n => { n with checked := false }) ∧
    (∀ f n, exec fuel ops { m with checked := true } = .failed f n → f.fault.Refuses →
      (∃ e ∈ (Call.direct ops).events fuel { m with checked := false },
        e.counted = some { n with checked := false }) ∧
      ∀ fuel', fuel ≤ fuel' → n.output.bytes.toList <+:
        (exec fuel' ops { m with checked := false }).state.output.bytes.toList) ∧
    ∀ checked,
      (∀ src, execText fuel src { m with checked } =
        (execText fuel src m).map fun n => { n with checked }) ∧
      execRendered fuel ops { m with checked } =
        (execRendered fuel ops m).map fun n => { n with checked } := by
  have hrel : sparing.rel { m with checked := true } { m with checked := false } := ⟨rfl, rfl⟩
  refine ⟨fun hno => ?_, fun f n hrun hf => ⟨refused_exec fuel ops hrel hrun hf, ?_⟩,
    fun checked => ⟨fun src => ?_, ?_⟩⟩
  · have hside := direct_sparing.exec fuel ops hrel
    exact hside.eq_map fun f n hr _ hp => hno f (by rw [hr]; rfl) hp.1
  · intro fuel' hfuel
    -- The checked run is over, so it may be given the steps of the other one.
    have hsettled : (exec fuel ops { m with checked := true }).Settled := by
      rw [hrun]
      trivial
    have hsame := steady_exec ops { m with checked := true } hfuel hsettled
    have hside := direct_sparing.exec fuel' ops hrel
    dsimp only at hsame
    rw [hsame, hrun] at hside
    generalize exec fuel' ops { m with checked := false } = r at hside ⊢
    cases hside with
    | failed hs _ => exact absurd hf hs
    | parted hK => exact hK.2
  · have hside := (text_inMode checked).execText fuel src (m := m) ⟨rfl, trivial⟩
    exact hside.eq_map fun _ _ _ _ => id
  · have hside := (text_inMode checked).execRendered fuel ops (m := m) ⟨rfl, trivial⟩
    exact hside.eq_map fun _ _ _ _ => id

/-- A copy whose target is zero at the first turn of a loop and not at the second, where the
unchecked run goes on and ends. -/
theorem exec_in_checked_mode_second_turn :
    (∃ e ∈ (Call.direct [.add 2, .loop [.copy 0 1 2, .write, .add (-1)]]).events 20
        { tape := #[0, 0, 0], width := .one },
      e.counted =
        some { tape := #[1, 0, 2], width := .one, output := { bytes := #[2] }, steps := 7 }) ∧
      ∀ fuel', 20 ≤ fuel' → [2] <+:
        (exec fuel' [.add 2, .loop [.copy 0 1 2, .write, .add (-1)]]
          { tape := #[0, 0, 0], width := .one }).state.output.bytes.toList := by
  have hrun : exec 20 [.add 2, .loop [.copy 0 1 2, .write, .add (-1)]]
      { tape := #[0, 0, 0], width := .one, checked := true } =
    .failed ⟨[.op "loop(3)"], .precondition "copy(0,1,2)" 2 2⟩
      { tape := #[1, 0, 2], width := .one, output := { bytes := #[2] }, steps := 7,
        checked := true } := by rfl
  exact (exec_in_checked_mode { tape := #[0, 0, 0], width := .one } 20
    [.add 2, .loop [.copy 0 1 2, .write, .add (-1)]]).2.1 _ _ hrun trivial

end Machine

end TapeForge
