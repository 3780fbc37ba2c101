import TapeForge.Proofs.Abreast

/-!
# The step limit is a budget

A step is counted before anything is done. So a run under a limit comes to an end, at most one
count above the limit, and until then it does what it would do under any larger limit: when the
limit stops it, what it has emitted is the beginning of what it would have emitted.
-/

namespace TapeForge

/-! ## Runs of boundedly many steps -/

section Steps

variable {φ ψ σ τ υ : Type}

theorem settled_iterate {step : τ → Stage φ τ} (I : τ → Prop) (left : τ → Nat)
    (h : ∀ t t', I t → step t = .next t' → I t' ∧ left t' < left t) {n : Nat} {t : τ} (ht : I t)
    (hn : left t < n) : (iterate step n t).Settled := by
  induction n generalizing t with
  | zero => exact absurd hn (Nat.not_lt_zero _)
  | succ n ih =>
      rw [iterate]
      cases hs : step t with
      | next t' =>
          obtain ⟨ht', hlt⟩ := h t t' ht hs
          exact ih ht' (by omega)
      | halt t' => trivial
      | fail f t' => trivial

theorem Outcome.settled_map {r : Outcome φ τ} (h : r.Settled) (f : τ → σ) :
    (r.map f).Settled := by
  cases r with
  | done t => trivial
  | failed e t => trivial
  | pending t => exact h.elim

theorem Outcome.settled_mapError {r : Outcome φ τ} (h : r.Settled) (g : φ → ψ) :
    (r.mapError g).Settled := by
  cases r with
  | done t => trivial
  | failed e t => trivial
  | pending t => exact h.elim

theorem settled_chain {run : Nat → Outcome φ σ} {g : φ → ψ} {rest : σ → Nat → Outcome ψ σ}
    (hrun : Steady run) (hrest : ∀ s, Steady (rest s)) (h : ∃ n, (run n).Settled)
    (h' : ∀ n s, run n = .done s → ∃ k, (rest s k).Settled) :
    ∃ n, (chain run g rest n).Settled := by
  obtain ⟨n, hn⟩ := h
  cases hr : run n with
  | done s =>
      obtain ⟨k, hk⟩ := h' n s hr
      obtain ⟨j, hj, hj'⟩ := hrun.common (hrest s) hn hk
      refine ⟨j, ?_⟩
      simp only [chain, hj, hr, hj']
      exact hk
  | failed f s =>
      refine ⟨n, ?_⟩
      simp only [chain, hr]
      trivial
  | pending s =>
      rw [hr] at hn
      exact hn.elim

end Steps

namespace Machine

open TapeForge.Machine.Action TapeForge.Effect

/-! ## What one step counts -/

/-- One step is counted, and the fault is the step limit exactly if the count has passed it. In
that case nothing else has happened. -/
inductive Charged (m : Machine) : Option Fault → Machine → Prop
  | within {e : Option Fault} {m' : Machine} : ¬ (0 < m.limit ∧ m.limit < m.steps + 1) →
      e ≠ some .stepLimit → m'.limit = m.limit → m'.steps = m.steps + 1 → Charged m e m'
  | beyond : 0 < m.limit → m.limit < m.steps + 1 →
      Charged m (some .stepLimit) { m with steps := m.steps + 1 }

theorem Charged.eq_of_stopped {m m' : Machine} (h : Charged m (some .stepLimit) m') :
    m' = { m with steps := m.steps + 1 } := by
  generalize he : some Fault.stepLimit = e at h
  cases h with
  | within _ hne => exact absurd he.symm hne
  | beyond => rfl

/-- The bond of a machine with itself while its count stands still. -/
def standing (limit steps : Int64) : Bond :=
  .self (fun m => m.limit = limit ∧ m.steps = steps) (fun e => e ≠ .stepLimit) fun _ _ => False

theorem lifelong_counts (P : Int64 → Int64 → Prop) : Lifelong fun m => P m.limit m.steps where
  set _ _ _ h := h
  moved _ h := h
  written _ h := h
  read _ _ _ h := h
  noted _ h := h

theorem firm_standing (limit steps : Int64) : (standing limit steps).Firm :=
  Bond.firm_limits (lifelong_counts fun l s => l = limit ∧ s = steps).toEnduring fun _ he => .inl he

theorem pairs_readByte_standing (limit steps : Int64) :
    (standing limit steps).Pairs Eq readByte readByte :=
  Bond.pairs_readByte (lifelong_counts fun l s => l = limit ∧ s = steps)
    (.inl (show Fault.readFailed ≠ .stepLimit by simp))

theorem charged_of_standing {α : Type} {work : Action α} (m : Machine)
    (h : ∀ limit steps, (standing limit steps).Pairs (fun _ _ => True) work work) :
    Charged m (faultOf ((tick >>= fun _ => work) m)) (machineOf ((tick >>= fun _ => work) m)) := by
  by_cases hover : 0 < m.limit ∧ m.limit < m.steps + 1
  · have htick : tick m = .error .stepLimit { m with steps := m.steps + 1 } := by
      simp only [tick, if_pos hover]
    rw [bind_of_error htick]
    exact .beyond hover.1 hover.2
  · have htick : tick m = .ok () { m with steps := m.steps + 1 } := by
      simp only [tick, if_neg hover]
    rw [bind_of_ok htick]
    -- The step has been charged; from here on the work keeps the count and the limit.
    have hrel : (standing m.limit (m.steps + 1)).rel { m with steps := m.steps + 1 }
      { m with steps := m.steps + 1 } := ⟨rfl, rfl, rfl⟩
    have hwork := h m.limit (m.steps + 1) hrel
    generalize work { m with steps := m.steps + 1 } = r at hwork ⊢
    cases hwork with
    | ok _ hR => exact .within hover (by simp [faultOf]) hR.2.1 hR.2.2
    | error hne hR => exact .within hover (fun he => hne (Option.some.inj he)) hR.2.1 hR.2.2
    | parted hp => exact hp.elim

theorem charged_doTask (t : Task) (m : Machine) :
    Charged m (faultOf (doTask t m)) (machineOf (doTask t m)) := by
  rw [doTask_eq]
  exact charged_of_standing m fun limit steps =>
    ((firm_standing limit steps).work (Bond.sameTask_refl t) fun _ =>
      pairs_readByte_standing limit steps).mono fun _ _ _ => trivial

theorem charged_stepSymbol (s : Symbol) (jump : Option Nat) (index : Nat) (m : Machine) :
    Charged m (faultOf (stepSymbol s jump index m)) (machineOf (stepSymbol s jump index m)) := by
  rw [stepSymbol_eq]
  exact charged_of_standing m fun limit steps =>
    ((firm_standing limit steps).symbolWork s jump index fun _ =>
      pairs_readByte_standing limit steps).mono fun _ _ _ => trivial

section Steps

variable {φ τ : Type}

/-- A step that counts, unless it halts. -/
def StageCharged (view : τ → Machine) (fault : φ → Fault) (t : τ) : Stage φ τ → Prop
  | .next t' => Charged (view t) none (view t')
  | .halt _ => True
  | .fail f t' => Charged (view t) (some (fault f)) (view t')

/-- All steps of a step machine count. -/
def Charging (step : τ → Stage φ τ) (view : τ → Machine) (fault : φ → Fault) : Prop :=
  ∀ t, StageCharged view fault t (step t)

end Steps

theorem charging_direct : Charging Direct.step Direct.machine id := by
  rintro ⟨tasks, m⟩
  cases tasks with
  | nil => trivial
  | cons t rest =>
      have ht := charged_doTask t m
      simp only [Direct.step]
      generalize doTask t m = r at ht ⊢
      cases r with
      | ok new m' => exact ht
      | error e m' => exact ht

theorem charging_walk (code : Code) : Charging (Walk.step code) Walk.machine Failure.fault := by
  rintro ⟨i, m⟩
  simp only [Walk.step]
  cases code.symbols[i]? with
  | none => trivial
  | some s =>
      have hs := charged_stepSymbol s (code.jumps.getD i none) i m
      dsimp only
      generalize stepSymbol s (code.jumps.getD i none) i m = r at hs ⊢
      cases r with
      | ok next m' => exact hs
      | error e m' =>
          show Charged m (some (atSymbol i e).fault) m'
          rw [fault_atSymbol]
          exact hs

/-! ## Within the limit -/

/-- The limit of a machine, which its count has not passed. -/
def Within (limit : Int64) (m : Machine) : Prop := m.limit = limit ∧ m.steps ≤ limit

def stepsLeft (m : Machine) : Nat := (m.limit.toInt - m.steps.toInt).toNat

theorem toInt_succ {n limit : Int64} (hmax : limit < Int64.maxValue) (h : n ≤ limit) :
    (n + 1).toInt = n.toInt + 1 := by
  have hmax' : limit.toInt < 0x7fffffffffffffff := by
    rw [Int64.lt_iff_toInt_lt] at hmax
    exact hmax
  have hlow := n.le_toInt
  rw [Int64.le_iff_toInt_le] at h
  rw [Int64.toInt_add]
  apply Int.bmod_eq_of_le_mul_two <;> simp <;> omega

theorem Charged.stepsLeft {limit : Int64} {m m' : Machine} (hpos : 0 < limit)
    (hmax : limit < Int64.maxValue) (hm : Within limit m) (h : Charged m none m') :
    Within limit m' ∧ m'.stepsLeft < m.stepsLeft := by
  cases h with
  | within hover _ hlimit hsteps =>
      have hle : m.steps + 1 ≤ limit := by
        rw [hm.1] at hover
        exact Int64.not_lt.1 fun hlt => hover ⟨hpos, hlt⟩
      refine ⟨⟨hlimit.trans hm.1, hsteps ▸ hle⟩, ?_⟩
      have hsucc := toInt_succ hmax hm.2
      rw [Int64.le_iff_toInt_le, hsucc] at hle
      rw [Machine.stepsLeft, Machine.stepsLeft, hlimit, hm.1, hsteps, hsucc]
      omega

/-! ## Runs under a limit come to an end -/

section Limit

variable {limit : Int64} (hpos : 0 < limit) (hmax : limit < Int64.maxValue)

include hpos hmax

theorem Charging.settled {φ τ : Type} {step : τ → Stage φ τ} {view : τ → Machine}
    {fault : φ → Fault} (h : Charging step view fault) {t : τ} (ht : Within limit (view t)) :
    ∃ n, (iterate step n t).Settled := by
  refine ⟨(view t).stepsLeft + 1, settled_iterate (fun t => Within limit (view t))
    (fun t => (view t).stepsLeft) ?_ ht (Nat.lt_succ_self _)⟩
  intro t t' hm hnext
  have hc := h t
  rw [hnext] at hc
  exact Charged.stepsLeft hpos hmax hm hc

theorem settled_runOp {m : Machine} (hm : Within limit m) (o : Op) :
    ∃ n, (runOp n o m).Settled := by
  obtain ⟨n, hn⟩ := charging_direct.settled hpos hmax (t := ⟨[.op o], m⟩) hm
  exact ⟨n, Outcome.settled_map hn _⟩

theorem settled_runCode {m : Machine} (hm : Within limit m) (code : Code) :
    ∃ n, (runCode n code m).Settled := by
  obtain ⟨n, hn⟩ := (charging_walk code).settled hpos hmax (t := ⟨0, m⟩) hm
  exact ⟨n, Outcome.settled_map hn _⟩

theorem settled_runRendered {m : Machine} (hm : Within limit m) (o : Op) :
    ∃ n, (runRendered n o m).Settled := by
  unfold runRendered
  cases Op.render [o] with
  | error e => exact ⟨0, trivial⟩
  | ok symbols =>
      dsimp only
      cases Code.compile (Symbol.text symbols) with
      | error e => exact ⟨0, trivial⟩
      | ok code =>
          obtain ⟨n, hn⟩ := settled_runCode hpos hmax hm code
          exact ⟨n, Outcome.settled_mapError hn _⟩

/-- The bond of a machine with itself until its count has passed its limit. -/
def within (limit : Int64) : Bond :=
  .self (Within limit) (fun e => e ≠ .stepLimit) fun e m => e = .stepLimit ∧ m.steps = limit + 1

theorem lasting_within : (within limit).Lasting := by
  refine Bond.lasting_limits (lifelong_counts fun l s => l = limit ∧ s ≤ limit)
    (fun _ he => .inl he) ?_
  rintro m _ ⟨rfl, hlimit, hle⟩
  have hsucc := toInt_succ hmax hle
  dsimp only [Tuning.apply, id]
  simp only [tick, hlimit]
  split
  next hover =>
    -- The count has passed the limit in one step, so it stood at the limit.
    have hsteps : m.steps = limit := by
      apply Int64.toInt_inj.1
      rw [Int64.lt_iff_toInt_lt, Int64.lt_iff_toInt_lt, hsucc] at hover
      rw [Int64.le_iff_toInt_le] at hle
      omega
    exact .parted ⟨rfl, by rw [hsteps]⟩
  next hover =>
    exact .ok rfl ⟨rfl, rfl, Int64.not_lt.1 fun hlt => hover ⟨hpos, hlt⟩⟩

theorem settled_runEach {φ : Type} {run : Nat → Op → Machine → Outcome φ Machine}
    (place : Op → φ → Failure) (hsteady : ∀ o m, Steady fun n => run n o m)
    (hrun : ∀ o {m}, Within limit m → ∃ n, (run n o m).Settled)
    (hkeep : ∀ n o {m s}, Within limit m → run n o m = .done s → Within limit s) (ops : List Op)
    {m : Machine} (hm : Within limit m) : ∃ n, (runEach (run n) place ops m).Settled := by
  induction ops generalizing m with
  | nil => exact ⟨0, trivial⟩
  | cons o ops ih =>
      have hchain := settled_chain (g := place o) (hsteady o m)
        (fun s => steady_runEach hsteady place ops (s.note o)) (hrun o hm) ?_
      · rw [← runEach_cons] at hchain
        exact hchain
      · intro n s hs
        have hnoted := (lasting_within hpos hmax).note (m := s) (n := s) o ⟨rfl, hkeep n o hm hs⟩
        exact ih hnoted.2

theorem settled_exec (ops : List Op) {m : Machine} (hm : Within limit m) :
    ∃ n, (exec n ops m).Settled := by
  simp only [exec_eq]
  refine settled_runEach hpos hmax _ steady_runOp (fun o _ hm => settled_runOp hpos hmax hm o)
    ?_ ops hm
  intro n o m s hm hs
  have hkept := (lasting_within hpos hmax).direct.runOp (m := m) (n := m) n o ⟨rfl, hm⟩
  rw [hs] at hkept
  cases hkept with
  | done hR => exact hR.2

theorem settled_execRendered (ops : List Op) {m : Machine} (hm : Within limit m) :
    ∃ n, (execRendered n ops m).Settled := by
  simp only [execRendered_eq]
  refine settled_runEach hpos hmax _ steady_runRendered
    (fun o _ hm => settled_runRendered hpos hmax hm o) ?_ ops hm
  intro n o m s hm hs
  have hkept := (lasting_within hpos hmax).text.runRendered (m := m) (n := m) n o ⟨rfl, hm⟩
  rw [hs] at hkept
  cases hkept with
  | done hR => exact hR.2

theorem Call.settled_run (c : Call) {m : Machine} (hm : Within limit m) :
    ∃ n, (c.run n m).Settled := by
  cases c with
  | direct ops => exact settled_exec hpos hmax ops hm
  | rendered ops => exact settled_execRendered hpos hmax ops hm
  | text src =>
      show ∃ n, (execText n src m).Settled
      unfold execText
      cases Code.compile src with
      | error e => exact ⟨0, trivial⟩
      | ok code => exact settled_runCode hpos hmax hm code

end Limit

/-- A call was stopped by the step limit. -/
def LimitReached (r : Outcome Failure Machine) : Prop :=
  ∃ f, r.error? = some f ∧ f.fault = .stepLimit

theorem Call.steps_run {limit : Int64} (hpos : 0 < limit) (hmax : limit < Int64.maxValue)
    (c : Call) {m : Machine} (hm : Within limit m) (fuel : Nat) :
    (c.run fuel m).state.steps ≤ limit + 1 ∧
      (LimitReached (c.run fuel m) ↔ (c.run fuel m).state.steps = limit + 1) := by
  have hlt : limit < limit + 1 := by
    rw [Int64.lt_iff_toInt_lt, toInt_succ hmax (Int64.le_refl _)]
    omega
  have hinside : ∀ {n : Machine}, Within limit n → n.steps ≤ limit + 1 ∧ n.steps ≠ limit + 1 := by
    intro n hn
    refine ⟨Int64.le_of_lt (Int64.lt_of_le_of_lt hn.2 hlt), ?_⟩
    intro he
    rw [← he] at hlt
    exact Int64.not_lt.2 hn.2 hlt
  have hrun := (lasting_within hpos hmax).run (m := m) (n := m) c fuel ⟨rfl, hm⟩
  generalize c.run fuel m = r at hrun ⊢
  cases hrun with
  | done hR =>
      obtain ⟨hle, hne⟩ := hinside hR.2
      exact ⟨hle, fun ⟨_, hf, _⟩ => absurd hf nofun, fun he => absurd he hne⟩
  | pending hR =>
      obtain ⟨hle, hne⟩ := hinside hR.2
      exact ⟨hle, fun ⟨_, hf, _⟩ => absurd hf nofun, fun he => absurd he hne⟩
  | failed hfault hR =>
      obtain ⟨hle, hne⟩ := hinside hR.2
      refine ⟨hle, ?_, fun he => absurd he hne⟩
      rintro ⟨_, hf, hlimit⟩
      cases hf
      exact absurd hlimit hfault
  | parted hp => exact ⟨Int64.le_of_eq hp.2, fun _ => hp.2, fun _ => ⟨_, rfl, hp.1⟩⟩

/-! ## Two limits -/

/-- The bond of a machine with itself under a larger limit, until the smaller one stops it. -/
def raised (limit limit' : Int64) : Bond :=
  .limits (fun _ => limit') (fun m => m.limit = limit) (fun e => e ≠ .stepLimit)
    fun e _ => e = .stepLimit

section Raised

variable {limit limit' : Int64} (hpos : 0 < limit) (hlarger : limit' ≤ 0 ∨ limit < limit')

include hpos hlarger

theorem lasting_raised : (raised limit limit').Lasting := by
  refine Bond.lasting_limits (lifelong_counts fun l _ => l = limit) (fun _ he => .inl he) ?_
  rintro m _ ⟨rfl, rfl⟩
  dsimp only [Tuning.apply, id]
  by_cases hover : m.limit < m.steps + 1
  · simp only [tick, if_pos (And.intro hpos hover)]
    exact .parted rfl
  · have hunder : ¬ (0 < m.limit ∧ m.limit < m.steps + 1) := fun h => hover h.2
    have hunder' : ¬ (0 < limit' ∧ limit' < m.steps + 1) := by
      rintro ⟨hpos', hlt⟩
      rcases hlarger with hnone | hlarger
      · exact Int64.not_lt.2 hnone hpos'
      · exact hover (Int64.lt_trans hlarger hlt)
    simp only [tick, if_neg hunder, if_neg hunder']
    exact .ok rfl ⟨rfl, rfl⟩

theorem Call.run_raised (c : Call) {m : Machine} (hm : m.limit = limit) {fuel : Nat}
    (h : ¬ LimitReached (c.run fuel m)) :
    c.run fuel { m with limit := limit' } =
      (c.run fuel m).map fun m => { m with limit := limit' } := by
  have hrun := (lasting_raised hpos hlarger).run c fuel (m := m)
    (n := { m with limit := limit' }) ⟨rfl, hm⟩
  generalize c.run fuel m = r at hrun h ⊢
  generalize c.run fuel { m with limit := limit' } = r' at hrun ⊢
  cases hrun with
  | done hR =>
      obtain ⟨rfl, _⟩ := hR
      rfl
  | failed _ hR =>
      obtain ⟨rfl, _⟩ := hR
      rfl
  | pending hR =>
      obtain ⟨rfl, _⟩ := hR
      rfl
  | parted hp => exact absurd ⟨_, rfl, hp⟩ h

end Raised

/-! ## What has been emitted -/

/-- The second machine has emitted what the first has, and perhaps more. -/
def Behind (m n : Machine) : Prop := m.output.bytes.toList <+: n.output.bytes.toList

theorem prefix_write (s : Sink) (bs : Bytes) :
    s.bytes.toList <+: (s.write bs).1.bytes.toList := by
  unfold Sink.write
  split
  · simp
  · split
    · simp
    · simp

theorem lifelong_behind (m : Machine) : Lifelong (Behind m) where
  set _ _ _ h := h
  moved _ h := h
  written bs h := h.trans (prefix_write _ bs)
  read _ _ _ h := h
  noted _ h := h

theorem persistent_behind (m : Machine) : Persistent (Behind m) :=
  persistent_of_lifelong (lifelong_behind m) fun _ _ h => h

/-- If the limit stops the first run, that run is behind the second. -/
def Trails {φ ψ : Type} (fault : φ → Fault) (r : Outcome φ Machine) (r' : Outcome ψ Machine) :
    Prop :=
  ∀ ⦃f : φ⦄ ⦃s : Machine⦄, r = .failed f s → fault f = .stepLimit → Behind s r'.state

section Raised

variable {limit limit' : Int64} (hpos : 0 < limit) (hlarger : limit' ≤ 0 ∨ limit < limit')
  {m n : Machine}

theorem behind_counted {m n : Machine} (steps : Int64) (hR : (raised limit limit').rel m n) :
    Behind { m with steps } n := by
  obtain ⟨rfl, -⟩ := hR
  exact List.prefix_rfl

include hpos hlarger

/-- The count is all that changes in the task at which the limit stops a run. -/
theorem direct_raised : (raised limit limit').LastingDirect fun _ => Behind where
  doTask := (lasting_raised hpos hlarger).doTask
  note := (lasting_raised hpos hlarger).note
  parted {t u m m' n e} _ hR hm hp := by
    have hcharged := charged_doTask t m
    rw [hm] at hcharged
    have hstopped : Charged m (some .stepLimit) m' := hp ▸ hcharged
    rw [hstopped.eq_of_stopped]
    exact (persistent_behind _).doTask u (behind_counted _ hR)
  persists _ m := persistent_behind m

/-- The count is all that changes in the symbol at which the limit stops a run. -/
theorem text_raised : (raised limit limit').LastingText fun _ => Behind where
  stepSymbol := (lasting_raised hpos hlarger).stepSymbol
  note := (lasting_raised hpos hlarger).note
  parted {s jump index m m' n e} hR hm hp := by
    have hcharged := charged_stepSymbol s jump index m
    rw [hm] at hcharged
    have hstopped : Charged m (some .stepLimit) m' := hp ▸ hcharged
    rw [hstopped.eq_of_stopped]
    exact (persistent_behind _).stepSymbol s jump index (behind_counted _ hR)
  persists _ m := persistent_behind m
  fails hlimit _ _ := .inl hlimit

theorem Call.trails_run (c : Call) (fuel : Nat) (hR : (raised limit limit').rel m n) :
    Trails Failure.fault (c.run fuel m) (c.run fuel n) := by
  intro f s hr hf
  have hrun := Bond.outcomes_run (direct_raised hpos hlarger) (text_raised hpos hlarger) c fuel hR
  rw [hr] at hrun
  generalize c.run fuel n = r' at hrun ⊢
  cases hrun with
  | failed hs _ => exact absurd hf hs
  | parted hK => exact hK

end Raised

/-- Under a limit every call comes to an end, endless loops or not. It is stopped by the limit
exactly if the count has passed the limit, and then by one. A call that the limit does not stop
ends in the same way under any larger limit and under none; what a call has emitted when the
limit stops it, it has emitted there as well, before anything else. Every stream is finite: no read
waits for a byte that never comes. -/
theorem Call.run_within_limit (c : Call) (m : Machine) (hpos : 0 < m.limit)
    (hmax : m.limit < Int64.maxValue) (hsteps : m.steps ≤ m.limit) :
    (∃ fuel, (c.run fuel m).Settled) ∧
      ∀ fuel, (c.run fuel m).Settled →
        (c.run fuel m).state.steps ≤ m.limit + 1 ∧
        (LimitReached (c.run fuel m) ↔ (c.run fuel m).state.steps = m.limit + 1) ∧
        ∀ limit', limit' ≤ 0 ∨ m.limit < limit' →
          (¬ LimitReached (c.run fuel m) → c.run fuel { m with limit := limit' } =
            (c.run fuel m).map fun m => { m with limit := limit' }) ∧
          (LimitReached (c.run fuel m) → ∀ fuel', fuel ≤ fuel' →
            (c.run fuel m).state.output.bytes.toList <+:
              (c.run fuel' { m with limit := limit' }).state.output.bytes.toList) := by
  have hm : Within m.limit m := ⟨rfl, hsteps⟩
  refine ⟨c.settled_run hpos hmax hm, fun fuel hsettled => ?_⟩
  obtain ⟨hle, hiff⟩ := c.steps_run hpos hmax hm fuel
  refine ⟨hle, hiff, fun limit' hlarger => ⟨c.run_raised hpos hlarger rfl, ?_⟩⟩
  rintro ⟨f, hf, hfault⟩ fuel' hfuel
  -- The first run is over, so it may be given the steps of the second.
  have hsame : c.run fuel' m = c.run fuel m := c.steady_run m hfuel hsettled
  have htrails := c.trails_run hpos hlarger fuel' (m := m) ⟨rfl, rfl⟩
  rw [hsame] at htrails
  cases hr : c.run fuel m with
  | done s =>
      rw [hr] at hf
      cases hf
  | pending s =>
      rw [hr] at hf
      cases hf
  | failed e s =>
      rw [hr] at hf
      cases hf
      exact htrails hr hfault

/-- A loop without a body that never ends, after some output, under a limit of seven steps. -/
theorem Call.run_within_limit_endless :
    ((Call.direct [.add 3, .loop [.write, .loop []]]).run 20
        { tape := #[0], width := .one, limit := 7 }).state.steps = 8 ∧
      ∀ limit', limit' ≤ 0 ∨ 7 < limit' → ∀ fuel', 20 ≤ fuel' →
        [3] <+: ((Call.direct [.add 3, .loop [.write, .loop []]]).run fuel'
          { tape := #[0], width := .one, limit := limit' }).state.output.bytes.toList := by
  have h := (Call.direct [.add 3, .loop [.write, .loop []]]).run_within_limit
    { tape := #[0], width := .one, limit := 7 } (by decide) (by decide) (by decide)
  obtain ⟨-, hreached, hlarger⟩ := h.2 20 trivial
  have hlimit : LimitReached ((Call.direct [.add 3, .loop [.write, .loop []]]).run 20
      { tape := #[0], width := .one, limit := 7 }) := ⟨_, rfl, rfl⟩
  exact ⟨hreached.1 hlimit, fun limit' h => (hlarger limit' h).2 hlimit⟩

end Machine

end TapeForge
