import TapeForge.Proofs.Cells
import TapeForge.Proofs.Coupling
import TapeForge.Proofs.DirectRun
import TapeForge.Proofs.TextRun

/-!
# Runs side by side

Two step machines whose steps stay side by side stay so for as many steps as they take, unless the
first stops at a fault that the second need not share. So a bond that lasts from step to step lasts
through every call: ops run directly, the text of each op in turn, or a whole text. What holds
between the first machine where it stopped and the second a step later, and is kept by every step
of the second, holds when the second has come to its end.
-/

namespace TapeForge

/-! ## Step machines -/

section Steps

variable {φ ψ σ σ' τ υ : Type}

def Stage.state : Stage φ τ → τ
  | next t => t
  | halt t => t
  | fail _ t => t

theorem state_iterate {step : τ → Stage φ τ} {I : τ → Prop} (h : ∀ t, I t → I (step t).state)
    (n : Nat) {t : τ} (ht : I t) : I (iterate step n t).state := by
  induction n generalizing t with
  | zero => exact ht
  | succ n ih =>
      have hs := h t ht
      rw [iterate]
      cases hstep : step t with
      | next t' =>
          rw [hstep] at hs
          exact ih hs
      | halt t' =>
          rw [hstep] at hs
          exact hs
      | fail f t' =>
          rw [hstep] at hs
          exact hs

/-- Steps of two machines side by side. With a fault in `parts` the first stops alone. -/
inductive Stage.Abreast (Q : τ → υ → Prop) (shared : φ → Prop) (parts : φ → τ → υ → Prop) :
    Stage φ τ → Stage φ υ → Prop
  | next {t : τ} {u : υ} : Q t u → Abreast Q shared parts (.next t) (.next u)
  | halt {t : τ} {u : υ} : Q t u → Abreast Q shared parts (.halt t) (.halt u)
  | fail {f : φ} {t : τ} {u : υ} : shared f → Q t u →
      Abreast Q shared parts (.fail f t) (.fail f u)
  | parted {f : φ} {t : τ} {r : Stage φ υ} : parts f t r.state →
      Abreast Q shared parts (.fail f t) r

/-- Runs of two machines side by side. With a fault in `parts` the first stops alone. -/
inductive Outcome.Abreast (Q : τ → υ → Prop) (shared : φ → Prop) (parts : φ → τ → υ → Prop) :
    Outcome φ τ → Outcome φ υ → Prop
  | done {t : τ} {u : υ} : Q t u → Abreast Q shared parts (.done t) (.done u)
  | failed {f : φ} {t : τ} {u : υ} : shared f → Q t u →
      Abreast Q shared parts (.failed f t) (.failed f u)
  | pending {t : τ} {u : υ} : Q t u → Abreast Q shared parts (.pending t) (.pending u)
  | parted {f : φ} {t : τ} {r : Outcome φ υ} : parts f t r.state →
      Abreast Q shared parts (.failed f t) r

variable {Q : τ → υ → Prop} {shared : φ → Prop} {parts : φ → τ → υ → Prop}

theorem abreast_iterate {step : τ → Stage φ τ} {step' : υ → Stage φ υ}
    (h : ∀ t u, Q t u → Stage.Abreast Q shared parts (step t) (step' u))
    (hkeep : ∀ f t u, parts f t u → parts f t (step' u).state) (n : Nat) {t : τ} {u : υ}
    (hQ : Q t u) : Outcome.Abreast Q shared parts (iterate step n t) (iterate step' n u) := by
  induction n generalizing t u with
  | zero => exact .pending hQ
  | succ n ih =>
      have hs := h t u hQ
      rw [iterate, iterate]
      generalize step t = r at hs ⊢
      generalize step' u = r' at hs ⊢
      cases hs with
      | next hQ' => exact ih hQ'
      | halt hQ' => exact .done hQ'
      | fail hf hQ' => exact .failed hf hQ'
      | parted hp =>
          refine .parted ?_
          -- The first machine has stopped; wherever the second one goes from here, `parts` is kept.
          cases r' with
          | next u' => exact state_iterate (hkeep _ _) n hp
          | halt u' => exact hp
          | fail f u' => exact hp

theorem Outcome.Abreast.map {R : σ → σ' → Prop} {parts' : φ → σ → σ' → Prop} (f : τ → σ)
    (g : υ → σ') (hQ : ∀ {t u}, Q t u → R (f t) (g u))
    (hp : ∀ {e t u}, parts e t u → parts' e (f t) (g u)) {r : Outcome φ τ} {r' : Outcome φ υ}
    (h : Outcome.Abreast Q shared parts r r') :
    Outcome.Abreast R shared parts' (r.map f) (r'.map g) := by
  cases h with
  | done h => exact .done (hQ h)
  | failed hf h => exact .failed hf (hQ h)
  | pending h => exact .pending (hQ h)
  | parted h => exact .parted (by rw [Outcome.state_map]; exact hp h)

theorem Outcome.Abreast.mapError {shared' : ψ → Prop} {parts' : ψ → τ → υ → Prop} (g : φ → ψ)
    (hs : ∀ {e}, shared e → shared' (g e)) (hp : ∀ {e t u}, parts e t u → parts' (g e) t u)
    {r : Outcome φ τ} {r' : Outcome φ υ} (h : Outcome.Abreast Q shared parts r r') :
    Outcome.Abreast Q shared' parts' (r.mapError g) (r'.mapError g) := by
  cases h with
  | done h => exact .done h
  | failed hf h => exact .failed (hs hf) h
  | pending h => exact .pending h
  | parted h => exact .parted (by rw [Outcome.state_mapError]; exact hp h)

/-- Where the first run does not stop alone, the second is an image of it. -/
theorem Outcome.Abreast.eq_map {f : τ → υ} {I : τ → Prop} {r : Outcome φ τ} {r' : Outcome φ υ}
    (h : Outcome.Abreast (fun t u => u = f t ∧ I t) shared parts r r')
    (hno : ∀ e t, r = .failed e t → ∀ u, ¬ parts e t u) : r' = r.map f := by
  cases h with
  | done hQ => rw [hQ.1, Outcome.map]
  | failed _ hQ => rw [hQ.1, Outcome.map]
  | pending hQ => rw [hQ.1, Outcome.map]
  | parted hp => exact absurd hp (hno _ _ rfl _)

end Steps

namespace Machine

open TapeForge.Machine.Action TapeForge.Effect

/-! ## One op after the other -/

section Each

variable {φ : Type}

/-- Runs ops in order, each in the same way and by itself, and notes each that succeeds. -/
def runEach (run : Op → Machine → Outcome φ Machine) (place : Op → φ → Failure) :
    List Op → Machine → Outcome Failure Machine
  | [], m => .done m
  | o :: rest, m =>
    match run o m with
    | .done m => runEach run place rest (m.note o)
    | .failed e m => .failed (place o e) m
    | .pending m => .pending m

theorem runEach_cons (run : Nat → Op → Machine → Outcome φ Machine) (place : Op → φ → Failure)
    (o : Op) (ops : List Op) (m : Machine) :
    (fun n => runEach (run n) place (o :: ops) m) =
      chain (fun n => run n o m) (place o) fun s n => runEach (run n) place ops (s.note o) := by
  funext n
  rw [runEach, chain]
  cases run n o m <;> rfl

theorem steady_runEach {run : Nat → Op → Machine → Outcome φ Machine}
    (h : ∀ o m, Steady fun n => run n o m) (place : Op → φ → Failure) (ops : List Op)
    (m : Machine) : Steady fun n => runEach (run n) place ops m := by
  induction ops generalizing m with
  | nil => exact steady_const _
  | cons o ops ih =>
      rw [runEach_cons]
      exact steady_chain (h o m) fun s => ih (s.note o)

theorem state_runEach {run : Op → Machine → Outcome φ Machine} {I : Machine → Prop}
    (h : ∀ o m, I m → I (run o m).state) (hnote : ∀ o m, I m → I (m.note o))
    (place : Op → φ → Failure) (ops : List Op) {m : Machine} (hm : I m) :
    I (runEach run place ops m).state := by
  induction ops generalizing m with
  | nil => exact hm
  | cons o ops ih =>
      have ho := h o m hm
      rw [runEach]
      cases hr : run o m with
      | done n =>
          rw [hr] at ho
          exact ih (hnote o n ho)
      | failed e n =>
          rw [hr] at ho
          exact ho
      | pending n =>
          rw [hr] at ho
          exact ho

end Each

theorem exec_eq (fuel : Nat) (ops : List Op) (m : Machine) :
    exec fuel ops m = runEach (runOp fuel) (fun o e => ⟨[.op o.label], e⟩) ops m := by
  induction ops generalizing m with
  | nil => rfl
  | cons o ops ih =>
      rw [exec, runEach]
      cases runOp fuel o m with
      | done n => exact ih (n.note o)
      | failed e n => rfl
      | pending n => rfl

theorem execRendered_eq (fuel : Nat) (ops : List Op) (m : Machine) :
    execRendered fuel ops m = runEach (runRendered fuel) (fun _ e => e) ops m := by
  induction ops generalizing m with
  | nil => rfl
  | cons o ops ih =>
      rw [execRendered, runEach]
      cases runRendered fuel o m with
      | done n => exact ih (n.note o)
      | failed e n => rfl
      | pending n => rfl

/-! ## Calls -/

/-- A way to run a machine. -/
inductive Call where
  /-- Ops, as they are. -/
  | direct (ops : List Op)
  /-- The text of each op in turn. -/
  | rendered (ops : List Op)
  /-- A whole text. -/
  | text (src : Bytes)

namespace Call

def run (c : Call) (fuel : Nat) (m : Machine) : Outcome Failure Machine :=
  match c with
  | direct ops => exec fuel ops m
  | rendered ops => execRendered fuel ops m
  | text src => execText fuel src m

theorem steady_run (c : Call) (m : Machine) : Steady fun fuel => c.run fuel m := by
  cases c with
  | direct ops => exact steady_exec ops m
  | rendered ops => exact steady_execRendered ops m
  | text src =>
      show Steady fun fuel => execText fuel src m
      unfold execText
      cases Code.compile src with
      | error e => exact steady_const _
      | ok code => exact steady_runCode code m

end Call

/-! ## What every step keeps -/

/-- A property that no step ends, nor noting. -/
structure Persistent (I : Machine → Prop) : Prop where
  doTask (t : Task) {m : Machine} : I m → I (machineOf (doTask t m))
  stepSymbol (s : Symbol) (jump : Option Nat) (index : Nat) {m : Machine} :
    I m → I (machineOf (stepSymbol s jump index m))
  note (o : Op) {m : Machine} : I m → I (m.note o)

theorem persistent_const (P : Prop) : Persistent fun _ => P where
  doTask _ _ h := h
  stepSymbol _ _ _ _ h := h
  note _ _ h := h

namespace Persistent

variable {I : Machine → Prop} (h : Persistent I)

include h

theorem given (P : Prop) : Persistent fun m => P ∧ I m where
  doTask t _ hm := ⟨hm.1, h.doTask t hm.2⟩
  stepSymbol s jump index _ hm := ⟨hm.1, h.stepSymbol s jump index hm.2⟩
  note o _ hm := ⟨hm.1, h.note o hm.2⟩

theorem step_direct (d : Direct) (hd : I d.machine) : I d.step.state.machine := by
  obtain ⟨tasks, m⟩ := d
  cases tasks with
  | nil => exact hd
  | cons t rest =>
      have ht := h.doTask t hd
      simp only [Direct.step]
      generalize Machine.doTask t m = r at ht ⊢
      cases r with
      | ok new m' => exact ht
      | error e m' => exact ht

theorem step_walk (code : Code) (w : Walk) (hw : I w.machine) :
    I (w.step code).state.machine := by
  obtain ⟨i, m⟩ := w
  simp only [Walk.step]
  cases code.symbols[i]? with
  | none => exact hw
  | some s =>
      have hs := h.stepSymbol s (code.jumps.getD i none) i hw
      dsimp only
      generalize Machine.stepSymbol s (code.jumps.getD i none) i m = r at hs ⊢
      cases r with
      | ok next m' => exact hs
      | error e m' => exact hs

theorem runOp (fuel : Nat) (o : Op) (m : Machine) (hm : I m) : I (runOp fuel o m).state := by
  rw [Machine.runOp, Outcome.state_map]
  exact state_iterate (I := fun d : Direct => I d.machine) h.step_direct fuel hm

theorem runCode (fuel : Nat) (code : Code) (m : Machine) (hm : I m) :
    I (runCode fuel code m).state := by
  rw [Machine.runCode, Outcome.state_map]
  exact state_iterate (I := fun w : Walk => I w.machine) (h.step_walk code) fuel hm

theorem execText (fuel : Nat) (src : Bytes) (m : Machine) (hm : I m) :
    I (execText fuel src m).state := by
  unfold Machine.execText
  cases Code.compile src with
  | error e => exact hm
  | ok code => exact h.runCode fuel code m hm

theorem runRendered (fuel : Nat) (o : Op) (m : Machine) (hm : I m) :
    I (runRendered fuel o m).state := by
  unfold Machine.runRendered
  cases Op.render [o] with
  | error e => exact hm
  | ok symbols =>
      dsimp only
      cases Code.compile (Symbol.text symbols) with
      | error e => exact hm
      | ok code =>
          dsimp only
          rw [Outcome.state_mapError]
          exact h.runCode fuel code m hm

/-- What every step keeps, every call keeps. -/
theorem run (c : Call) (fuel : Nat) {m : Machine} (hm : I m) : I (c.run fuel m).state := by
  cases c with
  | direct ops =>
      show I (exec fuel ops m).state
      rw [exec_eq]
      exact state_runEach (h.runOp fuel) (fun o _ => h.note o) _ ops hm
  | rendered ops =>
      show I (execRendered fuel ops m).state
      rw [execRendered_eq]
      exact state_runEach (h.runRendered fuel) (fun o _ => h.note o) _ ops hm
  | text src => exact h.execText fuel src m hm

end Persistent

/-! ## Bonds that last -/

namespace Bond

/-- Ends of two runs side by side. If the first stops alone, `K` holds between the machine in which
it stops and the machine in which the second ends. -/
abbrev Outcomes (B : Bond) (K : Fault → Machine → Machine → Prop) :
    Outcome Failure Machine → Outcome Failure Machine → Prop :=
  Outcome.Abreast B.rel (fun f => B.shared f.fault) fun f => K f.fault

/-- Nothing is said of the second machine when the first stops alone. -/
abbrev alone (B : Bond) (e : Fault) (m _ : Machine) : Prop := B.parts e m

section Each

variable {B : Bond} {K : Fault → Machine → Machine → Prop} {m n : Machine}

theorem outcomes_failed {e : Fault} (he : B.shared e ∨ K e m n) (hR : B.rel m n)
    (places : List Place) : B.Outcomes K (.failed ⟨places, e⟩ m) (.failed ⟨places, e⟩ n) := by
  rcases he with hs | hp
  · exact .failed hs hR
  · exact .parted hp

theorem outcomes_runEach {φ : Type} {run : Op → Machine → Outcome φ Machine}
    {place : Op → φ → Failure} (fault : φ → Fault) (hplace : ∀ o e, (place o e).fault = fault e)
    (hnote : ∀ {m n} (o : Op), B.rel m n → B.rel (m.note o) (n.note o))
    (hrun : ∀ o {m n}, B.rel m n → Outcome.Abreast B.rel (fun e => B.shared (fault e))
      (fun e => K (fault e)) (run o m) (run o n))
    (hK : ∀ e m, Persistent (K e m)) (hkeep : ∀ o e m n, K e m n → K e m (run o n).state)
    (ops : List Op) (hR : B.rel m n) :
    B.Outcomes K (runEach run place ops m) (runEach run place ops n) := by
  induction ops generalizing m n with
  | nil => exact .done hR
  | cons o ops ih =>
      have ho := hrun o hR
      rw [runEach, runEach]
      generalize run o m = r at ho ⊢
      generalize run o n = r' at ho ⊢
      cases ho with
      | done hR' => exact ih (hnote o hR')
      | failed hs hR' => exact .failed (by rwa [hplace]) hR'
      | pending hR' => exact .pending hR'
      | parted hp =>
          refine .parted ?_
          rw [hplace]
          -- Only the second machine goes on, with the other ops, and `K` outlasts those.
          cases r' with
          | done n' =>
              exact state_runEach (fun o n => hkeep o _ _ n) (fun o _ => (hK _ _).note o) place ops
                ((hK _ _).note o hp)
          | failed e' n' => exact hp
          | pending n' => exact hp

end Each

/-- A bond that every task of a direct run keeps, and noting. `K` holds after the task at which the
first machine stops alone, and is kept. -/
structure LastingDirect (B : Bond) (K : Fault → Machine → Machine → Prop) : Prop where
  doTask {t u : Task} : B.SameTask t u → B.Pairs B.SameTasks (doTask t) (doTask u)
  note {m n : Machine} (o : Op) : B.rel m n → B.rel (m.note o) (n.note o)
  parted {t u : Task} {m m' n : Machine} {e : Fault} : B.SameTask t u → B.rel m n →
    Machine.doTask t m = .error e m' → B.parts e m' → K e m' (machineOf (Machine.doTask u n))
  persists (e : Fault) (m : Machine) : Persistent (K e m)

/-- A bond that every symbol keeps, and noting. `K` holds after the symbol at which the first
machine stops alone, and is kept. -/
structure LastingText (B : Bond) (K : Fault → Machine → Machine → Prop) : Prop where
  stepSymbol (s : Symbol) (jump : Option Nat) (index : Nat) :
    B.Pairs Eq (stepSymbol s jump index) (stepSymbol s jump index)
  note {m n : Machine} (o : Op) : B.rel m n → B.rel (m.note o) (n.note o)
  parted {s : Symbol} {jump : Option Nat} {index : Nat} {m m' n : Machine} {e : Fault} :
    B.rel m n → Machine.stepSymbol s jump index m = .error e m' → B.parts e m' →
    K e m' (machineOf (Machine.stepSymbol s jump index n))
  persists (e : Fault) (m : Machine) : Persistent (K e m)
  fails {m n : Machine} {e : Fault} : e ≠ .stepLimit → e ≠ .writeFailed → B.rel m n →
    B.shared e ∨ K e m n

/-- A bond that counting, reading and noting keep as well. -/
structure Lasting (B : Bond) : Prop extends B.Firm where
  tick : B.Pairs Eq tick tick
  readByte : B.Pairs Eq readByte readByte
  note {m n : Machine} (o : Op) : B.rel m n → B.rel (m.note o) (n.note o)

namespace LastingDirect

variable {B : Bond} {K : Fault → Machine → Machine → Prop} (h : B.LastingDirect K) {m n : Machine}

include h

theorem step {d d' : Direct} (ht : B.SameTasks d.tasks d'.tasks)
    (hR : B.rel d.machine d'.machine) :
    Stage.Abreast (fun d d' : Direct => B.SameTasks d.tasks d'.tasks ∧ B.rel d.machine d'.machine)
      B.shared (fun e d d' => K e d.machine d'.machine) d.step d'.step := by
  obtain ⟨ts, m⟩ := d
  obtain ⟨us, n⟩ := d'
  cases ht with
  | nil => exact .halt ⟨.nil, hR⟩
  | @cons t u ts us htu hts =>
      have hr := h.doTask htu hR
      have hK := fun {e m'} => @h.parted _ _ _ m' _ e htu hR
      show Stage.Abreast _ _ _ (Direct.step ⟨t :: ts, m⟩) (Direct.step ⟨u :: us, n⟩)
      simp only [Direct.step]
      generalize Machine.doTask t m = r at hr hK ⊢
      generalize Machine.doTask u n = r' at hr hK ⊢
      cases hr with
      | ok hnew hR' => exact .next ⟨List.rel_append hnew hts, hR'⟩
      | error hs hR' => exact .fail hs ⟨hts, hR'⟩
      | parted hp =>
          -- `parted` speaks of one task of the second machine, whether it succeeds or not.
          refine .parted ?_
          cases r' with
          | ok new n' => exact hK rfl hp
          | error e' n' => exact hK rfl hp

theorem runOp (fuel : Nat) (o : Op) (hR : B.rel m n) :
    Outcome.Abreast B.rel B.shared K (runOp fuel o m) (runOp fuel o n) := by
  have hsteps := abreast_iterate (fun _ _ hQ => h.step hQ.1 hQ.2)
    (fun e d d' hK => (h.persists e d.machine).step_direct d' hK) fuel
    (show _ ∧ B.rel (Direct.mk [.op o] m).machine (Direct.mk [.op o] n).machine from
      ⟨.cons (.op o) .nil, hR⟩)
  exact hsteps.map Direct.machine Direct.machine (fun hQ => hQ.2) fun hp => hp

theorem exec (fuel : Nat) (ops : List Op) (hR : B.rel m n) :
    B.Outcomes K (exec fuel ops m) (exec fuel ops n) := by
  rw [exec_eq, exec_eq]
  exact outcomes_runEach id (fun _ _ => rfl) h.note (fun o _ _ hR => h.runOp fuel o hR) h.persists
    (fun o e m n hK => (h.persists e m).runOp fuel o n hK) ops hR

end LastingDirect

namespace LastingText

variable {B : Bond} {K : Fault → Machine → Machine → Prop} (h : B.LastingText K) {m n : Machine}

include h

theorem step (code : Code) {w w' : Walk} (hi : w.index = w'.index)
    (hR : B.rel w.machine w'.machine) :
    Stage.Abreast (fun w w' : Walk => w.index = w'.index ∧ B.rel w.machine w'.machine)
      (fun f => B.shared f.fault) (fun f w w' => K f.fault w.machine w'.machine)
      (Walk.step code w) (Walk.step code w') := by
  obtain ⟨i, m⟩ := w
  obtain ⟨j, n⟩ := w'
  cases hi
  simp only [Walk.step]
  cases code.symbols[i]? with
  | none => exact .halt ⟨rfl, hR⟩
  | some s =>
      have hr := h.stepSymbol s (code.jumps.getD i none) i hR
      have hK := fun {e m'} => @h.parted s (code.jumps.getD i none) i m m' n e hR
      dsimp only
      generalize Machine.stepSymbol s (code.jumps.getD i none) i m = r at hr hK ⊢
      generalize Machine.stepSymbol s (code.jumps.getD i none) i n = r' at hr hK ⊢
      cases hr with
      | ok hij hR' => exact .next ⟨hij, hR'⟩
      | error hs hR' => exact .fail (by rwa [fault_atSymbol]) ⟨rfl, hR'⟩
      | parted hp =>
          refine .parted ?_
          rw [fault_atSymbol]
          cases r' with
          | ok next n' => exact hK rfl hp
          | error e' n' => exact hK rfl hp

theorem runCode (fuel : Nat) (code : Code) (hR : B.rel m n) :
    B.Outcomes K (runCode fuel code m) (runCode fuel code n) := by
  have hsteps := abreast_iterate (fun _ _ hQ => h.step code hQ.1 hQ.2)
    (fun f w w' hK => (h.persists f.fault w.machine).step_walk code w' hK) fuel
    (show _ ∧ B.rel (Walk.mk 0 m).machine (Walk.mk 0 n).machine from ⟨rfl, hR⟩)
  exact hsteps.map Walk.machine Walk.machine (fun hQ => hQ.2) fun hp => hp

theorem execText (fuel : Nat) (src : Bytes) (hR : B.rel m n) :
    B.Outcomes K (execText fuel src m) (execText fuel src n) := by
  unfold Machine.execText
  cases Code.compile src with
  | error e => exact outcomes_failed (h.fails (by simp) (by simp) hR) hR _
  | ok code => exact h.runCode fuel code hR

theorem runRendered (fuel : Nat) (o : Op) (hR : B.rel m n) :
    B.Outcomes K (runRendered fuel o m) (runRendered fuel o n) := by
  unfold Machine.runRendered
  cases Op.render [o] with
  | error e => exact outcomes_failed (h.fails (by simp) (by simp) hR) hR _
  | ok symbols =>
      dsimp only
      cases Code.compile (Symbol.text symbols) with
      | error e => exact outcomes_failed (h.fails (by simp) (by simp) hR) hR _
      | ok code =>
          exact (h.runCode fuel code hR).mapError (Failure.inside (.op o.label)) (fun hs => hs)
            fun hp => hp

theorem execRendered (fuel : Nat) (ops : List Op) (hR : B.rel m n) :
    B.Outcomes K (execRendered fuel ops m) (execRendered fuel ops n) := by
  rw [execRendered_eq, execRendered_eq]
  exact outcomes_runEach Failure.fault (fun _ _ => rfl) h.note
    (fun o _ _ hR => h.runRendered fuel o hR) h.persists
    (fun o f m n hK => (h.persists f m).runRendered fuel o n hK) ops hR

end LastingText

namespace Lasting

variable {B : Bond} (h : B.Lasting) {m n : Machine}

include h

theorem doTask {t u : Task} (ht : B.SameTask t u) : B.Pairs B.SameTasks (doTask t) (doTask u) := by
  rw [doTask_eq, doTask_eq]
  exact h.tick.then fun _ => h.work ht fun _ => h.readByte

theorem stepSymbol (s : Symbol) (jump : Option Nat) (index : Nat) :
    B.Pairs Eq (stepSymbol s jump index) (stepSymbol s jump index) := by
  rw [stepSymbol_eq]
  exact h.tick.then fun _ => h.symbolWork s jump index fun _ => h.readByte

theorem direct : B.LastingDirect B.alone where
  doTask := h.doTask
  note := h.note
  parted _ _ _ hp := hp
  persists e m := persistent_const (B.parts e m)

theorem text : B.LastingText B.alone where
  stepSymbol := h.stepSymbol
  note := h.note
  parted _ _ hp := hp
  persists e m := persistent_const (B.parts e m)
  fails hlimit hwrite hR := (h.admits hlimit hwrite).imp_right fun hp => hp _ _ hR

end Lasting

/-- What lasts from step to step lasts through a call. -/
theorem outcomes_run {B : Bond} {K : Fault → Machine → Machine → Prop} (hd : B.LastingDirect K)
    (ht : B.LastingText K) {m n : Machine} (c : Call) (fuel : Nat) (hR : B.rel m n) :
    B.Outcomes K (c.run fuel m) (c.run fuel n) := by
  cases c with
  | direct ops => exact hd.exec fuel ops hR
  | rendered ops => exact ht.execRendered fuel ops hR
  | text src => exact ht.execText fuel src hR

theorem Lasting.run {B : Bond} (h : B.Lasting) {m n : Machine} (c : Call) (fuel : Nat)
    (hR : B.rel m n) : B.Outcomes B.alone (c.run fuel m) (c.run fuel n) :=
  outcomes_run h.direct h.text c fuel hR

end Bond

/-! ## A machine beside itself -/

/-- A property that no action other than counting and reading ends. -/
structure Enduring (I : Machine → Prop) : Prop where
  set {m : Machine} (i : Nat) {v : UInt64} : m.width.Fits v → I m → I (m.set i v)
  moved {m : Machine} (n : Int64) : I m → I (m.moved n)
  written {m : Machine} (bs : Bytes) : I m → I { m with output := (m.output.write bs).1 }

/-- A property that only counting may end. -/
structure Lifelong (I : Machine → Prop) : Prop extends Enduring I where
  read {m : Machine} (input : Array UInt8) (cursor : Nat) (live : Option Reader) :
    I m → I { m with input, cursor, live }
  noted {m : Machine} (records : Array TraceRecord) : I m → I { m with records }

theorem lifelong_true : Lifelong fun _ => True where
  set _ _ _ h := h
  moved _ h := h
  written _ h := h
  read _ _ _ h := h
  noted _ h := h

/-- Another limit, another mode and another output for a machine. -/
structure Tuning where
  limit : Int64 → Int64 := id
  checked : Bool → Bool := id
  output : Sink → Sink := id

def Tuning.apply (T : Tuning) (m : Machine) : Machine :=
  { m with limit := T.limit m.limit, checked := T.checked m.checked, output := T.output m.output }

theorem note_apply (T : Tuning) (m : Machine) (o : Op) :
    (T.apply m).note o = T.apply (m.note o) := by
  unfold note
  rw [Tuning.apply]
  dsimp only
  split
  · rfl
  · rfl

namespace Bond

/-- The bond of a machine with the same machine tuned, for as long as it has a property. -/
def tuned (T : Tuning) (I : Machine → Prop) (shared : Fault → Prop)
    (parts : Fault → Machine → Prop) : Bond where
  rel m n := n = T.apply m ∧ I m
  cell := Eq
  shared := shared
  parts := parts

/-- The bond of a machine with itself under another limit. -/
abbrev limits (change : Int64 → Int64) (I : Machine → Prop) (shared : Fault → Prop)
    (parts : Fault → Machine → Prop) : Bond :=
  tuned { limit := change } I shared parts

/-- The bond of a machine with itself. -/
abbrev self (I : Machine → Prop) (shared : Fault → Prop) (parts : Fault → Machine → Prop) : Bond :=
  tuned {} I shared parts

section Tuned

variable {T : Tuning} {I : Machine → Prop} {shared : Fault → Prop} {parts : Fault → Machine → Prop}

theorem sameTask_refl (t : Task) : (tuned T I shared parts).SameTask t t := by
  cases t with
  | op o => exact .op o
  | again body => exact .again body
  | emitting code char left => exact .emitting code rfl rfl

theorem bare_tuned (h : Enduring I)
    (hadmits : ∀ e, e ≠ .stepLimit → e ≠ .writeFailed → (tuned T I shared parts).Admits e) :
    (tuned T I shared parts).Bare where
  locate o := by
    rintro m _ ⟨rfl, hm⟩
    dsimp only [Tuning.apply]
    simp only [locate, index?]
    split
    · exact .ok rfl ⟨rfl, hm⟩
    · exact (hadmits _ (by simp) (by simp)).ends ⟨rfl, hm⟩
  peek := by
    rintro i _ rfl m _ ⟨rfl, hm⟩
    exact .ok rfl ⟨rfl, hm⟩
  poke := by
    rintro i _ b rfl m _ ⟨rfl, hm⟩
    exact .ok rfl ⟨rfl, h.set i (m.width.fits_byte b) hm⟩
  bump := by
    rintro i _ v rfl m _ ⟨rfl, hm⟩
    exact .ok rfl ⟨rfl, h.set i (m.width.fits_cut _) hm⟩
  shift := by
    rintro k m _ ⟨rfl, hm⟩
    exact .ok rfl ⟨rfl, h.moved k hm⟩
  mask := by
    rintro m _ ⟨rfl, hm⟩
    exact .ok rfl ⟨rfl, hm⟩
  admits := hadmits _

theorem pairs_readByte (h : Lifelong I) (hadmits : (tuned T I shared parts).Admits .readFailed) :
    (tuned T I shared parts).Pairs Eq Action.readByte Action.readByte := by
  refine Pairs.then (W := Eq) (a := refill) ?_ fun _ => ?_
  · rintro m _ ⟨rfl, hm⟩
    dsimp only [Tuning.apply]
    simp only [refill]
    split
    · exact .ok rfl ⟨rfl, hm⟩
    · split
      · exact .ok rfl ⟨rfl, hm⟩
      · split
        · exact .ok rfl ⟨rfl, h.read _ m.cursor _ hm⟩
        · exact .ok rfl ⟨rfl, h.read _ m.cursor _ hm⟩
        -- A reader that fails is the one way for a read to fail.
        · exact hadmits.ends ⟨rfl, h.read _ m.cursor _ hm⟩
  · rintro m _ ⟨rfl, hm⟩
    dsimp only [Tuning.apply]
    split
    · exact .ok rfl ⟨rfl, h.read m.input _ m.live hm⟩
    · exact .ok rfl ⟨rfl, hm⟩

theorem pairs_checked (hchecked : T.checked = id) :
    (tuned T I shared parts).Pairs Eq isChecked isChecked := by
  rintro m _ ⟨rfl, hm⟩
  dsimp only [Tuning.apply]
  simp only [isChecked, hchecked, id]
  exact .ok rfl ⟨by rw [Tuning.apply, hchecked, id], hm⟩

/-- Emitting does not tell a machine from the tuned one if they have the same output. -/
theorem pairs_emit (h : Enduring I) (houtput : T.output = id)
    (hadmits : (tuned T I shared parts).Admits .writeFailed) (bs : Bytes) :
    (tuned T I shared parts).Pairs Eq (emit bs) (emit bs) := by
  rintro m _ ⟨rfl, hm⟩
  have hm' := h.written bs hm
  dsimp only [Tuning.apply]
  simp only [emit, houtput, id]
  split
  · exact .ok rfl ⟨by rw [Tuning.apply, houtput, id], hm'⟩
  · exact hadmits.ends ⟨by rw [Tuning.apply, houtput, id], hm'⟩

/-- Counting does not tell a machine from the tuned one if they have the same limit. -/
theorem pairs_tick (hlimit : T.limit = id) (hI : ∀ m steps, I m → I { m with steps })
    (hadmits : (tuned T I shared parts).Admits .stepLimit) :
    (tuned T I shared parts).Pairs Eq Action.tick Action.tick := by
  rintro m _ ⟨rfl, hm⟩
  dsimp only [Tuning.apply]
  simp only [Action.tick, hlimit, id]
  split
  · exact hadmits.ends ⟨by rw [Tuning.apply, hlimit, id], hI m _ hm⟩
  · exact .ok rfl ⟨by rw [Tuning.apply, hlimit, id], hI m _ hm⟩

theorem rel_note (h : Lifelong I) {m n : Machine} (o : Op)
    (hR : (tuned T I shared parts).rel m n) :
    (tuned T I shared parts).rel (m.note o) (n.note o) := by
  obtain ⟨rfl, hm⟩ := hR
  refine ⟨note_apply T m o, ?_⟩
  unfold note
  split
  · exact h.noted _ hm
  · exact hm

end Tuned

section Limits

variable {change : Int64 → Int64} {I : Machine → Prop} {shared : Fault → Prop}
  {parts : Fault → Machine → Prop}

theorem firm_limits (h : Enduring I)
    (hadmits : ∀ e, e ≠ .stepLimit → (limits change I shared parts).Admits e) :
    (limits change I shared parts).Firm where
  toBare := bare_tuned h fun e he _ => hadmits e he
  emit := pairs_emit h rfl (hadmits .writeFailed (by simp))
  checked := pairs_checked rfl

theorem lasting_limits (h : Lifelong I)
    (hadmits : ∀ e, e ≠ .stepLimit → (limits change I shared parts).Admits e)
    (htick : (limits change I shared parts).Pairs Eq Action.tick Action.tick) :
    (limits change I shared parts).Lasting where
  toFirm := firm_limits h.toEnduring hadmits
  tick := htick
  readByte := pairs_readByte h (hadmits .readFailed (by simp))
  note := rel_note h

end Limits

end Bond

/-- A lifelong property that counting keeps as well is never lost. -/
theorem persistent_of_lifelong {I : Machine → Prop} (h : Lifelong I)
    (hsteps : ∀ m steps, I m → I { m with steps }) : Persistent I := by
  have hlasting : (Bond.self I (fun _ => True) fun _ _ => False).Lasting :=
    Bond.lasting_limits h (fun _ _ => .inl trivial) (Bond.pairs_tick rfl hsteps (.inl trivial))
  refine ⟨fun t m hm => ?_, fun s jump index m hm => ?_, fun o m hm => ?_⟩
  · have hr := hlasting.doTask (Bond.sameTask_refl t) (m := m) (n := m) ⟨rfl, hm⟩
    generalize doTask t m = r at hr ⊢
    cases hr with
    | ok _ hR => exact hR.2
    | error _ hR => exact hR.2
    | parted hp => exact hp.elim
  · have hr := hlasting.stepSymbol s jump index (m := m) (n := m) ⟨rfl, hm⟩
    generalize stepSymbol s jump index m = r at hr ⊢
    cases hr with
    | ok _ hR => exact hR.2
    | error _ hR => exact hR.2
    | parted hp => exact hp.elim
  · exact (hlasting.note (m := m) (n := m) o ⟨rfl, hm⟩).2

end Machine

end TapeForge
