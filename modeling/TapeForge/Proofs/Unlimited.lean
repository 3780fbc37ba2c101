import TapeForge.Proofs.Congruence
import TapeForge.Proofs.DirectCells
import TapeForge.Proofs.DirectRun
import TapeForge.Proofs.QuietText
import TapeForge.Proofs.TextRun

/-!
# Runs without a limit

Where no limit is set, counting steps changes nothing but the count. So a run ends as the quiet
effect of its ops or of its text says, in a machine that differs in its count and its notes only.
-/

namespace TapeForge

namespace Machine

open TapeForge.Machine.Action TapeForge.Effect

/-- A run leaves the tape at a position, after some output. -/
def LeavesTape (run : Nat → Outcome Failure Machine) (pos : Int64) (length : Nat)
    (output : Sink) : Prop :=
  ∃ fuel failure m', run fuel = .failed failure m' ∧ failure.fault = .outOfBounds pos length ∧
    m'.output = output

variable {m : Machine} {r : EStateM.Result Fault Machine Unit}

theorem twin_of_ends_exec {os : List Op} (hm : m.limit ≤ 0)
    (h : Ends Failure.fault (fun fuel => exec fuel os m) r) :
    ∃ r', Op.quietAll os m r' ∧ Related (Twin Unlimited) r r' := by
  rw [ends_exec] at h
  obtain ⟨r', hr', hrel⟩ :=
    sim_inTurn (fun o => (congruent_twin Unlimited).op alike_tick_pure o) os (twin_refl hm) h
  rw [← Op.effectAll_eq] at hr'
  exact ⟨r', hr', hrel⟩

theorem quiet_of_ends_exec {os : List Op} (hm : m.limit ≤ 0)
    (h : Ends Failure.fault (fun fuel => exec fuel os m) r) :
    ∃ r', Op.quietAll os m r' ∧ Related SameState r r' := by
  obtain ⟨r', hr', hrel⟩ := twin_of_ends_exec hm h
  exact ⟨r', hr', hrel.mono Twin.sameState⟩

/-- A run follows the quiet effect of its ops from a twin of the machine it starts from. -/
theorem ends_exec_of_twin {n : Machine} {os : List Op} (ht : Twin Unlimited m n)
    (h : Op.quietAll os n r) :
    ∃ r', Ends Failure.fault (fun fuel => exec fuel os m) r' ∧
      Related (fun n m => Twin Unlimited m n) r r' := by
  rw [Op.quietAll, Op.effectAll_eq] at h
  obtain ⟨r', hr', hrel⟩ :=
    sim_sequence (fun o => (congruent_twin Unlimited).swap.op alike_tick_pure.swap o) os ht h
  exact ⟨r', (ends_exec os m r').2 hr', hrel⟩

theorem Twin.exec_done {n n' : Machine} {os : List Op} (ht : Twin Unlimited m n)
    (h : Op.quietAll os n (.ok () n')) :
    ∃ fuel m', exec fuel os m = .done m' ∧ Twin Unlimited m' n' := by
  obtain ⟨r, hr, hrel⟩ := ends_exec_of_twin ht h
  cases hrel with
  | ok ht' =>
      obtain ⟨fuel, hrun⟩ := hr
      exact ⟨fuel, _, hrun, ht'⟩

theorem ends_exec_of_quiet {os : List Op} (hm : m.limit ≤ 0) (h : Op.quietAll os m r) :
    ∃ r', Ends Failure.fault (fun fuel => exec fuel os m) r' ∧ Related SameState r r' := by
  obtain ⟨r', hr', hrel⟩ := ends_exec_of_twin (twin_refl hm) h
  exact ⟨r', hr', hrel.mono fun ht => ht.sameState.symm⟩

theorem quiet_of_ends_runCode {b : Block} (hm : m.limit ≤ 0)
    (h : Ends Failure.fault (fun fuel => runCode fuel b.code m) r) :
    ∃ r', b.quiet m r' ∧ Related SameState r r' := by
  rw [ends_runCode] at h
  obtain ⟨r', hr', hrel⟩ := (congruent_twin Unlimited).block alike_tick_pure b (twin_refl hm) h
  exact ⟨r', hr', hrel.mono Twin.sameState⟩

theorem ends_runCode_of_quiet {b : Block} (hm : m.limit ≤ 0) (h : b.quiet m r) :
    ∃ r', Ends Failure.fault (fun fuel => runCode fuel b.code m) r' ∧ Related SameState r r' := by
  obtain ⟨r', hr', hrel⟩ :=
    (congruent_twin Unlimited).swap.block alike_tick_pure.swap b (twin_refl hm) h
  exact ⟨r', (ends_runCode b m r').2 hr', hrel.mono fun ht => ht.sameState.symm⟩

end Machine

end TapeForge
