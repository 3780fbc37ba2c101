import TapeForge.Proofs.Congruence
import TapeForge.Proofs.Segment

/-!
# Direct runs have the effect of their ops

A direct run keeps a list of tasks. The task of an op is a segment that ends where the tasks
after it begin, so a direct run ends as the effect of the ops says.
-/

namespace TapeForge

namespace Machine

open TapeForge.Machine.Action TapeForge.Effect

/-! ## The work an op leaves -/

/-- Every value of an action has a property. -/
def Returns {α : Type} (P : α → Prop) (a : Action α) : Prop :=
  ∀ ⦃m m' : Machine⦄ ⦃x : α⦄, a m = .ok x m' → P x

theorem Returns.pure {α : Type} {P : α → Prop} {x : α} (h : P x) :
    Returns P (pure x : Action α) := by
  intro m m' y hy
  cases hy
  exact h

theorem Returns.throw {α : Type} {P : α → Prop} (e : Fault) :
    Returns P (throw e : Action α) := by
  intro m m' y hy
  cases hy

theorem Returns.bind {α β : Type} {P : β → Prop} (a : Action α) {k : α → Action β}
    (h : ∀ x, Returns P (k x)) : Returns P (a >>= k) := by
  intro m m' y hy
  cases ha : a m with
  | ok x m₁ =>
      rw [bind_of_ok ha] at hy
      exact h x hy
  | error e m₁ =>
      rw [bind_of_error ha] at hy
      cases hy

theorem Returns.ite {α : Type} {P : α → Prop} {a b : Action α} (c : Prop) [Decidable c]
    (ha : Returns P a) (hb : Returns P b) : Returns P (if c then a else b) := by
  split
  · exact ha
  · exact hb

def AtMostEmission (ts : List Task) : Prop :=
  ts = [] ∨ ∃ code char left, ts = [.emitting code char left]

theorem returns_emitHead (code : UInt8) (char left : Nat) :
    Returns (fun ts => ts = [] ∨ ts = [.emitting code char left]) (emitHead code char left) :=
  .bind _ fun _ => .ite _ (.bind _ fun _ => .pure (Or.inl rfl)) (.pure (Or.inr rfl))

theorem returns_perform {o : Op} (h : ∀ body, o ≠ .loop body) :
    Returns AtMostEmission (perform o) := by
  have hnone : AtMostEmission [] := Or.inl rfl
  cases o with
  | add n => exact .bind _ fun _ => .bind _ fun _ => .pure hnone
  | shift n => exact .bind _ fun _ => .pure hnone
  | move src dest => exact .bind _ fun _ => .pure hnone
  | zero => exact .bind _ fun _ => .bind _ fun _ => .pure hnone
  | copy src tmp dest => exact .bind _ fun _ => .pure hnone
  | loop body => exact absurd rfl (h body)
  | read => exact .bind _ fun _ => .bind _ fun _ => .bind _ fun _ => .pure hnone
  | write => exact .bind _ fun _ => .bind _ fun _ => .bind _ fun _ => .pure hnone
  | writeN code count tmp1 tmp2 =>
      refine .bind _ fun _ => .bind _ fun char => .bind _ fun _ => .bind _ fun left => ?_
      intro m m' ts hts
      rcases returns_emitHead code char left hts with rfl | rfl
      · exact hnone
      · exact Or.inr ⟨code, char, left, rfl⟩
  | writeS text => exact .bind _ fun _ => .pure hnone
  | assertZero offsets =>
      exact .bind _ fun _ => .ite _ (.bind _ fun _ => .pure hnone) (.pure hnone)
  | undefined kind => exact .throw _

/-! ## One step of a direct run -/

theorem performs_doTask (t : Task) (rest : List Task) :
    Performs Direct.step id Direct.machine (Direct.mk (t :: rest)) (doTask t)
      (fun ts => Direct.mk (ts ++ rest)) := by
  intro m
  cases ht : doTask t m with
  | ok ts m' => simp only [Direct.step, ht]
  | error e m' => exact ⟨e, ⟨rest, m'⟩, by simp only [Direct.step, ht], rfl, rfl⟩

/-- A task that does an action and leaves tasks which depend on the value. -/
theorem performs_of_doTask {α : Type} {t : Task} {rest : List Task} {a : Action α}
    {tasks : α → List Task} {leave : α → Machine → Direct}
    (ht : doTask t = a >>= fun x => pure (tasks x))
    (hleave : ∀ x, leave x = Direct.mk (tasks x ++ rest)) :
    Performs Direct.step id Direct.machine (Direct.mk (t :: rest)) a leave := by
  intro m
  have hm := performs_doTask t rest m
  rw [ht] at hm
  cases ha : a m with
  | ok x m' =>
      rw [bind_of_ok ha] at hm
      show Direct.step ⟨t :: rest, m⟩ = .next (leave x m')
      rw [hleave]
      exact hm
  | error e m' =>
      rw [bind_of_error ha] at hm
      exact hm

theorem loopHead_eq (body : List Op) :
    loopHead body = isOpen >>= fun b =>
      pure (if b then body.map Task.op ++ [.again body] else []) := by
  simp only [loopHead, isOpen, bind_assoc, pure_bind]
  congr; funext i; congr; funext v
  by_cases hv : v = 0 <;> simp [hv]

theorem emitHead_eq (code : UInt8) (char left : Nat) :
    emitHead code char left = emitHead code char left >>= fun ts =>
      pure (if !ts.isEmpty then [.emitting code char left] else []) := by
  funext m
  cases hm : emitHead code char left m with
  | ok ts m' =>
      rw [bind_of_ok hm]
      rcases returns_emitHead code char left hm with rfl | rfl <;> rfl
  | error e m' => rw [bind_of_error hm]

theorem doTask_emitting (code : UInt8) (char left : Nat) :
    doTask (.emitting code char left) = (do tick; emitTurn code char left) >>= fun b =>
      pure (if b then [.emitting code char left] else []) := by
  have hd : doTask (.emitting code char left) =
      (do tick
          bump left (← cellMask)
          let v ← peek char
          emit [v.toUInt8]
          emitHead code char left) := rfl
  rw [hd, emitHead_eq]
  simp only [emitTurn, bind_assoc, pure_bind]

/-! ## Runs -/

theorem segment_emission {ts : List Task} (h : AtMostEmission ts) (rest : List Task) :
    Segment Direct.step id Direct.machine (Direct.mk (ts ++ rest)) (Direct.mk rest)
      (emission tick ts) := by
  rcases h with rfl | ⟨code, char, left, rfl⟩
  · exact Segment.skip _
  · have hp : Performs Direct.step id Direct.machine
        (Direct.mk (.emitting code char left :: rest)) (do tick; emitTurn code char left)
        (fun b => if b then Direct.mk (.emitting code char left :: rest)
          else Direct.mk rest) := by
      refine performs_of_doTask (doTask_emitting code char left) ?_
      intro more
      cases more <;> rfl
    exact Segment.loop hp (Segment.skip _) hp

/-- The tasks of ops have the effect of the ops, whatever tasks come after them. -/
theorem segment_ops (os : List Op) (rest : List Task) :
    Segment Direct.step id Direct.machine (Direct.mk (os.map Task.op ++ rest)) (Direct.mk rest)
      (Op.effectAll tick os) := by
  refine Op.inductAll
    (P := fun o => ∀ rest, Segment Direct.step id Direct.machine (Direct.mk (.op o :: rest))
      (Direct.mk rest) (o.effect tick))
    (Q := fun os => ∀ rest, Segment Direct.step id Direct.machine
      (Direct.mk (os.map Task.op ++ rest)) (Direct.mk rest) (Op.effectAll tick os))
    ?_ ?_ ?_ ?_ os rest
  · intro body ih rest
    rw [Op.effect]
    -- A loop begins as an op and goes on as a task of its own, and both look at the cell first.
    have hhead : ∀ t, doTask t = (do tick; loopHead body) →
        Performs Direct.step id Direct.machine (Direct.mk (t :: rest)) (do tick; isOpen)
          (fun b => if b then Direct.mk (body.map Task.op ++ .again body :: rest)
            else Direct.mk rest) := by
      intro t ht
      rw [loopHead_eq, ← bind_assoc] at ht
      refine performs_of_doTask ht ?_
      intro more
      cases more <;> simp
    exact Segment.loop (hhead (.again body) rfl) (ih _) (hhead (.op (.loop body)) rfl)
  · intro o ho rest
    rw [Op.effect_of_not_loop tick ho]
    refine Segment.after (performs_doTask (.op o) rest) ?_
    intro m m' ts hts
    exact segment_emission (Returns.bind tick (fun _ => returns_perform ho) hts) rest
  · intro rest
    rw [Op.effectAll]
    exact Segment.skip _
  · intro o os ho hos rest
    rw [Op.effectAll]
    exact Segment.seq (ho (os.map Task.op ++ rest)) (hos rest)

theorem ends_runOp (o : Op) (m : Machine) (r : EStateM.Result Fault Machine Unit) :
    Ends id (fun fuel => runOp fuel o m) r ↔ o.effect tick m r := by
  have hseg := segment_ops [o] []
  rw [Op.effectAll, Op.effectAll, seq_skip] at hseg
  exact Segment.ends_iff hseg (fun _ => ⟨rfl, rfl⟩) r

theorem steady_runOp (o : Op) (m : Machine) : Steady fun fuel => runOp fuel o m :=
  (steady_iterate _ _).map _

theorem exec_cons (o : Op) (os : List Op) (m : Machine) :
    (fun fuel => exec fuel (o :: os) m) =
      chain (fun fuel => runOp fuel o m) (fun e => ⟨[.op o.label], e⟩)
        (fun m fuel => exec fuel os (m.note o)) := by
  funext fuel
  simp only [exec, chain]
  cases runOp fuel o m <;> rfl

theorem steady_exec (os : List Op) (m : Machine) : Steady fun fuel => exec fuel os m := by
  induction os generalizing m with
  | nil => exact steady_const _
  | cons o os ih =>
      rw [exec_cons]
      exact steady_chain (steady_runOp o m) fun m => ih (m.note o)

theorem ends_exec (os : List Op) (m : Machine) (r : EStateM.Result Fault Machine Unit) :
    Ends Failure.fault (fun fuel => exec fuel os m) r ↔
      Op.inTurn (fun o => o.effect tick) os m r := by
  induction os generalizing m r with
  | nil => exact ends_const_done m r
  | cons o os ih =>
      rw [exec_cons, Op.inTurn]
      refine ends_chain (steady_runOp o m) (fun m => steady_exec os (m.note o))
        (fun _ => rfl) (ends_runOp o m) ?_ r
      intro m' r'
      exact (ih (m'.note o) r').trans (seq_noting_iff o _ m' r').symm

end Machine

end TapeForge
