import TapeForge.Proofs.Abreast
import TapeForge.Proofs.Unlimited

/-!
# One run of a body

A branch does some work, runs one of its bodies, and does some work after it. The work before does
not depend on the body, and the work after is only as good as the machine that the body leaves. So
a branch is compared with the run of a body from the machine it hands over: it ends only if that
run ends, it fails as that run fails, and a machine that is left as it should be it finishes.
-/

namespace TapeForge

namespace Effect

variable {ε σ : Type}

/-- An effect from one state comes down to another effect from another state, which it has once. -/
structure Once (p : Effect ε σ) (s : σ) (q : Effect ε σ) (t : σ) (fit : σ → Prop)
    (finish : σ → σ) : Prop where
  done {t' : σ} : q t (.ok () t') → fit t' → p s (.ok () (finish t'))
  failed {t' : σ} {e : ε} : q t (.error e t') → p s (.error e t')
  ends {r : EStateM.Result ε σ Unit} : p s r → ∃ r', q t r'

namespace Once

variable {p p' q : Effect ε σ} {s s' t : σ} {fit : σ → Prop} {finish finish' : σ → σ}

theorem self (q : Effect ε σ) (t : σ) (fit : σ → Prop) : Once q t q t fit id where
  done h _ := h
  failed h := h
  ends h := ⟨_, h⟩

theorem before (hp : Single p) (h : p s (.ok () s')) (h' : Once p' s' q t fit finish) :
    Once (Seq p p') s q t fit finish where
  done hq hfit := .step h (h'.done hq hfit)
  failed hq := .step h (h'.failed hq)
  ends hr := by
    cases hr with
    | step h₁ h₂ =>
        cases hp h h₁
        exact h'.ends h₂
    | stop h₁ => cases hp h h₁

theorem followed (h : Once p s q t fit finish)
    (h' : ∀ t', fit t' → p' (finish t') (.ok () (finish' t'))) :
    Once (Seq p p') s q t fit finish' where
  done hq hfit := .step (h.done hq hfit) (h' _ hfit)
  failed hq := .stop (h.failed hq)
  ends hr := by
    cases hr with
    | step h₁ _ => exact h.ends h₁
    | stop h₁ => exact h.ends h₁

/-- A loop whose body comes down to an effect, and which is left after it. -/
theorem loop {head : EStateM ε σ Bool} (hopen : head s = .ok true s')
    (h : Once p s' q t fit finish)
    (hclosed : ∀ t', fit t' → head (finish t') = .ok false (finish t')) :
    Once (Loop head p) s q t fit finish where
  done hq hfit := .turn hopen (h.done hq hfit) (.leave (hclosed _ hfit))
  failed hq := .stop hopen (h.failed hq)
  ends hr := by
    cases hr with
    | fault hhead => rw [hopen] at hhead; cases hhead
    | leave hhead => rw [hopen] at hhead; cases hhead
    | stop hhead hbody =>
        rw [hopen] at hhead
        cases hhead
        exact h.ends hbody
    | turn hhead hbody _ =>
        rw [hopen] at hhead
        cases hhead
        exact h.ends hbody

theorem mono {fit' : σ → Prop} (h : Once p s q t fit finish) (hfit : ∀ t', fit' t' → fit t')
    (hfinish : ∀ t', fit' t' → finish t' = finish' t') : Once p s q t fit' finish' where
  done hq ht := hfinish _ ht ▸ h.done hq (hfit _ ht)
  failed := h.failed
  ends := h.ends

end Once

end Effect

namespace Machine

open TapeForge.Machine.Action TapeForge.Effect

/-! ## Lists of ops -/

section Ops

variable {o : Op} {os us body : List Op} {q : Effect Fault Machine} {m m' n : Machine} {i : Nat}
  {fit : Machine → Prop} {finish finish' : Machine → Machine}

theorem once_step (h : o.quiet m (.ok () m')) (hos : Once (Op.quietAll os) m' q n fit finish) :
    Once (Op.quietAll (o :: os)) m q n fit finish := by
  rw [Op.quietAll_cons]
  exact .before (Op.single_quiet o) h hos

theorem once_append (h : Once (Op.quietAll os) m q n fit finish)
    (hus : ∀ n', fit n' → Op.quietAll us (finish n') (.ok () (finish' n'))) :
    Once (Op.quietAll (os ++ us)) m q n fit finish' := by
  rw [Op.quietAll_append]
  exact h.followed hus

theorem once_after (hos : Op.quietAll os m (.ok () m'))
    (hus : Once (Op.quietAll us) m' q n fit finish) :
    Once (Op.quietAll (os ++ us)) m q n fit finish := by
  rw [Op.quietAll_append]
  exact .before (Op.single_quietAll os) hos hus

theorem quietAll_append_ok {r : EStateM.Result Fault Machine Unit}
    (hos : Op.quietAll os m (.ok () m')) (hus : Op.quietAll us m' r) :
    Op.quietAll (os ++ us) m r := by
  rw [Op.quietAll_append]
  exact .step hos hus

/-- Ops that stand as they are, with others after them. -/
theorem once_here (h : ∀ n', fit n' → Op.quietAll us n' (.ok () (finish n'))) :
    Once (Op.quietAll (os ++ us)) m (Op.quietAll os) m fit finish :=
  once_append (.self _ m fit) h

/-- A loop at an open cell, closed when its body has been run. -/
theorem once_loop (hi : m.index? m.dp = some i) (hopen : m.get i ≠ 0)
    (hbody : Once (Op.quietAll body) m q n fit finish)
    (hclosed : ∀ n', fit n' → ∃ j, (finish n').index? (finish n').dp = some j ∧
      (finish n').get j = 0)
    (hos : ∀ n', fit n' → Op.quietAll os (finish n') (.ok () (finish' n'))) :
    Once (Op.quietAll (.loop body :: os)) m q n fit finish' := by
  have hloop : Once (Op.loop body).quiet m q n fit finish := by
    rw [Op.quiet_loop]
    refine .loop ?_ hbody fun n' hn' => ?_
    · rw [isOpen_eq_ok hi, bne_iff_ne.2 hopen]
    · obtain ⟨j, hj, h0⟩ := hclosed n' hn'
      rw [isOpen_eq_ok hj, h0]
      rfl
  rw [Op.quietAll_cons]
  exact hloop.followed hos

/-- A loop at a closed cell is passed. -/
theorem quiet_loop_closed (hi : m.index? m.dp = some i) (h0 : m.get i = 0) (body : List Op) :
    (Op.loop body).quiet m (.ok () m) := by
  rw [Op.quiet_loop]
  refine .leave ?_
  rw [isOpen_eq_ok hi, h0]
  rfl

/-- A loop whose body closes it in its first turn. -/
theorem quiet_loop_once {j : Nat} (hi : m.index? m.dp = some i) (hopen : m.get i ≠ 0)
    (hbody : Op.quietAll body m (.ok () m')) (hj : m'.index? m'.dp = some j)
    (h0 : m'.get j = 0) : (Op.loop body).quiet m (.ok () m') := by
  have hturn : isOpen m = .ok true m := by rw [isOpen_eq_ok hi, bne_iff_ne.2 hopen]
  have hleave : isOpen m' = .ok false m' := by
    rw [isOpen_eq_ok hj, h0]
    rfl
  rw [Op.quiet_loop]
  exact .turn hturn hbody (.leave hleave)

end Ops

/-! ## Runs -/

/-- The run of ops from `m` is one run of `body` from `n`, with work before and after it. -/
structure RunsOnce (ops : List Op) (m : Machine) (body : List Op) (n : Machine)
    (fit : Machine → Prop) (finish : Machine → Machine) : Prop where
  done {fuel : Nat} {n' : Machine} : exec fuel body n = .done n' → fit n' →
    ∃ fuel' m', exec fuel' ops m = .done m' ∧ SameState m' (finish n')
  failed {fuel : Nat} {f : Failure} {n' : Machine} : exec fuel body n = .failed f n' →
    ∃ fuel' f' m', exec fuel' ops m = .failed f' m' ∧ f'.fault = f.fault ∧ SameState m' n'
  ends {fuel : Nat} : (exec fuel ops m).Settled → ∃ fuel', (exec fuel' body n).Settled

/-- Machines with tapes of one length and cells of one width. -/
structure SameShape (m n : Machine) : Prop where
  size : m.tape.size = n.tape.size
  width : m.width = n.width

theorem SameShape.index? {m n : Machine} (h : SameShape m n) (pos : Int64) :
    m.index? pos = n.index? pos := by
  simp only [Machine.index?, h.size]

theorem lifelong_shape (n : Machine) : Lifelong fun m => SameShape m n where
  set i _ _ h := ⟨(size_set _ i _).trans h.size, h.width⟩
  moved _ h := ⟨h.size, h.width⟩
  written _ h := ⟨h.size, h.width⟩
  read _ _ _ h := ⟨h.size, h.width⟩
  noted _ h := ⟨h.size, h.width⟩

theorem sameShape_exec (fuel : Nat) (ops : List Op) (m : Machine) :
    SameShape (exec fuel ops m).state m :=
  (persistent_of_lifelong (lifelong_shape m) fun _ _ h => ⟨h.size, h.width⟩).run (.direct ops)
    fuel ⟨rfl, rfl⟩

theorem SameState.get {m n : Machine} (h : SameState m n) (i : Nat) : m.get i = n.get i := by
  rw [Machine.get, Machine.get, h.tape]

/-- One cell written and the data pointer placed. -/
theorem SameState.set_place {m n : Machine} (h : SameState m n) (i : Nat) (v : UInt64) (p : Int64) :
    SameState { m.set i v with dp := p } { n.set i v with dp := p } :=
  ⟨congrArg (·.setIfInBounds i v) h.tape, rfl, h.input, h.cursor, h.live, h.output⟩

/-- What holds of effects in silence holds of runs without a limit. Neither what is asked of the
machine that the body leaves, nor what is done to it at last, depends on counts and notes. -/
theorem runsOnce_of_once {ops body : List Op} {m n : Machine} {fit : Machine → Prop}
    {finish : Machine → Machine} (hm : m.limit ≤ 0) (hn : n.limit ≤ 0)
    (hfit : ∀ {k k'}, SameState k k' → fit k → fit k')
    (hfinish : ∀ {k k'}, SameState k k' → SameState (finish k) (finish k'))
    (h : Once (Op.quietAll ops) m (Op.quietAll body) n (fun k => SameShape k n ∧ fit k) finish) :
    RunsOnce ops m body n fit finish where
  done {fuel n'} hrun hn' := by
    -- A run keeps the shape of the tape, which the effect of the body is asked for as well.
    have hshape := sameShape_exec fuel body n
    rw [hrun] at hshape
    obtain ⟨r, hr, hrel⟩ := twin_of_ends_exec (r := .ok () n') hn ⟨fuel, hrun⟩
    cases hrel with
    | @ok _ _ k hk =>
        have hshape' : SameShape k n := by
          obtain ⟨records, steps, limit, rfl, -⟩ := hk
          exact ⟨hshape.size, hshape.width⟩
        have hquiet := h.done hr ⟨hshape', hfit hk.sameState hn'⟩
        obtain ⟨fuel', m', hrun', hm'⟩ := (twin_refl hm : Twin Unlimited m m).exec_done hquiet
        exact ⟨fuel', m', hrun', hm'.sameState.trans (hfinish hk.sameState.symm)⟩
  failed {fuel f n'} hrun := by
    obtain ⟨r, hr, hrel⟩ := quiet_of_ends_exec (r := .error f.fault n') hn ⟨fuel, f, hrun, rfl⟩
    cases hrel with
    | error hk =>
        obtain ⟨r', hr', hrel'⟩ := ends_exec_of_quiet hm (h.failed hr)
        cases hrel' with
        | @error _ _ m' hm' =>
            obtain ⟨fuel', f', hrun', hfault⟩ := hr'
            exact ⟨fuel', f', m', hrun', hfault, (hk.trans hm').symm⟩
  ends hrun := by
    obtain ⟨r, hr⟩ : ∃ r, Ends Failure.fault (fun fuel => exec fuel ops m) r :=
      ends_of_settled Failure.fault hrun
    -- From the run to its effect, to that of the body, and back to a run of the body.
    obtain ⟨r₁, hr₁, _⟩ := quiet_of_ends_exec hm hr
    obtain ⟨r₂, hr₂⟩ := h.ends hr₁
    obtain ⟨r₃, hr₃, _⟩ := ends_exec_of_quiet hn hr₂
    exact hr₃.settled

end Machine

end TapeForge
