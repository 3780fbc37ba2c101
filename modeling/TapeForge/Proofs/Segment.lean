import TapeForge.Proofs.Effect

/-!
# Segments of a run

A step machine walks through the parts of a program one after the other. A part of the program
is a segment of the run: entered at one family of states, left at another, with an effect in
between. Segments are put together as effects are, and a run from the first state of a segment
whose last state halts ends exactly as the effect says.

The machine need not end. So a segment also says that the machine goes on for ever where the
effect has no result; that is what turns a run that ends into a result of the effect.
-/

namespace TapeForge

/-! ## Runs with enough steps -/

namespace Outcome

def Settled {ε σ : Type} : Outcome ε σ → Prop
  | pending _ => False
  | _ => True

end Outcome

section Runs

variable {ε φ ψ σ τ : Type}

theorem Outcome.state_map (r : Outcome φ τ) (f : τ → σ) : (r.map f).state = f r.state := by
  cases r <;> rfl

theorem Outcome.state_mapError (r : Outcome φ τ) (g : φ → ψ) : (r.mapError g).state = r.state := by
  cases r <;> rfl

/-- More steps do not change how a run ended. -/
def Steady (run : Nat → Outcome φ σ) : Prop :=
  ∀ ⦃n k : Nat⦄, n ≤ k → (run n).Settled → run k = run n

/-- A run ends with a result, when it is given enough steps. The error of the run holds the
error of the result, and may say more. -/
def Ends (fault : φ → ε) (run : Nat → Outcome φ σ) : EStateM.Result ε σ Unit → Prop
  | .ok _ s => ∃ fuel, run fuel = .done s
  | .error e s => ∃ fuel f, run fuel = .failed f s ∧ fault f = e

theorem steady_iterate (step : τ → Stage φ τ) (t : τ) :
    Steady fun fuel => iterate step fuel t := by
  intro n
  induction n generalizing t with
  | zero =>
      intro k _ h
      exact h.elim
  | succ n ih =>
      intro k hk h
      obtain ⟨k, rfl⟩ : ∃ j, k = j + 1 := ⟨k - 1, by omega⟩
      simp only [iterate] at h ⊢
      cases ht : step t with
      | next t' =>
          simp only [ht] at h ⊢
          exact ih t' (by omega) h
      | halt t' => rfl
      | fail f t' => rfl

theorem Steady.map {run : Nat → Outcome φ σ} (h : Steady run) (g : σ → τ) :
    Steady fun fuel => (run fuel).map g := by
  intro n k hk hs
  have hn : (run n).Settled := by
    cases hr : run n with
    | done s => trivial
    | failed f s => trivial
    | pending s =>
        simp only [hr] at hs
        exact hs.elim
  show (run k).map g = (run n).map g
  rw [h hk hn]

theorem Steady.mapError {run : Nat → Outcome φ σ} (h : Steady run) (g : φ → ψ) :
    Steady fun fuel => (run fuel).mapError g := by
  intro n k hk hs
  have hn : (run n).Settled := by
    cases hr : run n with
    | done s => trivial
    | failed f s => trivial
    | pending s =>
        simp only [hr] at hs
        exact hs.elim
  show (run k).mapError g = (run n).mapError g
  rw [h hk hn]

theorem steady_const (r : Outcome φ σ) : Steady fun _ => r :=
  fun _ _ _ _ => rfl

theorem ends_const_done {fault : φ → ε} (s : σ) (r : EStateM.Result ε σ Unit) :
    Ends fault (fun _ => .done s : Nat → Outcome φ σ) r ↔ Effect.skip s r := by
  cases r with
  | ok x s' =>
      constructor
      · rintro ⟨_, h⟩
        cases h
        rfl
      · intro h
        cases h
        exact ⟨0, rfl⟩
  | error e s' =>
      constructor
      · rintro ⟨_, f, h, _⟩
        cases h
      · intro h
        cases h

theorem Ends.unique {fault : φ → ε} {run : Nat → Outcome φ σ} (h : Steady run)
    {r r' : EStateM.Result ε σ Unit} (hr : Ends fault run r) (hr' : Ends fault run r') :
    r = r' := by
  -- Of two amounts of fuel that suffice, the larger gives what the smaller gives.
  have hsame : ∀ {n k}, (run n).Settled → (run k).Settled → run n = run k := by
    intro n k hn hk
    rcases Nat.le_total n k with hle | hle
    · exact (h hle hn).symm
    · exact h hle hk
  cases r with
  | ok x s =>
      obtain ⟨n, hn⟩ := hr
      cases r' with
      | ok y s' =>
          obtain ⟨k, hk⟩ := hr'
          have he := hsame (by rw [hn]; trivial : (run n).Settled) (by rw [hk]; trivial)
          rw [hn, hk] at he
          cases he
          rfl
      | error e s' =>
          obtain ⟨k, f, hk, _⟩ := hr'
          have he := hsame (by rw [hn]; trivial : (run n).Settled) (by rw [hk]; trivial)
          rw [hn, hk] at he
          cases he
  | error e s =>
      obtain ⟨n, f, hn, hf⟩ := hr
      cases r' with
      | ok y s' =>
          obtain ⟨k, hk⟩ := hr'
          have he := hsame (by rw [hn]; trivial : (run n).Settled) (by rw [hk]; trivial)
          rw [hn, hk] at he
          cases he
      | error e' s' =>
          obtain ⟨k, f', hk, hf'⟩ := hr'
          have he := hsame (by rw [hn]; trivial : (run n).Settled) (by rw [hk]; trivial)
          rw [hn, hk] at he
          cases he
          rw [← hf, ← hf']

theorem Ends.settled {fault : φ → ε} {run : Nat → Outcome φ σ} {r : EStateM.Result ε σ Unit}
    (h : Ends fault run r) : ∃ fuel, (run fuel).Settled := by
  cases r with
  | ok x s =>
      obtain ⟨fuel, hrun⟩ := h
      exact ⟨fuel, by rw [hrun]; trivial⟩
  | error e s =>
      obtain ⟨fuel, f, hrun, _⟩ := h
      exact ⟨fuel, by rw [hrun]; trivial⟩

theorem ends_of_settled (fault : φ → ε) {run : Nat → Outcome φ σ} {fuel : Nat}
    (h : (run fuel).Settled) : ∃ r, Ends fault run r := by
  cases hrun : run fuel with
  | done s => exact ⟨.ok () s, fuel, hrun⟩
  | failed f s => exact ⟨.error (fault f) s, fuel, f, hrun, rfl⟩
  | pending s =>
      rw [hrun] at h
      exact h.elim

theorem ends_mapError {fault : φ → ε} {fault' : ψ → ε} {g : φ → ψ}
    (hg : ∀ f, fault' (g f) = fault f) {run : Nat → Outcome φ σ}
    (r : EStateM.Result ε σ Unit) :
    Ends fault' (fun fuel => (run fuel).mapError g) r ↔ Ends fault run r := by
  cases r with
  | ok x s =>
      refine exists_congr fun fuel => ?_
      cases hr : run fuel <;> simp [hr, Outcome.mapError]
  | error e s =>
      refine exists_congr fun fuel => ⟨?_, ?_⟩
      · rintro ⟨f, hf, rfl⟩
        cases hr : run fuel with
        | done s₁ => simp [hr, Outcome.mapError] at hf
        | pending s₁ => simp [hr, Outcome.mapError] at hf
        | failed f' s₁ =>
            simp only [hr, Outcome.mapError, Outcome.failed.injEq] at hf
            obtain ⟨rfl, rfl⟩ := hf
            exact ⟨f', rfl, (hg f').symm⟩
      · rintro ⟨f, hf, rfl⟩
        exact ⟨g f, by simp only [hf, Outcome.mapError], hg f⟩

/-- A run that goes on with another run once it is done, each with the same number of steps. -/
def chain (run : Nat → Outcome φ σ) (g : φ → ψ) (rest : σ → Nat → Outcome ψ σ) (fuel : Nat) :
    Outcome ψ σ :=
  match run fuel with
  | .done s => rest s fuel
  | .failed f s => .failed (g f) s
  | .pending s => .pending s

theorem steady_chain {run : Nat → Outcome φ σ} {g : φ → ψ} {rest : σ → Nat → Outcome ψ σ}
    (h : Steady run) (hrest : ∀ s, Steady (rest s)) : Steady (chain run g rest) := by
  intro n k hk hs
  unfold chain at hs ⊢
  cases hr : run n with
  | done s =>
      have hk' : run k = .done s := by rw [h hk (by rw [hr]; trivial), hr]
      simp only [hr] at hs
      simp only [hk']
      exact hrest s hk hs
  | failed f s =>
      have hk' : run k = .failed f s := by rw [h hk (by rw [hr]; trivial), hr]
      simp only [hk']
  | pending s =>
      simp only [hr] at hs
      exact hs.elim

/-- Two runs can be given the same number of steps. -/
theorem Steady.common {run : Nat → Outcome φ σ} {run' : Nat → Outcome ψ τ} (h : Steady run)
    (h' : Steady run') {n k : Nat} (hn : (run n).Settled) (hk : (run' k).Settled) :
    ∃ j, run j = run n ∧ run' j = run' k :=
  ⟨max n k, h (Nat.le_max_left n k) hn, h' (Nat.le_max_right n k) hk⟩

theorem chain_eq_done {run : Nat → Outcome φ σ} {g : φ → ψ} {rest : σ → Nat → Outcome ψ σ}
    {fuel : Nat} {s' : σ} (h : chain run g rest fuel = .done s') :
    ∃ s₁, run fuel = .done s₁ ∧ rest s₁ fuel = .done s' := by
  unfold chain at h
  cases hrun : run fuel with
  | done s₁ =>
      rw [hrun] at h
      exact ⟨s₁, rfl, h⟩
  | failed f s₁ =>
      rw [hrun] at h
      cases h
  | pending s₁ =>
      rw [hrun] at h
      cases h

/-- A chain fails in its first part or in its second. -/
theorem chain_eq_failed {run : Nat → Outcome φ σ} {g : φ → ψ} {rest : σ → Nat → Outcome ψ σ}
    {fuel : Nat} {f : ψ} {s' : σ} (h : chain run g rest fuel = .failed f s') :
    (∃ f', run fuel = .failed f' s' ∧ g f' = f) ∨
      ∃ s₁, run fuel = .done s₁ ∧ rest s₁ fuel = .failed f s' := by
  unfold chain at h
  cases hrun : run fuel with
  | done s₁ =>
      rw [hrun] at h
      exact .inr ⟨s₁, rfl, h⟩
  | failed f' s₁ =>
      rw [hrun] at h
      cases h
      exact .inl ⟨f', rfl, rfl⟩
  | pending s₁ =>
      rw [hrun] at h
      cases h

theorem ends_chain_of_done {run : Nat → Outcome φ σ} {g : φ → ψ}
    {rest : σ → Nat → Outcome ψ σ} {fault' : ψ → ε} (h : Steady run)
    (hrest : ∀ s, Steady (rest s)) {n : Nat} {s₁ : σ} (hn : run n = .done s₁)
    {r : EStateM.Result ε σ Unit} (hr : Ends fault' (rest s₁) r) :
    Ends fault' (chain run g rest) r := by
  have hsettled : (run n).Settled := by
    rw [hn]
    trivial
  -- The parts come to their ends after different numbers of steps; the larger serves both.
  cases r with
  | ok x s' =>
      obtain ⟨k, hk⟩ := hr
      obtain ⟨j, hj, hj'⟩ := h.common (hrest s₁) hsettled
        (by rw [hk]; trivial : (rest s₁ k).Settled)
      exact ⟨j, by simp only [chain, hj, hn, hj', hk]⟩
  | error e s' =>
      obtain ⟨k, f, hk, he⟩ := hr
      obtain ⟨j, hj, hj'⟩ := h.common (hrest s₁) hsettled
        (by rw [hk]; trivial : (rest s₁ k).Settled)
      exact ⟨j, f, by simp only [chain, hj, hn, hj', hk], he⟩

/-- A run that goes on with another ends as the two one after the other do. -/
theorem ends_chain {run : Nat → Outcome φ σ} {g : φ → ψ} {rest : σ → Nat → Outcome ψ σ}
    {fault : φ → ε} {fault' : ψ → ε} (h : Steady run) (hrest : ∀ s, Steady (rest s))
    (hg : ∀ f, fault' (g f) = fault f) {s : σ} {p q : Effect ε σ}
    (hp : ∀ r, Ends fault run r ↔ p s r) (hq : ∀ s' r, Ends fault' (rest s') r ↔ q s' r)
    (r : EStateM.Result ε σ Unit) :
    Ends fault' (chain run g rest) r ↔ Effect.Seq p q s r := by
  constructor
  · intro hr
    cases r with
    | ok x s' =>
        obtain ⟨fuel, hf⟩ := hr
        obtain ⟨s₁, hrun, hf⟩ := chain_eq_done hf
        exact .step ((hp (.ok () s₁)).1 ⟨fuel, hrun⟩) ((hq s₁ (.ok x s')).1 ⟨fuel, hf⟩)
    | error e s' =>
        obtain ⟨fuel, f, hf, he⟩ := hr
        rcases chain_eq_failed hf with ⟨f', hrun, rfl⟩ | ⟨s₁, hrun, hf⟩
        · exact .stop ((hp (.error e s')).1 ⟨fuel, f', hrun, by rw [← hg, he]⟩)
        · exact .step ((hp (.ok () s₁)).1 ⟨fuel, hrun⟩)
            ((hq s₁ (.error e s')).1 ⟨fuel, f, hf, he⟩)
  · rintro (⟨h₁, h₂⟩ | h₁)
    · rename_i s₁
      obtain ⟨n, hn⟩ := (hp (.ok () s₁)).2 h₁
      exact ends_chain_of_done h hrest hn ((hq s₁ r).2 h₂)
    · rename_i s₁ e
      obtain ⟨n, f, hn, he⟩ := (hp (.error e s₁)).2 h₁
      exact ⟨n, g f, by simp only [chain, hn], by rw [hg, he]⟩

end Runs

/-! ## Two runs that end alike -/

section Agreement

variable {ε φ ψ σ τ : Type}

/-- Two runs have come to ends of one kind, with the same error, in related states. -/
def Outcome.Agree (fault : φ → ε) (fault' : ψ → ε) (R : σ → τ → Prop) :
    Outcome φ σ → Outcome ψ τ → Prop
  | done s, done t => R s t
  | failed f s, failed g t => fault f = fault' g ∧ R s t
  | _, _ => False

theorem agree_of_ends {fault : φ → ε} {fault' : ψ → ε} {R : σ → τ → Prop}
    {run : Nat → Outcome φ σ} {run' : Nat → Outcome ψ τ}
    (h : ∀ r, Ends fault run r → ∃ r', Ends fault' run' r' ∧ Effect.Related R r r')
    {fuel : Nat} (hs : (run fuel).Settled) :
    ∃ fuel', Outcome.Agree fault fault' R (run fuel) (run' fuel') := by
  cases hr : run fuel with
  | pending s =>
      rw [hr] at hs
      exact hs.elim
  | done s =>
      obtain ⟨r', hr', hrel⟩ := h (.ok () s) ⟨fuel, hr⟩
      cases hrel with
      | ok hR =>
          obtain ⟨fuel', hf⟩ := hr'
          refine ⟨fuel', ?_⟩
          rw [hf]
          exact hR
  | failed f s =>
      obtain ⟨r', hr', hrel⟩ := h (.error (fault f) s) ⟨fuel, f, hr, rfl⟩
      cases hrel with
      | error hR =>
          obtain ⟨fuel', g, hf, hg⟩ := hr'
          refine ⟨fuel', ?_⟩
          rw [hf]
          exact ⟨hg.symm, hR⟩

end Agreement

/-! ## Segments -/

section Segments

variable {ε φ σ τ α : Type}

/-- One state leads to another in some number of steps. -/
inductive Reaches (step : τ → Stage φ τ) : τ → τ → Prop
  | refl (t : τ) : Reaches step t t
  | next {t t₁ t' : τ} : step t = .next t₁ → Reaches step t₁ t' → Reaches step t t'

/-- The machine takes a number of steps from a state and has not come to an end. -/
def Lasts (step : τ → Stage φ τ) (n : Nat) (t : τ) : Prop :=
  ∃ t', iterate step n t = .pending t'

theorem Reaches.trans {step : τ → Stage φ τ} {t t₁ t' : τ} (h : Reaches step t t₁)
    (h' : Reaches step t₁ t') : Reaches step t t' := by
  induction h with
  | refl => exact h'
  | next hs _ ih => exact .next hs (ih h')

/-- What a run from a later state comes to, a run from an earlier one comes to. -/
theorem Reaches.iterate_eq {step : τ → Stage φ τ} {t t' : τ} (h : Reaches step t t')
    (n : Nat) : ∃ k, n ≤ k ∧ iterate step k t = iterate step n t' := by
  induction h with
  | refl => exact ⟨n, Nat.le_refl n, rfl⟩
  | next hs _ ih =>
      obtain ⟨k, hk, he⟩ := ih
      exact ⟨k + 1, by omega, by simp only [iterate, hs, he]⟩

theorem lasts_zero (step : τ → Stage φ τ) (t : τ) : Lasts step 0 t := ⟨t, rfl⟩

theorem lasts_succ_of_next {step : τ → Stage φ τ} {t t' : τ} {n : Nat}
    (hs : step t = .next t') : Lasts step (n + 1) t ↔ Lasts step n t' := by
  simp only [Lasts, iterate, hs]

theorem Lasts.of_le {step : τ → Stage φ τ} {t : τ} {n k : Nat} (h : Lasts step k t)
    (hle : n ≤ k) : Lasts step n t := by
  obtain ⟨t', ht⟩ := h
  have hsteady : (iterate step n t).Settled → iterate step k t = iterate step n t :=
    fun hs => steady_iterate step t hle hs
  cases hn : iterate step n t with
  | pending t₁ => exact ⟨t₁, hn⟩
  | done t₁ =>
      rw [hn, ht] at hsteady
      cases hsteady trivial
  | failed f t₁ =>
      rw [hn, ht] at hsteady
      cases hsteady trivial

theorem Reaches.lasts {step : τ → Stage φ τ} {t t' : τ} (h : Reaches step t t') {n : Nat}
    (h' : Lasts step n t') : Lasts step n t := by
  obtain ⟨k, hk, he⟩ := h.iterate_eq n
  obtain ⟨t₁, ht₁⟩ := h'
  exact Lasts.of_le ⟨t₁, he.trans ht₁⟩ hk

variable (step : τ → Stage φ τ) (fault : φ → ε) (view : τ → σ)

/-- The machine fails from a state, with an error and a view of the last state. -/
def Fails (t : τ) (e : ε) (s : σ) : Prop :=
  ∃ t₁ f t₂, Reaches step t t₁ ∧ step t₁ = .fail f t₂ ∧ fault f = e ∧ view t₂ = s

/-- One step of the machine does an action. Where it goes depends on the value. -/
def Performs (enter : σ → τ) (a : EStateM ε σ α) (leave : α → σ → τ) : Prop :=
  ∀ s, match a s with
    | .ok x s' => step (enter s) = .next (leave x s')
    | .error e s' => ∃ f t, step (enter s) = .fail f t ∧ fault f = e ∧ view t = s'

/-- Between two families of states the machine has an effect. -/
structure Segment (enter leave : σ → τ) (p : Effect ε σ) : Prop where
  done {s s' : σ} : p s (.ok () s') → Reaches step (enter s) (leave s')
  fails {s s' : σ} {e : ε} : p s (.error e s') → Fails step fault view (enter s) e s'
  lasts {s : σ} : (∀ r, ¬ p s r) → ∀ n, Lasts step n (enter s)

variable {step fault view}

theorem Reaches.fails {t t' : τ} {e : ε} {s : σ} (h : Reaches step t t')
    (h' : Fails step fault view t' e s) : Fails step fault view t e s := by
  obtain ⟨t₁, f, t₂, hr, hrest⟩ := h'
  exact ⟨t₁, f, t₂, h.trans hr, hrest⟩

namespace Performs

variable {enter : σ → τ} {leave : α → σ → τ} {a : EStateM ε σ α}
  (h : Performs step fault view enter a leave)

include h

theorem next_of_ok {s s' : σ} {x : α} (ha : a s = .ok x s') :
    step (enter s) = .next (leave x s') := by
  have hs := h s
  rw [ha] at hs
  exact hs

theorem fails_of_error {s s' : σ} {e : ε} (ha : a s = .error e s') :
    Fails step fault view (enter s) e s' := by
  have hs := h s
  rw [ha] at hs
  obtain ⟨f, t, hstep, hf, ht⟩ := hs
  exact ⟨enter s, f, t, .refl _, hstep, hf, ht⟩

end Performs

namespace Segment

theorem skip (enter : σ → τ) : Segment step fault view enter enter Effect.skip where
  done h := by
    cases h
    exact .refl _
  fails h := by cases h
  lasts h := (h _ rfl).elim

theorem after {enter leave : σ → τ} {mid : α → σ → τ} {a : EStateM ε σ α}
    {k : α → Effect ε σ} (h : Performs step fault view enter a mid)
    (hk : ∀ {s s' : σ} {x : α}, a s = .ok x s' → Segment step fault view (mid x) leave (k x)) :
    Segment step fault view enter leave (Effect.after a k) := by
  refine ⟨?_, ?_, ?_⟩
  · intro s s' hr
    cases ha : a s with
    | ok x s₁ =>
        rw [Effect.after_of_ok ha] at hr
        exact .next (h.next_of_ok ha) ((hk ha).done hr)
    | error e s₁ =>
        rw [Effect.after_of_error ha] at hr
        cases hr
  · intro s s' e hr
    cases ha : a s with
    | ok x s₁ =>
        rw [Effect.after_of_ok ha] at hr
        exact (Reaches.next (h.next_of_ok ha) (.refl _)).fails ((hk ha).fails hr)
    | error e' s₁ =>
        rw [Effect.after_of_error ha] at hr
        cases hr
        exact h.fails_of_error ha
  · intro s hr n
    cases ha : a s with
    | ok x s₁ =>
        have hk' : ∀ r, ¬ k x s₁ r := fun r hkr => hr r ((Effect.after_of_ok ha r).2 hkr)
        exact (Reaches.next (h.next_of_ok ha) (.refl _)).lasts ((hk ha).lasts hk' n)
    | error e s₁ => exact (hr _ ((Effect.after_of_error ha _).2 rfl)).elim

theorem act {enter leave : σ → τ} {a : EStateM ε σ α}
    (h : Performs step fault view enter a fun _ => leave) :
    Segment step fault view enter leave (Effect.act a) :=
  after h fun _ => skip leave

theorem seq {enter mid leave : σ → τ} {p q : Effect ε σ}
    (hp : Segment step fault view enter mid p) (hq : Segment step fault view mid leave q) :
    Segment step fault view enter leave (Effect.Seq p q) := by
  refine ⟨?_, ?_, ?_⟩
  · rintro s s' (⟨h₁, h₂⟩ | _)
    exact (hp.done h₁).trans (hq.done h₂)
  · rintro s s' e (⟨h₁, h₂⟩ | h)
    · exact (hp.done h₁).fails (hq.fails h₂)
    · exact hp.fails h
  · intro s hr n
    by_cases hs : ∃ r, p s r
    · obtain ⟨r, hpr⟩ := hs
      cases r with
      | ok x s₁ =>
          have hq' : ∀ r, ¬ q s₁ r := fun r hqr => hr r (.step hpr hqr)
          exact (hp.done hpr).lasts (hq.lasts hq' n)
      | error e s₁ => exact (hr _ (.stop hpr)).elim
    · exact hp.lasts (fun r hpr => hs ⟨r, hpr⟩) n

section Loop

variable {back inner leave : σ → τ} {head : EStateM ε σ Bool} {body : Effect ε σ}
  (hb : Performs step fault view back head fun b => if b then inner else leave)
  (hbody : Segment step fault view inner back body)

include hb hbody

theorem loop_done {s : σ} {r : EStateM.Result ε σ Unit} (h : Effect.Loop head body s r)
    {s' : σ} (hr : r = .ok () s') {enter : σ → τ}
    (he : Performs step fault view enter head fun b => if b then inner else leave) :
    Reaches step (enter s) (leave s') := by
  induction h generalizing enter with
  | fault _ => cases hr
  | leave hh =>
      cases hr
      exact .next (he.next_of_ok hh) (.refl _)
  | stop _ _ => cases hr
  | turn hh hbd _ ih =>
      exact .next (he.next_of_ok hh) ((hbody.done hbd).trans (ih hr hb))

theorem loop_fails {s : σ} {r : EStateM.Result ε σ Unit} (h : Effect.Loop head body s r)
    {e : ε} {s' : σ} (hr : r = .error e s') {enter : σ → τ}
    (he : Performs step fault view enter head fun b => if b then inner else leave) :
    Fails step fault view (enter s) e s' := by
  induction h generalizing enter with
  | fault hh =>
      cases hr
      exact he.fails_of_error hh
  | leave _ => cases hr
  | stop hh hbd =>
      cases hr
      exact (Reaches.next (he.next_of_ok hh) (.refl _)).fails (hbody.fails hbd)
  | turn hh hbd _ ih =>
      exact (Reaches.next (he.next_of_ok hh) (hbody.done hbd)).fails (ih hr hb)

/-- Without a result every turn ends and comes back, and each costs a step at the head. -/
theorem loop_lasts (n : Nat) {s : σ} (hr : ∀ r, ¬ Effect.Loop head body s r) {enter : σ → τ}
    (he : Performs step fault view enter head fun b => if b then inner else leave) :
    Lasts step n (enter s) := by
  induction n generalizing s enter with
  | zero => exact lasts_zero step (enter s)
  | succ n ih =>
      cases hh : head s with
      | error e s₁ => exact (hr _ (.fault hh)).elim
      | ok b s₁ =>
          cases b with
          | false => exact (hr _ (.leave hh)).elim
          | true =>
              rw [lasts_succ_of_next (he.next_of_ok hh)]
              -- Either the body ends and the loop goes on for ever, or the body itself never ends.
              by_cases hs : ∃ r, body s₁ r
              · obtain ⟨r, hbr⟩ := hs
                cases r with
                | ok x s₂ =>
                    have hr' : ∀ r, ¬ Effect.Loop head body s₂ r :=
                      fun r h => hr r (.turn hh hbr h)
                    exact (hbody.done hbr).lasts (ih hr' hb)
                | error e s₂ => exact (hr _ (.stop hh hbr)).elim
              · exact hbody.lasts (fun r hbr => hs ⟨r, hbr⟩) n

/-- A loop is entered at one family of states and comes back to another; in both one step does
its head. -/
theorem loop {enter : σ → τ}
    (he : Performs step fault view enter head fun b => if b then inner else leave) :
    Segment step fault view enter leave (Effect.Loop head body) where
  done h := loop_done hb hbody h rfl he
  fails h := loop_fails hb hbody h rfl he
  lasts h n := loop_lasts hb hbody n h he

end Loop

/-- A run from the first state of a segment whose last state halts ends as the effect says. -/
theorem ends_iff {enter leave : σ → τ} {p : Effect ε σ}
    (h : Segment step fault view enter leave p)
    (hleave : ∀ s, step (leave s) = .halt (leave s) ∧ view (leave s) = s) {s : σ}
    (r : EStateM.Result ε σ Unit) :
    Ends fault (fun fuel => (iterate step fuel (enter s)).map view) r ↔ p s r := by
  have hends : ∀ r, p s r →
      Ends fault (fun fuel => (iterate step fuel (enter s)).map view) r := by
    intro r hr
    cases r with
    | ok x s' =>
        obtain ⟨k, _, hk⟩ := (h.done hr).iterate_eq 1
        refine ⟨k, ?_⟩
        show (iterate step k (enter s)).map view = .done s'
        rw [hk]
        simp only [iterate, (hleave s').1, Outcome.map, (hleave s').2]
    | error e s' =>
        obtain ⟨t₁, f, t₂, hreach, hfail, hf, ht₂⟩ := h.fails hr
        obtain ⟨k, _, hk⟩ := hreach.iterate_eq 1
        refine ⟨k, f, ?_, hf⟩
        show (iterate step k (enter s)).map view = .failed f s'
        rw [hk]
        simp only [iterate, hfail, Outcome.map, ht₂]
  refine ⟨fun hr => ?_, hends r⟩
  by_cases hs : ∃ r', p s r'
  · obtain ⟨r', hr'⟩ := hs
    cases Ends.unique ((steady_iterate step (enter s)).map view) hr (hends r' hr')
    exact hr'
  -- No result at all: then no amount of fuel is enough, against `hr`.
  · have hlasts := h.lasts fun r' hr' => hs ⟨r', hr'⟩
    cases r with
    | ok x s' =>
        obtain ⟨fuel, hf⟩ := hr
        obtain ⟨t, ht⟩ := hlasts fuel
        simp only [ht, Outcome.map] at hf
        cases hf
    | error e s' =>
        obtain ⟨fuel, f, hf, _⟩ := hr
        obtain ⟨t, ht⟩ := hlasts fuel
        simp only [ht, Outcome.map] at hf
        cases hf

end Segment

end Segments

end TapeForge
