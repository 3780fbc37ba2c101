import TapeForge.Run

/-!
# Effects

What a piece of a program does, apart from how a machine walks through it: a relation between
the state a piece starts in and the result it ends with. A piece that does not end from a state
has no result there. Effects are put together by sequence and by loop, and two effects are
compared by what their actions do to related states.
-/

namespace TapeForge

/-- The results with which work may end, for each state in which it may start. -/
abbrev Effect (ε σ : Type) := σ → EStateM.Result ε σ Unit → Prop

namespace Effect

variable {ε σ τ α : Type}

/-- Nothing is done. -/
def skip : Effect ε σ := fun s r => r = .ok () s

/-- An action, and then the effect that its value chooses. -/
def after (a : EStateM ε σ α) (k : α → Effect ε σ) : Effect ε σ := fun s r =>
  match a s with
  | .ok x s' => k x s' r
  | .error e s' => r = .error e s'

def act (a : EStateM ε σ α) : Effect ε σ := after a fun _ => skip

/-- One effect and then another, unless the first fails. -/
inductive Seq (p q : Effect ε σ) : Effect ε σ
  | step {s s' : σ} {r : EStateM.Result ε σ Unit} :
      p s (.ok () s') → q s' r → Seq p q s r
  | stop {s s' : σ} {e : ε} : p s (.error e s') → Seq p q s (.error e s')

/-- The body as long as the head, which comes before every turn, says so. -/
inductive Loop (head : EStateM ε σ Bool) (body : Effect ε σ) : Effect ε σ
  | fault {s s' : σ} {e : ε} : head s = .error e s' → Loop head body s (.error e s')
  | leave {s s' : σ} : head s = .ok false s' → Loop head body s (.ok () s')
  | stop {s s₁ s' : σ} {e : ε} : head s = .ok true s₁ → body s₁ (.error e s') →
      Loop head body s (.error e s')
  | turn {s s₁ s₂ : σ} {r : EStateM.Result ε σ Unit} : head s = .ok true s₁ →
      body s₁ (.ok () s₂) → Loop head body s₂ r → Loop head body s r

/-! ## Equations -/

theorem bind_of_ok {β : Type} {a : EStateM ε σ α} {k : α → EStateM ε σ β} {s s' : σ} {x : α}
    (h : a s = .ok x s') : (a >>= k) s = k x s' := by
  show EStateM.bind a k s = k x s'
  rw [EStateM.bind, h]

theorem bind_of_error {β : Type} {a : EStateM ε σ α} {k : α → EStateM ε σ β} {s s' : σ} {e : ε}
    (h : a s = .error e s') : (a >>= k) s = .error e s' := by
  show EStateM.bind a k s = .error e s'
  rw [EStateM.bind, h]

theorem after_of_ok {a : EStateM ε σ α} {k : α → Effect ε σ} {s s' : σ} {x : α}
    (h : a s = .ok x s') (r : EStateM.Result ε σ Unit) : after a k s r ↔ k x s' r := by
  unfold after
  rw [h]

theorem after_of_error {a : EStateM ε σ α} {k : α → Effect ε σ} {s s' : σ} {e : ε}
    (h : a s = .error e s') (r : EStateM.Result ε σ Unit) :
    after a k s r ↔ r = .error e s' := by
  unfold after
  rw [h]

theorem act_ok {a : EStateM ε σ α} {s s' : σ} {x : α} (h : a s = .ok x s') :
    act a s (.ok () s') := by
  rw [act, after_of_ok h]
  rfl

theorem act_error {a : EStateM ε σ α} {s s' : σ} {e : ε} (h : a s = .error e s') :
    act a s (.error e s') := by
  rw [act, after_of_error h]

theorem seq_act_iff {a : EStateM ε σ Unit} {p : Effect ε σ} {s s' : σ} (h : a s = .ok () s')
    (r : EStateM.Result ε σ Unit) : Seq (act a) p s r ↔ p s' r := by
  constructor
  · rintro (⟨h₁, h₂⟩ | h₁)
    · rw [act, after_of_ok h] at h₁
      cases h₁
      exact h₂
    · rw [act, after_of_ok h] at h₁
      cases h₁
  · exact fun hp => .step (act_ok h) hp

theorem skip_seq (p : Effect ε σ) : Seq skip p = p := by
  funext s r
  refine propext ⟨?_, fun h => .step rfl h⟩
  rintro (⟨h₁, h₂⟩ | h)
  · cases h₁
    exact h₂
  · cases h

theorem seq_skip (p : Effect ε σ) : Seq p skip = p := by
  funext s r
  refine propext ⟨?_, ?_⟩
  · rintro (⟨h₁, h₂⟩ | h)
    · cases h₂
      exact h₁
    · exact h
  · intro h
    cases r with
    | ok x s' => exact .step h rfl
    | error e s' => exact .stop h

theorem seq_assoc (p q t : Effect ε σ) : Seq (Seq p q) t = Seq p (Seq q t) := by
  funext s r
  refine propext ⟨?_, ?_⟩
  · rintro (⟨h₁ | h₁, h₂⟩ | h)
    · exact .step ‹_› (.step ‹_› h₂)
    · rcases h with ⟨h₁, h₂⟩ | h₁
      · exact .step h₁ (.stop h₂)
      · exact .stop h₁
  · rintro (⟨h₁, h₂ | h₂⟩ | h)
    · exact .step (.step h₁ ‹_›) ‹_›
    · exact .stop (.step h₁ h₂)
    · exact .stop (.stop h)

/-! ## Effects with at most one result -/

/-- From no state are there two results. -/
def Single (p : Effect ε σ) : Prop :=
  ∀ ⦃s : σ⦄ ⦃r r' : EStateM.Result ε σ Unit⦄, p s r → p s r' → r = r'

theorem single_skip : Single (skip : Effect ε σ) := by
  intro s r r' h h'
  cases h
  cases h'
  rfl

theorem single_after {a : EStateM ε σ α} {k : α → Effect ε σ} (hk : ∀ x, Single (k x)) :
    Single (after a k) := by
  intro s r r' h h'
  cases ha : a s with
  | ok x s' =>
      rw [after_of_ok ha] at h h'
      exact hk x h h'
  | error e s' =>
      rw [after_of_error ha] at h h'
      rw [h, h']

theorem single_act (a : EStateM ε σ α) : Single (act a) :=
  single_after fun _ => single_skip

theorem single_seq {p q : Effect ε σ} (hp : Single p) (hq : Single q) :
    Single (Seq p q) := by
  intro s r r' h h'
  cases h with
  | step h₁ h₂ =>
      cases h' with
      | step h₁' h₂' =>
          cases hp h₁ h₁'
          exact hq h₂ h₂'
      | stop h' => cases hp h₁ h'
  | stop h =>
      cases h' with
      | step h₁' h₂' => cases hp h h₁'
      | stop h' => exact hp h h'

theorem single_loop {head : EStateM ε σ Bool} {body : Effect ε σ} (hb : Single body) :
    Single (Loop head body) := by
  intro s r r' h
  -- By induction on the first run: the head has one value, so the second takes the same turn.
  induction h with
  | fault hh =>
      intro h'
      cases h' <;> simp_all
  | leave hh =>
      intro h'
      cases h' <;> simp_all
  | stop hh hbody =>
      intro h'
      cases h' with
      | fault hh' => simp_all
      | leave hh' => simp_all
      | stop hh' hbody' =>
          rw [hh] at hh'
          cases hh'
          exact hb hbody hbody'
      | turn hh' hbody' hrest' =>
          rw [hh] at hh'
          cases hh'
          cases hb hbody hbody'
  | turn hh hbody _ ih =>
      intro h'
      cases h' with
      | fault hh' => simp_all
      | leave hh' => simp_all
      | stop hh' hbody' =>
          rw [hh] at hh'
          cases hh'
          cases hb hbody hbody'
      | turn hh' hbody' hrest' =>
          rw [hh] at hh'
          cases hh'
          cases hb hbody hbody'
          exact ih hrest'

/-! ## Loops that come to an end -/

/-- One turn, or the end, of a loop whose last state can be told from every state on the way. -/
inductive Turn (head : EStateM ε σ Bool) (body : Effect ε σ) (inv : σ → Prop) (size : σ → Nat)
    (final : σ → σ) (s : σ) : Prop
  | last : head s = .ok false (final s) → Turn head body inv size final s
  | more {s₁ s₂ : σ} : head s = .ok true s₁ → body s₁ (.ok () s₂) → inv s₂ →
      size s₂ < size s → final s₂ = final s → Turn head body inv size final s

theorem loop_of_turn {head : EStateM ε σ Bool} {body : Effect ε σ} (inv : σ → Prop)
    (size : σ → Nat) (final : σ → σ) (h : ∀ s, inv s → Turn head body inv size final s)
    {s : σ} (hs : inv s) : Loop head body s (.ok () (final s)) := by
  -- There is no run yet to do the induction on, so it is on the size.
  induction hn : size s using Nat.strongRecOn generalizing s with
  | ind n ih =>
      cases h s hs with
      | last hhead => exact .leave hhead
      | more hhead hbody hinv hlt hfinal =>
          have hrest := ih _ (hn ▸ hlt) hinv rfl
          rw [hfinal] at hrest
          exact .turn hhead hbody hrest

/-! ## Effects on related states -/

/-- Results of one kind, with equal values, in related states. -/
inductive Related (R : σ → τ → Prop) :
    EStateM.Result ε σ α → EStateM.Result ε τ α → Prop
  | ok {x : α} {s : σ} {t : τ} : R s t → Related R (.ok x s) (.ok x t)
  | error {e : ε} {s : σ} {t : τ} : R s t → Related R (.error e s) (.error e t)

/-- Two actions that keep states related and give equal values. -/
def Alike (R : σ → τ → Prop) (a : EStateM ε σ α) (b : EStateM ε τ α) : Prop :=
  ∀ ⦃s : σ⦄ ⦃t : τ⦄, R s t → Related R (a s) (b t)

/-- Each result of the first effect is one of the second, from related states. -/
def Sim (R : σ → τ → Prop) (p : Effect ε σ) (q : Effect ε τ) : Prop :=
  ∀ ⦃s : σ⦄ ⦃t : τ⦄ ⦃r : EStateM.Result ε σ Unit⦄, R s t → p s r →
    ∃ r', q t r' ∧ Related R r r'

theorem Related.swap {R : σ → τ → Prop} {r : EStateM.Result ε σ α}
    {r' : EStateM.Result ε τ α} (h : Related R r r') :
    Related (fun t s => R s t) r' r := by
  cases h with
  | ok h => exact .ok h
  | error h => exact .error h

theorem Related.mono {R S : σ → τ → Prop} (hRS : ∀ {s t}, R s t → S s t)
    {r : EStateM.Result ε σ α} {r' : EStateM.Result ε τ α} (h : Related R r r') :
    Related S r r' := by
  cases h with
  | ok h => exact .ok (hRS h)
  | error h => exact .error (hRS h)

theorem Alike.swap {R : σ → τ → Prop} {a : EStateM ε σ α} {b : EStateM ε τ α}
    (h : Alike R a b) : Alike (fun t s => R s t) b a :=
  fun _ _ hR => (h hR).swap

theorem Alike.pure {R : σ → τ → Prop} (x : α) :
    Alike R (pure x : EStateM ε σ α) (pure x : EStateM ε τ α) :=
  fun _ _ hR => .ok hR

theorem Alike.ok_of_ok {R : σ → τ → Prop} {a : EStateM ε σ α} {b : EStateM ε τ α}
    (h : Alike R a b) {s s' : σ} {t : τ} {x : α} (hR : R s t) (ha : a s = .ok x s') :
    ∃ t', b t = .ok x t' ∧ R s' t' := by
  have hrel := h hR
  rw [ha] at hrel
  generalize b t = rb at hrel ⊢
  cases hrel with
  | ok hR' => exact ⟨_, rfl, hR'⟩

theorem Alike.error_of_error {R : σ → τ → Prop} {a : EStateM ε σ α} {b : EStateM ε τ α}
    (h : Alike R a b) {s s' : σ} {t : τ} {e : ε} (hR : R s t) (ha : a s = .error e s') :
    ∃ t', b t = .error e t' ∧ R s' t' := by
  have hrel := h hR
  rw [ha] at hrel
  generalize b t = rb at hrel ⊢
  cases hrel with
  | error hR' => exact ⟨_, rfl, hR'⟩

theorem Alike.bind {R : σ → τ → Prop} {β : Type} {a : EStateM ε σ α} {b : EStateM ε τ α}
    {k : α → EStateM ε σ β} {l : α → EStateM ε τ β} (h : Alike R a b)
    (hk : ∀ x, Alike R (k x) (l x)) : Alike R (a >>= k) (b >>= l) := by
  intro s t hR
  have hr := h hR
  show Related R (EStateM.bind a k s) (EStateM.bind b l t)
  unfold EStateM.bind
  generalize a s = ra at hr ⊢
  generalize b t = rb at hr ⊢
  cases hr with
  | ok h => exact hk _ h
  | error h => exact .error h

theorem sim_skip {R : σ → τ → Prop} : Sim R (skip : Effect ε σ) (skip : Effect ε τ) := by
  intro s t r hR h
  cases h
  exact ⟨_, rfl, .ok hR⟩

theorem sim_after {R : σ → τ → Prop} {a : EStateM ε σ α} {b : EStateM ε τ α}
    {k : α → Effect ε σ} {l : α → Effect ε τ} (h : Alike R a b)
    (hk : ∀ x, Sim R (k x) (l x)) : Sim R (after a k) (after b l) := by
  intro s t r hR hr
  cases ha : a s with
  | ok x s' =>
      rw [after_of_ok ha] at hr
      obtain ⟨t', hb, hR'⟩ := h.ok_of_ok hR ha
      obtain ⟨r', hr', hrel⟩ := hk x hR' hr
      exact ⟨r', (after_of_ok hb r').2 hr', hrel⟩
  | error e s' =>
      rw [after_of_error ha] at hr
      obtain ⟨t', hb, hR'⟩ := h.error_of_error hR ha
      subst hr
      exact ⟨_, (after_of_error hb _).2 rfl, .error hR'⟩

theorem sim_act {R : σ → τ → Prop} {a : EStateM ε σ α} {b : EStateM ε τ α}
    (h : Alike R a b) : Sim R (act a) (act b) :=
  sim_after h fun _ => sim_skip

theorem sim_seq {R : σ → τ → Prop} {p p' : Effect ε σ} {q q' : Effect ε τ}
    (hp : Sim R p q) (hp' : Sim R p' q') : Sim R (Seq p p') (Seq q q') := by
  intro s t r hR h
  cases h with
  | step h₁ h₂ =>
      obtain ⟨r₁, hr₁, hrel⟩ := hp hR h₁
      cases hrel with
      | ok hR₁ =>
          obtain ⟨r₂, hr₂, hrel₂⟩ := hp' hR₁ h₂
          exact ⟨r₂, .step hr₁ hr₂, hrel₂⟩
  | stop h =>
      obtain ⟨r₁, hr₁, hrel⟩ := hp hR h
      cases hrel with
      | error hR₁ => exact ⟨_, .stop hr₁, .error hR₁⟩

theorem sim_loop {R : σ → τ → Prop} {head : EStateM ε σ Bool} {head' : EStateM ε τ Bool}
    {body : Effect ε σ} {body' : Effect ε τ} (hh : Alike R head head')
    (hb : Sim R body body') : Sim R (Loop head body) (Loop head' body') := by
  intro s t r hR h
  -- Turn by turn: a loop with a result has come to an end, so its run is a finite tree.
  induction h generalizing t with
  | fault h =>
      obtain ⟨t', ht, hR'⟩ := hh.error_of_error hR h
      exact ⟨_, .fault ht, .error hR'⟩
  | leave h =>
      obtain ⟨t', ht, hR'⟩ := hh.ok_of_ok hR h
      exact ⟨_, .leave ht, .ok hR'⟩
  | stop h hbody =>
      obtain ⟨t₁, ht, hR₁⟩ := hh.ok_of_ok hR h
      obtain ⟨r₁, hr₁, hrel⟩ := hb hR₁ hbody
      cases hrel with
      | error hR' => exact ⟨_, .stop ht hr₁, .error hR'⟩
  | turn h hbody _ ih =>
      obtain ⟨t₁, ht, hR₁⟩ := hh.ok_of_ok hR h
      obtain ⟨r₁, hr₁, hrel⟩ := hb hR₁ hbody
      cases hrel with
      | ok hR' =>
          obtain ⟨r', hr', hrel'⟩ := ih hR'
          exact ⟨r', .turn ht hr₁ hr', hrel'⟩

end Effect

end TapeForge
