import TapeForge.Proofs.Compiling
import TapeForge.Proofs.PackedRefines

/-!
# Packed text fails as text does

A run of additions that cancels out is not done at all when it is packed, so it does not look at the
cell either. Apart from that, packing a run moves no look at a cell past another one: text in which
no run of additions cancels out fails at the same cell, in the same machine, as its fold does.
-/

namespace TapeForge

open Machine Machine.Action Effect

namespace Packed

/-! ## Runs that cancel out -/

/-- Whether no run of additions cancels out. `net` is the amount of the run before the symbols, if
there is one. -/
def uncancelled : Option Int → List Symbol → Bool
  | net, [] => net != some 0
  | net, .inc :: rest => uncancelled (some (net.getD 0 + 1)) rest
  | net, .dec :: rest => uncancelled (some (net.getD 0 + -1)) rest
  | net, _ :: rest => net != some 0 && uncancelled none rest

theorem uncancelled_append_closing (net : Option Int) (ss ss' : List Symbol) :
    uncancelled net (ss ++ .closing :: ss') = (uncancelled net ss && uncancelled none ss') := by
  induction ss generalizing net with
  | nil => rfl
  | cons y ss ih =>
      rw [List.cons_append]
      cases y with
      | inc | dec => exact ih _
      | _ => simp only [uncancelled, ih, Bool.and_assoc]

theorem uncancelled_loop {net : Option Int} {body rest : Block}
    (h : uncancelled net (Block.loop body rest).symbols = true) :
    net ≠ some 0 ∧ uncancelled none body.symbols = true ∧ uncancelled none rest.symbols = true := by
  have hsplit : uncancelled net (Block.loop body rest).symbols =
      (net != some 0 && uncancelled none (body.symbols ++ .closing :: rest.symbols)) := by
    simp only [Block.symbols, uncancelled]
  rw [hsplit, uncancelled_append_closing, Bool.and_eq_true, Bool.and_eq_true] at h
  exact ⟨by simpa using h.1, h.2⟩

/-- The run of additions before a symbol more, if there is one. -/
def netAfter (net : Option Int) : Plain → Option Int
  | .inc => some (net.getD 0 + 1)
  | .dec => some (net.getD 0 + -1)
  | _ => none

theorem uncancelled_plain {net : Option Int} {s : Plain} {rest : List Symbol}
    (h : uncancelled net (s.symbol :: rest) = true) :
    (s = .inc ∨ s = .dec ∨ net ≠ some 0) ∧ uncancelled (netAfter net s) rest = true := by
  cases s with
  | inc | dec => exact ⟨by simp, h⟩
  | _ =>
    simp only [Plain.symbol, uncancelled, Bool.and_eq_true, bne_iff_ne] at h
    exact ⟨.inr (.inr h.1), h.2⟩

namespace Pending

def whole : Pending → List Lump
  | none => []
  | adding n => [.add n]
  | shifting n => [.shift n]

def net : Pending → Option Int
  | adding n => some n.toInt
  | _ => .none

theorem lumps_of_high {n : Int64} (h : ¬ (-maxArg < n ∧ n < maxArg)) : n ≠ 0 := by
  rintro rfl
  exact h (by decide)

/-- A run that is settled is whole, whether a word has room for more of it or not. -/
theorem effects_settled_whole (p : Pending) :
    Seq (Lump.effects p.settled.1) (Lump.effects p.settled.2.whole) = Lump.effects p.whole := by
  cases p with
  | none => exact skip_seq _
  | adding n | shifting n =>
      simp only [settled]
      split
      · exact skip_seq _
      · next h =>
          rw [lumps, if_neg (lumps_of_high h)]
          exact seq_skip _

end Pending

/-! ## One effect at least another -/

/-- Each result of the first effect from a machine is one of the second. -/
def Gives (p q : Effect Fault Machine) (m : Machine) : Prop := ∀ ⦃r⦄, p m r → q m r

namespace Gives

variable {p p' q q' t : Effect Fault Machine} {m : Machine}

theorem refl : Gives p p m := fun _ h => h

theorem trans (h : Gives p q m) (h' : Gives q t m) : Gives p t m := fun _ hp => h' (h hp)

theorem seq (h : Gives p q m) (h' : ∀ m', p m (.ok () m') → Gives p' q' m') :
    Gives (Seq p p') (Seq q q') m := by
  rintro r (⟨h₁, h₂⟩ | h₁)
  · exact .step (h h₁) (h' _ h₁ h₂)
  · exact .stop (h h₁)

/-- One result is all that an effect has. -/
theorem of_single (hp : Single p) {r : EStateM.Result Fault Machine Unit} (hr : p m r)
    (hq : q m r) : Gives p q m := by
  intro r' hr'
  rw [hp hr' hr]
  exact hq

theorem loop {b : Block} (h : ∀ m : Machine, m.Clean → Gives b.quiet q m) (hm : m.Clean) :
    Gives (Loop isOpen b.quiet) (Loop isOpen q) m := by
  intro r hr
  induction hr with
  | fault hhead => exact .fault hhead
  | leave hhead => exact .leave hhead
  | stop hhead hbody =>
      cases isOpen_state hhead
      exact .stop hhead (h _ hm hbody)
  | turn hhead hbody _ ih =>
      cases isOpen_state hhead
      exact .turn hhead (h _ hm hbody) (ih ((folds_block b).forth hm hbody).2)

end Gives

/-! ## Runs under way -/

/-- A run of additions of the text, and what has been folded of it: the whole of it, or the end of
it when the beginning has been done on the tape. -/
inductive Underway (net : Option Int) (p : Pending) (m : Machine) : Prop
  | whole : net = p.net → Underway net p m
  | split {i : Nat} : (∀ n, p ≠ .shifting n) → m.index? m.dp = some i → Underway net p m

variable {net : Option Int} {p q : Pending} {m : Machine}

theorem gives_shifting (n : Int64) (m : Machine) :
    Gives (Lump.effects [.shift n]) (Lump.effects (Pending.shifting n).lumps) m := by
  have hs : doLump (.shift n) m = .ok () (m.moved n) := rfl
  exact .of_single (Lump.single_effects _) (.step (act_ok hs) rfl) (effects_shifting m n)

theorem gives_adding {i : Nat} (hm : m.Clean) (n : Int64) (hi : m.index? m.dp = some i) :
    Gives (Lump.effects [.add n]) (Lump.effects (Pending.adding n).lumps) m :=
  .of_single (Lump.single_effects _) (.step (act_ok (doLump_add n hi)) rfl)
    (effects_adding hm.masked n hi)

/-- A run that does not cancel out is done where it ends. -/
theorem Underway.gives (h : Underway net p m) (hm : m.Clean) (hnet : net ≠ some 0) :
    Gives (Lump.effects p.whole) (Lump.effects p.lumps) m := by
  cases p with
  | none => exact .refl
  | shifting n => exact gives_shifting n m
  | adding n =>
      cases h with
      | split _ hi => exact gives_adding hm n hi
      | whole hwhole =>
          have hn : n ≠ 0 := by
            rintro rfl
            exact hnet hwhole
          rw [Pending.lumps, if_neg hn]
          exact .refl

/-- A symbol is a run of one, whole. -/
theorem Runs.gives {s : Plain} (h : Runs s q) (m : Machine) :
    Gives (act (doSymbol s.symbol)) (Lump.effects q.whole) m := by
  cases h with
  | @shifting d hs =>
      have hd : doLump (.shift d) m = .ok () (m.moved d) := rfl
      have hsym : doSymbol s.symbol m = .ok () (m.moved d) := by
        rw [hs]
        rfl
      exact .of_single (single_act _) (act_ok hsym) (.step (act_ok hd) rfl)
  | @adding d hs =>
      cases hi : m.index? m.dp with
      | some i =>
          exact .of_single (single_act _) (act_ok (hs.ok hi))
            (.step (act_ok (doLump_add d hi)) rfl)
      | none =>
          exact .of_single (single_act _)
            (act_error (doSymbol_error hs.plain.1 hs.plain.2 hi))
            (.stop (act_error (doLump_add_error d hi)))

/-- A run ends before a symbol that is a run of its own. -/
theorem gives_apart (hp : Gives (Lump.effects p.whole) (Lump.effects p.lumps) m) {s : Plain}
    (hs : Runs s q) :
    Gives (Seq (Lump.effects p.whole) (act (doSymbol s.symbol)))
      (Seq (Lump.effects (p.lumps ++ q.settled.1)) (Lump.effects q.settled.2.whole)) m := by
  rw [Lump.effects_append, seq_assoc, q.effects_settled_whole]
  exact hp.seq fun m' _ => hs.gives m'

/-- A run of additions goes on. -/
theorem gives_adding_on {s : Plain} {d : Int64} (hs : Adds s d) (n : Int64) (m : Machine) :
    Gives (Seq (Lump.effects [.add n]) (act (doSymbol s.symbol)))
      (Lump.effects [.add (n + d)]) m := by
  cases hi : m.index? m.dp with
  | some i =>
      refine .of_single (single_seq (Lump.single_effects _) (single_act _))
        (.step (.step (act_ok (doLump_add n hi)) rfl) (act_ok (hs.again n hi)))
        (.step (act_ok (doLump_add _ hi)) rfl)
  | none =>
      refine .of_single (single_seq (Lump.single_effects _) (single_act _))
        (.stop (.stop (act_error (doLump_add_error n hi)))) (.stop (act_error ?_))
      exact doLump_add_error _ hi

/-- A run of shifts goes on. -/
theorem gives_shifting_on {s : Plain} {d : Int64} (hs : Shifts s d) (n : Int64) (m : Machine) :
    Gives (Seq (Lump.effects [.shift n]) (act (doSymbol s.symbol)))
      (Lump.effects [.shift (n + d)]) m := by
  have hn : ∀ k, doLump (.shift k) m = .ok () (m.moved k) := fun _ => rfl
  refine .of_single (single_seq (Lump.single_effects _) (single_act _))
    (.step (.step (act_ok (hn n)) rfl) (act_ok (hs.again n m))) (.step (act_ok (hn _)) rfl)

theorem Underway.gives_join (h : Underway net p m) (hm : m.Clean) {s : Plain} (hs : Runs s q)
    (hend : (∃ d, q = .adding d) ∨ net ≠ some 0) :
    Gives (Seq (Lump.effects p.whole) (act (doSymbol s.symbol)))
      (Seq (Lump.effects (p.join q).1) (Lump.effects (p.join q).2.whole)) m := by
  cases hs with
  | @adding d hs =>
      cases p with
      | adding n =>
          rw [Pending.join, Pending.effects_settled_whole]
          exact gives_adding_on hs n m
      | none => exact gives_apart .refl (.adding hs)
      | shifting n => exact gives_apart (p := .shifting n) (gives_shifting n m) (.adding hs)
  | @shifting d hs =>
      cases p with
      | shifting n =>
          rw [Pending.join, Pending.effects_settled_whole]
          exact gives_shifting_on hs n m
      | none => exact gives_apart .refl (.shifting hs)
      -- A run of additions that ends here must not have cancelled out.
      | adding n => exact gives_apart (h.gives hm (hend.resolve_left (by simp))) (.shifting hs)

theorem Underway.gives_take (h : Underway net p m) (hm : m.Clean) (s : Plain)
    (hend : s = .inc ∨ s = .dec ∨ net ≠ some 0) :
    Gives (Seq (Lump.effects p.whole) (act (doSymbol s.symbol)))
      (Seq (Lump.effects (p.take s).1) (Lump.effects (p.take s).2.whole)) m := by
  cases s with
  | inc => exact h.gives_join hm (.adding adds_inc) (.inl ⟨_, rfl⟩)
  | dec => exact h.gives_join hm (.adding adds_dec) (.inl ⟨_, rfl⟩)
  | right => exact h.gives_join hm (.shifting rfl) (.inr (by simpa using hend))
  | left => exact h.gives_join hm (.shifting rfl) (.inr (by simpa using hend))
  | out =>
      rw [Pending.take, Lump.effects_append, Pending.whole]
      show Gives _ (Seq (Seq _ (Seq (act (doLump .out)) skip)) skip) m
      rw [seq_skip, seq_skip]
      exact (h.gives hm (by simpa using hend)).seq fun _ _ => .refl
  | inp =>
      rw [Pending.take, Lump.effects_append, Pending.whole]
      show Gives _ (Seq (Seq _ (Seq (act (doLump .inp)) skip)) skip) m
      rw [seq_skip, seq_skip]
      exact (h.gives hm (by simpa using hend)).seq fun _ _ => .refl

/-- Where one more is added to a run, it stays whole, or has come to a cell on the tape. -/
theorem Underway.add (h : Underway net (.adding n) m) (hn : (Pending.adding n).Within 8388606)
    {d : Int64} (hd : -1 ≤ d.toInt ∧ d.toInt ≤ 1) {m₁ : Machine}
    (hm₁ : Lump.effects (Pending.adding (n + d)).settled.1 m (.ok () m₁)) :
    Underway (some (net.getD 0 + d.toInt)) (Pending.adding (n + d)).settled.2 m₁ := by
  by_cases hlow : -maxArg < n + d ∧ n + d < maxArg
  · simp only [Pending.settled, if_pos hlow] at hm₁ ⊢
    cases hm₁
    cases h with
    | split _ hi => exact .split (by simp) hi
    | whole hwhole =>
        refine .whole ?_
        rw [hwhole]
        exact congrArg some (Pending.toInt_add hn hd).symm
  -- The run is full: it is done here, which needs a cell, so it was split on the tape.
  · have hne := Pending.lumps_of_high hlow
    simp only [Pending.settled, if_neg hlow, Pending.lumps, if_neg hne] at hm₁ ⊢
    cases hi : m.index? m.dp with
    | some i =>
        cases Lump.single_effects _ hm₁ (.step (act_ok (doLump_add _ hi)) rfl)
        exact .split (by simp) (by simpa using hi)
    | none =>
        cases Lump.single_effects _ hm₁ (.stop (act_error (doLump_add_error _ hi)))

theorem Underway.join_adding (h : Underway net p m) (hp : p.Within 8388606) {d : Int64}
    (hd : d = 1 ∨ d = -1) {m₁ : Machine}
    (hm₁ : Lump.effects (p.join (.adding d)).1 m (.ok () m₁)) :
    Underway (some (net.getD 0 + d.toInt)) (p.join (.adding d)).2 m₁ := by
  have hsettled : (Pending.adding d).settled = ([], .adding d) := by
    rcases hd with rfl | rfl <;> decide
  have hapart : net = none → Underway (some (net.getD 0 + d.toInt)) (.adding d) m₁ := by
    rintro rfl
    exact .whole (congrArg some (Int.zero_add _))
  cases p with
  | adding n => exact h.add hp (by rcases hd with rfl | rfl <;> decide) hm₁
  | none =>
      change Lump.effects (Pending.adding d).settled.1 m _ at hm₁
      show Underway _ (Pending.adding d).settled.2 m₁
      rw [hsettled] at hm₁ ⊢
      cases hm₁
      cases h with
      | whole hnet => exact hapart hnet
      | split _ hi => exact .split (by simp) hi
  | shifting n =>
      show Underway _ (Pending.adding d).settled.2 m₁
      rw [hsettled]
      cases h with
      | whole hnet => exact hapart hnet
      | split hne _ => exact absurd rfl (hne n)

theorem net_take {s : Plain} (hs : s ≠ .inc ∧ s ≠ .dec) (p : Pending) :
    (p.take s).2.net = none := by
  have hshifting : ∀ d, (p.join (.shifting d)).2.net = none := by
    intro d
    cases p <;> simp only [Pending.join, Pending.settled] <;> split <;> rfl
  cases s with
  | inc => exact absurd rfl hs.1
  | dec => exact absurd rfl hs.2
  | right | left => exact hshifting _
  | out | inp => rfl

theorem Underway.take (h : Underway net p m) (hp : p.Within 8388606) (s : Plain) {m₁ : Machine}
    (hm₁ : Lump.effects (p.take s).1 m (.ok () m₁)) :
    Underway (netAfter net s) (p.take s).2 m₁ := by
  cases s with
  | inc => exact h.join_adding hp (.inl rfl) hm₁
  | dec => exact h.join_adding hp (.inr rfl) hm₁
  | _ => exact .whole (net_take (by decide) p).symm

/-! ## Texts -/

theorem gives_clear {body : Block} (h : IsClear body) (hm : m.Clean) :
    Gives (Loop isOpen body.quiet) (act (doLump .clear)) m := by
  cases hi : m.index? m.dp with
  | none =>
      exact .of_single (single_loop body.single_quiet) (.fault (isOpen_eq_error hi))
        (act_error (doLump_clear_error hi))
  | some i =>
      refine .of_single (single_loop body.single_quiet) ?_ (act_ok (doLump_clear hi))
      obtain rfl | rfl := h
      · exact Block.quiet_loop_zero hi hm.masked
      · exact Block.quiet_loop_wrap hi hm.masked

/-- From a clean machine the fold of a text in which no run cancels out has each result of it. -/
theorem gives_fold {b : Block} (hm : m.Clean) (hp : p.Within 8388606) (h : Underway net p m)
    (hb : uncancelled net b.symbols = true) :
    Gives (Seq (Lump.effects p.whole) b.quiet) (fold p b).quiet m := by
  induction b generalizing net p m with
  | nil =>
      rw [fold, Folded.quiet_before]
      exact (h.gives hm (by simpa [uncancelled, Block.symbols] using hb)).seq fun _ _ => .refl
  | plain s rest ih =>
      obtain ⟨hend, hrest⟩ := uncancelled_plain hb
      rw [fold, Folded.quiet_before, Block.quiet, Block.effect, pure_bind, ← seq_assoc]
      refine ((h.gives_take hm s hend).seq fun _ _ => .refl).trans ?_
      rw [seq_assoc]
      refine Gives.refl.seq fun m₁ hm₁ => ?_
      exact ih ((folds_lumps _).forth hm hm₁).2 (Pending.take_within hp s).2 (h.take hp s hm₁) hrest
  | loop body rest ihb ihr =>
      obtain ⟨hnet, hbody, hrest⟩ := uncancelled_loop hb
      -- Inside the loop and behind it no run is under way.
      have hturn := fun m (hm : Machine.Clean m) => ihb hm (p := .none) trivial (.whole rfl) hbody
      have hlater := fun m (hm : Machine.Clean m) => ihr hm (p := .none) trivial (.whole rfl) hrest
      simp only [Pending.whole, Lump.effects, List.foldr, skip_seq] at hturn hlater
      rw [fold, Folded.quiet_before, Block.quiet, Block.effect, pure_bind]
      refine (h.gives hm hnet).seq fun m₁ hm₁ => ?_
      have hclean := ((folds_lumps _).forth hm hm₁).2
      split
      · next hclear =>
          exact (gives_clear hclear hclean).seq fun m₂ hm₂ =>
            hlater m₂ ((folds_block body).loop.forth hclean hm₂).2
      · exact (Gives.loop hturn hclean).seq fun m₂ hm₂ =>
          hlater m₂ ((folds_block body).loop.forth hclean hm₂).2

/-- A text in which no run of additions cancels out and its fold have the same results. -/
theorem quiet_iff_fold {b : Block} (hm : m.Clean) (hb : uncancelled none b.symbols = true)
    (r : EStateM.Result Fault Machine Unit) : b.quiet m r ↔ (fold .none b).quiet m r := by
  have hgives := gives_fold hm (p := .none) trivial (.whole rfl) hb
  rw [Pending.whole, Lump.effects, List.foldr, skip_seq] at hgives
  refine ⟨fun h => hgives h, fun h => ?_⟩
  rcases (folds_block_fold b).back hm h with ⟨m', rfl, hok⟩ | ⟨pos, length, n, herr⟩
  · exact hok
  · have hsame := Folded.single_quiet (fold .none b) h (hgives herr)
    rw [hsame]
    exact herr

/-! ## Failures -/

/-- From a clean machine an effect stays clean, and fails only off the tape. -/
def OffTape (p : Effect Fault Machine) : Prop :=
  ∀ ⦃m r⦄, m.Clean → p m r →
    (∃ m', r = .ok () m' ∧ m'.Clean) ∨ ∃ pos length n, r = .error (.outOfBounds pos length) n

namespace OffTape

variable {p q : Effect Fault Machine}

theorem skip : OffTape skip := fun _ _ hm h => .inl ⟨_, h, hm⟩

theorem seq (h : OffTape p) (h' : OffTape q) : OffTape (Seq p q) := by
  rintro m r hm (⟨h₁, h₂⟩ | h₁)
  · rcases h hm h₁ with ⟨m₁, hr, hm₁⟩ | ⟨_, _, _, hr⟩
    · cases hr
      exact h' hm₁ h₂
    · cases hr
  · exact h hm h₁

theorem loop (h : OffTape p) : OffTape (Loop isOpen p) := by
  intro m r hm hr
  induction hr with
  | @fault m n e hhead =>
      cases hi : m.index? m.dp with
      | some i =>
          rw [isOpen_eq_ok hi] at hhead
          cases hhead
      | none =>
          rw [isOpen_eq_error hi] at hhead
          cases hhead
          exact .inr ⟨_, _, _, rfl⟩
  | leave hhead =>
      cases isOpen_state hhead
      exact .inl ⟨_, rfl, hm⟩
  | stop hhead hbody =>
      cases isOpen_state hhead
      exact h hm hbody
  | turn hhead hbody _ ih =>
      cases isOpen_state hhead
      rcases h hm hbody with ⟨m₁, hr, hm₁⟩ | ⟨_, _, _, hr⟩
      · cases hr
        exact ih hm₁
      · cases hr

theorem act {a : Action Unit} (h : ∀ m : Machine, m.Clean → (∃ m', a m = .ok () m' ∧ m'.Clean) ∨
    ∃ pos length, a m = .error (.outOfBounds pos length) m) : OffTape (act a) := by
  intro m r hm hr
  rcases h m hm with ⟨m', ha, hm'⟩ | ⟨pos, length, ha⟩
  · exact .inl ⟨m', single_act a hr (act_ok ha), hm'⟩
  · exact .inr ⟨pos, length, m, single_act a hr (act_error ha)⟩

theorem of_error (h : OffTape p) {m n : Machine} {e : Fault} (hm : m.Clean)
    (hp : p m (.error e n)) : ∃ pos length, e = .outOfBounds pos length := by
  rcases h hm hp with ⟨_, ⟨⟩, _⟩ | ⟨pos, length, _, hr⟩
  cases hr
  exact ⟨pos, length, rfl⟩

end OffTape

theorem offTape_folded (f : Folded) : OffTape f.quiet := by
  induction f with
  | nil => exact .skip
  | lump l rest ih => exact (OffTape.act fun m hm => doLump_of_clean l hm).seq ih
  | loop body rest ihb ihr => exact ihb.loop.seq ihr

theorem offTape_block (b : Block) : OffTape b.quiet := by
  induction b with
  | nil => exact .skip
  | plain s rest ih =>
      rw [Block.quiet, Block.effect, pure_bind]
      refine (OffTape.act fun m hm => ?_).seq ih
      rcases doSymbol_of_clean s hm with ⟨m', hs⟩ | herr
      · exact .inl ⟨m', hs, kept_clean.doSymbol hm hs⟩
      · exact .inr herr
  | loop body rest ihb ihr =>
      rw [Block.quiet, Block.effect, pure_bind]
      exact ihb.loop.seq ihr

/-! ## Runs that fail -/

section Runs

variable {b : Block} {s : State} {e : Fault} {out : Sink}

theorem Stop.eq_fault {f : Stop} {pos : Int64} {length : Nat}
    (h : f.cause = .outOfBounds pos length) : f = .fault f.cause := by
  cases f with
  | fault e => rfl
  | panic => cases h

/-- A packed run fails as the fold of its text does, and does not panic. -/
theorem run_failed_iff (hlen : b.symbols.length ≤ 16777216) (h : Tracks m s.core) (hs : s.ip = 0)
    {f : Stop} :
    (∃ fuel s', run fuel (ofCode b.code) s = .failed f s' ∧ s'.output.sink = out) ↔
      ∃ e n, f = .fault e ∧ (fold .none b).quiet m (.error e n) ∧ n.output = out := by
  -- The core and the machine follow each other both ways.
  have hback : Sim (fun c m => Tracks m c) ((fold .none b).effect Core.look Core.work)
      (fold .none b).quiet :=
    Folded.sim_effect alike_look.swap (fun l => (alike_work l).swap) _
  constructor
  · rintro ⟨fuel, s', hrun, hout⟩
    cases hi : iterate (step (ofCode b.code)) fuel s with
    | pending s₁ => simp [run, hi, finish] at hrun
    | done s₁ =>
        -- A run that is done hands on its output, for the sink takes all.
        obtain ⟨_, _, hrel⟩ := hback h (effect_of_done hlen hs hi)
        cases hrel with
        | ok ht =>
            obtain ⟨s₂, hs₂, _⟩ := finish_done ht
            rw [run, hi, hs₂] at hrun
            cases hrun
    | failed f s₁ =>
        obtain ⟨_, hq, hrel⟩ := hback h (effect_of_failed hlen hs hi)
        cases hrel with
        | error ht =>
            obtain ⟨pos, length, hcause⟩ := (offTape_folded _).of_error h.clean hq
            obtain ⟨s₂, hs₂, hagrees⟩ := finish_failed ht f
            rw [run, hi, hs₂] at hrun
            cases hrun
            exact ⟨f.cause, _, Stop.eq_fault hcause, hq, hagrees.output.trans hout⟩
  · rintro ⟨e, n, rfl, hq, hout⟩
    obtain ⟨pos, length, rfl⟩ := (offTape_folded _).of_error h.clean hq
    obtain ⟨r, hr, hrel⟩ := Folded.sim_effect alike_look alike_work (fold .none b) h hq
    cases hrel with
    | @error _ _ c ht =>
        obtain ⟨fuel, f, hf, hcause⟩ := (ends_iterate hlen s.core (.error _ c)).2 hr
        rw [at_core hs] at hf
        cases hi : iterate (step (ofCode b.code)) fuel s with
        | done s₁ => simp [hi, Outcome.map] at hf
        | pending s₁ => simp [hi, Outcome.map] at hf
        | failed g s₁ =>
            simp only [hi, Outcome.map, Outcome.failed.injEq] at hf
            obtain ⟨rfl, rfl⟩ := hf
            obtain ⟨s₂, hs₂, hagrees⟩ := finish_failed ht g
            refine ⟨fuel, s₂, ?_, hagrees.output.symm.trans hout⟩
            rw [run, hi, hs₂, Stop.eq_fault hcause, hcause]

/-- A text run fails as its effect does. -/
theorem runCode_failed_iff (hlimit : m.limit ≤ 0) :
    (∃ fuel failure m', runCode fuel b.code m = .failed failure m' ∧ failure.fault = e ∧
        m'.output = out) ↔ ∃ n, b.quiet m (.error e n) ∧ n.output = out := by
  constructor
  · rintro ⟨fuel, failure, m', hrun, rfl, hout⟩
    obtain ⟨r, hr, hrel⟩ :=
      quiet_of_ends_runCode (r := .error failure.fault m') hlimit ⟨fuel, failure, hrun, rfl⟩
    cases hrel with
    | error hsame => exact ⟨_, hr, hsame.output.symm.trans hout⟩
  · rintro ⟨n, hq, hout⟩
    obtain ⟨r, hr, hrel⟩ := ends_runCode_of_quiet hlimit hq
    cases hrel with
    | error hsame =>
        obtain ⟨fuel, failure, hrun, hfault⟩ := hr
        exact ⟨fuel, failure, _, hrun, hfault, hsame.output.symm.trans hout⟩

/-- A run of a text that compiles fails as the text's effect does. -/
theorem execText_failed_iff {src : Bytes} (hsrc : Code.compile src = .ok b.code)
    (hlimit : m.limit ≤ 0) :
    (∃ fuel failure m', execText fuel src m = .failed failure m' ∧ failure.fault = e ∧
        m'.output = out) ↔ ∃ n, b.quiet m (.error e n) ∧ n.output = out := by
  simp only [execText, hsrc]
  exact runCode_failed_iff hlimit

end Runs

/-! ## From a configuration -/

section Fresh

variable {width : Width} {tapeLength : Int64} {input : Bytes} {live stdin : Option Reader}
  {sink : Sink}

def freshMachine (tapeLength : Int64) (width : Width) (input : Bytes) (live : Option Reader)
    (sink : Sink) : Machine :=
  { tape := Array.replicate tapeLength.toInt.toNat 0, width, input := input.toArray, live,
    output := sink }

theorem ofConfig_fresh (hlength : 0 < tapeLength) :
    Machine.ofConfig { tapeLength, cellWidth := .ofNat width.bytes, input, live, output := sink } =
      .ok (freshMachine tapeLength width input live sink) := by
  have hwidth : Width.ofBytes? (orDefault (.ofNat width.bytes) defaultCellWidth) = some width := by
    cases width <;> rfl
  have hne : tapeLength ≠ 0 := by
    rintro rfl
    exact absurd hlength (by decide)
  have htape : initialTape { tapeLength, cellWidth := .ofNat width.bytes, input, live,
                             output := sink } width =
      .ok (Array.replicate tapeLength.toInt.toNat 0) := by
    have hlt : ¬ tapeLength < 0 := Int64.not_lt.2 (Int64.le_of_lt hlength)
    simp only [initialTape, orDefault, if_neg hne, if_neg hlt]
    rfl
  simp only [Machine.ofConfig, hwidth, htape]
  rfl

theorem tracks_freshMachine (tapeLength : Int64) (width : Width)
    (hlive : ∀ r, live = some r → r.fails = false) (hstdin : ∀ r, stdin = some r → r.fails = false)
    (hinput : (stdin.map Reader.pending).getD [] = input ++ (live.map Reader.pending).getD [])
    (hsink : sink.room = none) :
    Tracks (freshMachine tapeLength width input live sink)
      (State.core { tape := Array.replicate tapeLength.toInt.toNat 0, width, input := stdin,
                    output := { sink } }) := by
  refine tracks_fresh (fun v hv => ?_) hlive hstdin hinput hsink
  rw [(Array.mem_replicate.1 hv).2]
  exact width.fits_zero

theorem execute_eq (hlength : 0 < tapeLength) (src : Bytes) (fuel : Nat) :
    execute fuel tapeLength (.ofNat width.bytes) src stdin sink =
      match Code.compile src with
      | .error u => .failed (.fault (.unmatched u)) sink
      | .ok code =>
        (run fuel (ofCode code) { tape := Array.replicate tapeLength.toInt.toNat 0, width,
                                  input := stdin, output := { sink } }).map (·.output.sink) := by
  have hwidth : Width.ofBytes? (.ofNat width.bytes) = some width := by
    cases width <;> rfl
  have hle : ¬ tapeLength ≤ 0 := Int64.not_le.2 hlength
  simp only [execute, hwidth, if_neg hle, compile]
  cases Code.compile src <;> rfl

theorem execute_unmatched {src : Bytes} {u : Unmatched} (hsrc : Code.compile src = .error u)
    (hlength : 0 < tapeLength) (fuel : Nat) :
    execute fuel tapeLength (.ofNat width.bytes) src stdin sink =
      .failed (.fault (.unmatched u)) sink := by
  rw [execute_eq hlength, hsrc]

/-- A packed execution of a text that compiles fails as the fold of the text does, and does not
panic. -/
theorem execute_failed_iff {src : Bytes} {b : Block} (hsrc : Code.compile src = .ok b.code)
    (hlen : b.symbols.length ≤ 16777216) (hlength : 0 < tapeLength)
    (ht : Tracks m (State.core { tape := Array.replicate tapeLength.toInt.toNat 0, width,
                                 input := stdin, output := { sink } })) {f : Stop} {out : Sink} :
    (∃ fuel, execute fuel tapeLength (.ofNat width.bytes) src stdin sink = .failed f out) ↔
      ∃ e n, f = .fault e ∧ (fold .none b).quiet m (.error e n) ∧ n.output = out := by
  rw [← run_failed_iff hlen ht rfl]
  refine exists_congr fun fuel => ?_
  rw [execute_eq hlength, hsrc]
  dsimp only
  cases hr : run fuel (ofCode b.code) _ with
  | done s => simp [Outcome.map]
  | pending s => simp [Outcome.map]
  | failed f s => simp [Outcome.map]

end Fresh

/-- Text of at most 2^24 symbols packed and run on a fresh tape, with a reliable output and input,
against the new machine that runs the text. The packed execution fails at an unmatched bracket or
off the tape; at the bracket where the text run does, and off the tape only if the text run leaves
the tape. If no run of additions cancels out, both leave the tape at the same cell, after the same
output. -/
theorem execute_fails_as_execText (src : Bytes) (tapeLength : Int64) (width : Width)
    (input : Bytes) (live stdin : Option Reader) (sink : Sink)
    (hlen : (Symbol.ofBytes src).length ≤ 0x1000000) (hlength : 1 ≤ tapeLength)
    (hlive : ∀ r, live = some r → r.fails = false) (hstdin : ∀ r, stdin = some r → r.fails = false)
    (hinput : (stdin.map Reader.pending).getD [] = input ++ (live.map Reader.pending).getD [])
    (hsink : sink.room = none) :
    ∃ m, Machine.ofConfig { tapeLength, cellWidth := .ofNat width.bytes, input, live,
                            output := sink } = .ok m ∧
      (∀ fuel e out, execute fuel tapeLength (.ofNat width.bytes) src stdin sink =
          .failed e out →
        (∃ u, e = .fault (.unmatched u)) ∨
          ∃ pos length, e = .fault (.outOfBounds pos length)) ∧
      (∀ u, (∃ fuel out, execute fuel tapeLength (.ofNat width.bytes) src stdin sink =
          .failed (.fault (.unmatched u)) out) ↔
        ∃ fuel failure m', execText fuel src m = .failed failure m' ∧
          failure.fault = .unmatched u) ∧
      ((∃ fuel pos length out, execute fuel tapeLength (.ofNat width.bytes) src stdin sink =
          .failed (.fault (.outOfBounds pos length)) out) →
        ∃ pos length out, LeavesTape (execText · src m) pos length out) ∧
      (uncancelled none (Symbol.ofBytes src) = true → ∀ pos length out,
        (∃ fuel, execute fuel tapeLength (.ofNat width.bytes) src stdin sink =
          .failed (.fault (.outOfBounds pos length)) out) ↔
        LeavesTape (execText · src m) pos length out) := by
  have hpos : 0 < tapeLength := by
    rw [Int64.le_iff_toInt_le] at hlength
    rw [Int64.lt_iff_toInt_lt]
    exact hlength
  refine ⟨_, ofConfig_fresh hpos, ?_⟩
  have ht : Tracks (freshMachine tapeLength width input live sink) _ :=
    tracks_freshMachine tapeLength width hlive hstdin hinput hsink
  have hlimit : (freshMachine tapeLength width input live sink).limit ≤ 0 := Int64.le_refl 0
  generalize freshMachine tapeLength width input live sink = m at ht hlimit
  cases hsrc : Code.compile src with
  | error u =>
      have hexecute : ∀ fuel, execute fuel tapeLength (.ofNat width.bytes) src stdin sink =
          .failed (.fault (.unmatched u)) sink := execute_unmatched hsrc hpos
      have htext : ∀ fuel, execText fuel src m = .failed ⟨[], .unmatched u⟩ m := by
        intro fuel
        rw [execText, hsrc]
      simp only [LeavesTape, hexecute, htext]
      refine ⟨?_, fun u' => ⟨?_, ?_⟩, ?_, fun _ pos length out => ⟨?_, ?_⟩⟩
      · rintro _ _ _ ⟨⟩
        exact .inl ⟨u, rfl⟩
      · rintro ⟨_, _, ⟨⟩⟩
        exact ⟨0, _, m, rfl, rfl⟩
      · rintro ⟨_, _, _, ⟨⟩, ⟨⟩⟩
        exact ⟨0, sink, rfl⟩
      · rintro ⟨_, _, _, _, ⟨⟩⟩
      · rintro ⟨_, ⟨⟩⟩
      · rintro ⟨_, _, _, ⟨⟩, ⟨⟩, _⟩
  | ok code =>
      obtain ⟨b, hb, rfl⟩ := Code.exists_block hsrc
      rw [hb] at hlen ⊢
      have hexecute := @execute_failed_iff m width tapeLength stdin sink src b hsrc hlen hpos ht
      have htext := fun e out => @execText_failed_iff m b e out src hsrc hlimit
      refine ⟨fun fuel e out hrun => .inr ?_, fun u => ⟨?_, ?_⟩, ?_, fun hb pos length out => ?_⟩
      · obtain ⟨_, n, rfl, hq, -⟩ := hexecute.1 ⟨fuel, hrun⟩
        obtain ⟨pos, length, rfl⟩ := (offTape_folded _).of_error ht.clean hq
        exact ⟨pos, length, rfl⟩
      · rintro ⟨fuel, out, hrun⟩
        obtain ⟨_, n, ⟨⟩, hq, -⟩ := hexecute.1 ⟨fuel, hrun⟩
        obtain ⟨_, _, ⟨⟩⟩ := (offTape_folded _).of_error ht.clean hq
      · rintro ⟨fuel, failure, m', hrun, hfault⟩
        obtain ⟨n, hq, -⟩ := (htext _ _).1 ⟨fuel, failure, m', hrun, hfault, rfl⟩
        obtain ⟨_, _, ⟨⟩⟩ := (offTape_block b).of_error ht.clean hq
      · rintro ⟨fuel, pos, length, out, hrun⟩
        obtain ⟨_, n, ⟨⟩, hq, -⟩ := hexecute.1 ⟨fuel, hrun⟩
        rcases (folds_block_fold b).back ht.clean hq with ⟨_, ⟨⟩, _⟩ | ⟨pos', length', n', hleaves⟩
        exact ⟨pos', length', _, (htext _ _).2 ⟨n', hleaves, rfl⟩⟩
      · rw [hexecute, LeavesTape, htext]
        simp only [quiet_iff_fold ht.clean hb, Stop.fault.injEq, exists_and_left, exists_eq_left']

/-- The text `,.<+` leaves a tape of two cells after it has echoed one byte. -/
theorem execute_fails_as_execText_left_of_tape :
    ∃ m, Machine.ofConfig { tapeLength := 2, cellWidth := .ofNat Width.two.bytes, input := [7],
                            live := some ⟨[8], false⟩ } = .ok m ∧
      execute 4 2 (.ofNat Width.two.bytes) [44, 46, 60, 43] (some ⟨[7, 8], false⟩) {} =
        .failed (.fault (.outOfBounds (-1) 2)) { bytes := #[7] } ∧
      LeavesTape (execText · [44, 46, 60, 43] m) (-1) 2 { bytes := #[7] } := by
  have hrun : execute 4 2 (.ofNat Width.two.bytes) [44, 46, 60, 43] (some ⟨[7, 8], false⟩) {} =
      .failed (.fault (.outOfBounds (-1) 2)) { bytes := #[7] } := rfl
  obtain ⟨m, hm, -, -, -, h⟩ := execute_fails_as_execText [44, 46, 60, 43] 2 .two [7]
    (some ⟨[8], false⟩) (some ⟨[7, 8], false⟩) {} (by decide) (by decide) (by simp) (by simp) rfl
    rfl
  exact ⟨m, hm, hrun, (h (by decide) _ _ _).1 ⟨4, hrun⟩⟩

/-- The text `<+->.` leaves a tape of eight cells at its `+`, which packing drops with the run. -/
theorem execute_passes_cancelled_run :
    uncancelled none (Symbol.ofBytes [60, 43, 45, 62, 46]) = false ∧
      execute 4 8 1 [60, 43, 45, 62, 46] none {} = .done { bytes := #[0] } ∧
      (∀ fuel pos length out, execute fuel 8 1 [60, 43, 45, 62, 46] none {} ≠
        .failed (.fault (.outOfBounds pos length)) out) ∧
      ∃ m, Machine.ofConfig { tapeLength := 8, cellWidth := 1 } = .ok m ∧
        LeavesTape (execText · [60, 43, 45, 62, 46] m) (-1) 8 {} := by
  have htext : execText 2 [60, 43, 45, 62, 46]
      { tape := #[0, 0, 0, 0, 0, 0, 0, 0], width := .one } =
      .failed ⟨[.symbol 1], .outOfBounds (-1) 8⟩
        { tape := #[0, 0, 0, 0, 0, 0, 0, 0], width := .one, dp := -1, steps := 2 } := rfl
  refine ⟨by decide, rfl, fun fuel pos length out h => ?_, _, rfl, 2, _, _, htext, rfl, rfl⟩
  match fuel with
  | 0 | 1 | 2 | 3 => cases h
  | fuel + 4 =>
      have hdone : execute (fuel + 4) 8 1 [60, 43, 45, 62, 46] none {} = .done { bytes := #[0] } :=
        rfl
      rw [hdone] at h
      cases h

end Packed

end TapeForge
